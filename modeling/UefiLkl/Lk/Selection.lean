import UefiLkl.Lk.Objects
set_option autoImplicit false

/-!
Who is chosen to run: the search through the bitmap, and what `thread_resched` leaves.
-/

namespace UefiLkl.Lk
open Coroutine

def NUM_PRIORITIES : Nat := 32

/-- The queue of the highest bit, in the arithmetic of unsigned integers:
`HIGHEST_PRIORITY - __builtin_clz(bitmap) - (sizeof(run_queue_bitmap) * 8 - NUM_PRIORITIES)`. -/
def nextQueue (bitmap : BitVec 32) : Priority :=
  Fin.ofNat 32 (BitVec.ofNat 32 HIGHEST_PRIORITY.val - bitmap.clz -
    BitVec.ofNat 32 (4 * 8 - NUM_PRIORITIES)).toNat

section Bits

variable {b : BitVec 32} {p : Priority}

theorem nextQueue_eq (hb : b ≠ 0) : (nextQueue b).val = 31 - b.clz.toNat := by
  have hlt : b.clz.toNat < 32 := BitVec.lt_def.mp (BitVec.clz_lt_iff_ne_zero.mpr hb)
  simp only [nextQueue, HIGHEST_PRIORITY, NUM_PRIORITIES, Fin.ofNat]
  bv_omega

theorem nextQueue_set (hb : b ≠ 0) : b.getLsbD (nextQueue b) = true := by
  rw [nextQueue_eq hb]
  exact BitVec.getLsbD_true_clz_of_ne_zero (by decide) hb

/-- The highest bit that is set is found. -/
theorem nextQueue_of_highest (hp : b.getLsbD p = true)
    (habove : ∀ q : Priority, p < q → b.getLsbD q = false) : nextQueue b = p := by
  have hb : b ≠ 0 := by
    rintro rfl
    simp at hp
  refine le_antisymm ?_ ?_
  · by_contra hlt
    have hclear := habove _ (not_le.mp hlt)
    rw [nextQueue_set hb] at hclear
    cases hclear
  · have hlt : b.toNat < 2 ^ (32 - b.clz.toNat) := BitVec.toNat_lt_two_pow_sub_clz
    have hle : 2 ^ p.val ≤ b.toNat := Nat.ge_two_pow_of_testBit hp
    have hexp := (Nat.pow_lt_pow_iff_right (by decide : 1 < 2)).mp (hle.trans_lt hlt)
    rw [Fin.le_def, nextQueue_eq hb]
    omega

theorem clear_lt (hb : b ≠ 0) :
    (b &&& ~~~(1#32 <<< (nextQueue b).val)).toNat < b.toNat := by
  refine lt_of_le_of_ne Nat.and_le_left fun heq => ?_
  have hsame := congrArg (fun x : BitVec 32 => x.getLsbD (nextQueue b)) (BitVec.eq_of_toNat_eq heq)
  rw [Queues.getLsbD_clearBit, nextQueue_set hb] at hsame
  simp at hsame

end Bits

/-- The loop of `get_top_thread`, over what is left of the bitmap. -/
def Kernel.topThread (lk : Kernel) (bitmap : BitVec 32) : Tid × Kernel :=
  if bitmap = 0 then (idleThread, lk)
  else
    match lk.runQueue (nextQueue bitmap) with
    | t :: ts =>
      (t, { lk with
        runQueue := Function.update lk.runQueue (nextQueue bitmap) ts
        runQueueBitmap :=
          if ts.isEmpty then lk.runQueueBitmap &&& ~~~(1#32 <<< (nextQueue bitmap).val)
          else lk.runQueueBitmap })
    | [] => lk.topThread (bitmap &&& ~~~(1#32 <<< (nextQueue bitmap).val))
termination_by bitmap.toNat
decreasing_by exact clear_lt ‹_›

section Search

variable {lk : Kernel}

/-- Going down the priorities finds what the leading zeros of the bitmap find. -/
theorem Kernel.topThread_scan {ps : List Priority} (hps : ps.Pairwise (· > ·)) {b : BitVec 32}
    (hb : ∀ p : Priority, b.getLsbD p = (decide (p ∈ ps) && lk.runQueueBitmap.getLsbD p)) :
    lk.topThread b = getTopThread.scan lk ps := by
  induction ps generalizing b with
  | nil =>
    have hzero : b = 0 := by
      refine BitVec.eq_of_getLsbD_eq fun i hi => ?_
      simpa using hb ⟨i, hi⟩
    unfold Kernel.topThread getTopThread.scan
    rw [if_pos hzero]
  | cons p ps ih =>
    obtain ⟨hlt, hps⟩ := List.pairwise_cons.mp hps
    have hnot : p ∉ ps := fun hmem => lt_irrefl p (hlt p hmem)
    unfold getTopThread.scan
    by_cases hbit : lk.runQueueBitmap.getLsbD p = true
    · have hset : b.getLsbD p = true := by simp [hb, hbit]
      have hnext : nextQueue b = p := by
        refine nextQueue_of_highest hset fun q hq => ?_
        have hout : q ∉ p :: ps := by
          rintro (_ | ⟨_, hmem⟩)
          · exact lt_irrefl _ hq
          · exact lt_asymm hq (hlt q hmem)
        rw [hb, decide_eq_false hout, Bool.false_and]
      have hzero : b ≠ 0 := by
        rintro rfl
        simp at hset
      rw [if_pos hbit, Kernel.topThread, if_neg hzero, hnext]
      cases hq : lk.runQueue p with
      | nil =>
        refine ih hps fun q => ?_
        rw [Queues.getLsbD_clearBit, hb]
        by_cases hqp : q = p
        · simp [hqp, hnot]
        · simp [hqp]
      | cons t ts => rfl
    · rw [if_neg hbit]
      refine ih hps fun q => ?_
      rw [hb]
      by_cases hqp : q = p
      · rw [hqp, Bool.eq_false_iff.mpr hbit, Bool.and_false, Bool.and_false]
      · simp [hqp]

theorem priorities_descend : (List.finRange 32).reverse.Pairwise (· > ·) := by decide

theorem Kernel.topThread_eq (lk : Kernel) :
    lk.topThread lk.runQueueBitmap = lk.getTopThread :=
  Kernel.topThread_scan priorities_descend fun p => by simp

theorem Kernel.scan_above {ps : List Priority} (hps : ps.Pairwise (· > ·))
    (hbit : ∀ p : Priority, lk.runQueueBitmap.getLsbD p = !(lk.runQueue p).isEmpty) :
    (getTopThread.scan lk ps = (idleThread, lk) ∧ ∀ p ∈ ps, lk.runQueue p = []) ∨
      ∃ p ts, lk.runQueue p = (getTopThread.scan lk ps).1 :: ts ∧
        (getTopThread.scan lk ps).2.runQueue = Function.update lk.runQueue p ts ∧
        ∀ p' ∈ ps, p < p' → lk.runQueue p' = [] := by
  induction ps with
  | nil => exact .inl ⟨rfl, by simp⟩
  | cons p ps ih =>
    obtain ⟨hlt, hps⟩ := List.pairwise_cons.mp hps
    unfold getTopThread.scan
    cases hq : lk.runQueue p with
    | nil =>
      have hclear : lk.runQueueBitmap.getLsbD p = false := by rw [hbit, hq]; rfl
      rw [hclear, if_neg (by decide)]
      refine (ih hps).imp (fun h => ⟨h.1, ?_⟩) ?_
      · exact List.forall_mem_cons.mpr ⟨hq, h.2⟩
      · rintro ⟨p', ts, htop, hrest, habove⟩
        exact ⟨p', ts, htop, hrest, List.forall_mem_cons.mpr ⟨fun _ => hq, habove⟩⟩
    | cons t ts =>
      have hset : lk.runQueueBitmap.getLsbD p = true := by rw [hbit, hq]; rfl
      rw [if_pos hset]
      refine .inr ⟨p, ts, hq, rfl, List.forall_mem_cons.mpr ⟨fun h => absurd h (lt_irrefl p), ?_⟩⟩
      exact fun p' hp' h => absurd h (lt_asymm (hlt p' hp'))

/-- The chosen thread is the first of the highest queue there is, and leaves it; the idle thread
is chosen where all queues are empty. -/
theorem Kernel.Placed.top_cases {run : Option Tid} {between : Set Tid} (h : lk.Placed run between) :
    (lk.getTopThread = (idleThread, lk) ∧ ∀ p, lk.runQueue p = []) ∨
      ∃ p ts, lk.runQueue p = lk.getTopThread.1 :: ts ∧
        lk.getTopThread.2.runQueue = Function.update lk.runQueue p ts ∧
        ∀ p', p < p' → lk.runQueue p' = [] := by
  rcases Kernel.scan_above priorities_descend h.bitmap with
    ⟨heq, hnone⟩ | ⟨p, ts, htop, hrest, habove⟩
  · exact .inl ⟨heq, fun p => hnone p (by simp)⟩
  · exact .inr ⟨p, ts, htop, hrest, fun p' hp' => habove p' (by simp) hp'⟩

end Search

/-- No thread that is ready has a higher priority than the one that runs. -/
def Kernel.Topmost (lk : Kernel) : Prop :=
  ∀ t, (lk.threads t).state = .ready →
    (lk.threads t).priority ≤ (lk.threads lk.currentThread).priority

section Resched

variable {lk : Kernel}

theorem Kernel.getTopThread_threads (lk : Kernel) : lk.getTopThread.2.threads = lk.threads := by
  rw [Kernel.getTopThread_eq]

theorem Kernel.setUpQuantum_state (lk : Kernel) (t u : Tid) :
    ((lk.setUpQuantum t).threads u).state = (lk.threads u).state ∧
      ((lk.setUpQuantum t).threads u).priority = (lk.threads u).priority := by
  unfold Kernel.setUpQuantum
  split
  · by_cases hu : u = t
    · simp [hu]
    · simp [Kernel.setThread, hu]
  · exact ⟨rfl, rfl⟩

theorem threadResched_state (lk : Kernel) :
    (threadResched.run lk).state.currentThread = lk.getTopThread.1 ∧
    (threadResched.run lk).state.runQueue = lk.getTopThread.2.runQueue ∧
    (threadResched.run lk).state.nextTid = lk.nextTid ∧
    ∀ t, ((threadResched.run lk).state.threads t).state =
        (if t = lk.getTopThread.1 then .running else (lk.threads t).state) ∧
      ((threadResched.run lk).state.threads t).priority = (lk.threads t).priority := by
  have hcurrent : lk.getTopThread.2.currentThread = lk.currentThread := by
    rw [Kernel.getTopThread_eq]
  have hnext : lk.getTopThread.2.nextTid = lk.nextTid := by rw [Kernel.getTopThread_eq]
  have hthread : ∀ t, ((lk.getTopThread.2.setState lk.getTopThread.1 .running).threads t).state =
        (if t = lk.getTopThread.1 then .running else (lk.threads t).state) ∧
      ((lk.getTopThread.2.setState lk.getTopThread.1 .running).threads t).priority =
        (lk.threads t).priority := by
    intro t
    by_cases ht : t = lk.getTopThread.1
    · simp [Kernel.setState, ← ht, Kernel.getTopThread_threads]
    · simp [Kernel.setState, Kernel.setThread, ht, Kernel.getTopThread_threads]
  simp only [threadResched]
  split
  · next hsame => exact ⟨hsame.symm, rfl, hnext, hthread⟩
  · refine ⟨rfl, ?_, ?_, fun t => ?_⟩
    · dsimp only [Susp.state]
      rw [Kernel.setUpQuantum_eq]
      rfl
    · dsimp only [Susp.state]
      rw [Kernel.setUpQuantum_eq]
      exact hnext
    · have hq := Kernel.setUpQuantum_state
        (lk.getTopThread.2.setState lk.getTopThread.1 .running) lk.getTopThread.1 t
      exact ⟨hq.1.trans (hthread t).1, hq.2.trans (hthread t).2⟩

theorem threadResched_topmost (h : lk.Placed none ∅) : (threadResched.run lk).state.Topmost := by
  obtain ⟨hcurrent, -, -, hthread⟩ := threadResched_state lk
  intro t ht
  rw [(hthread t).1] at ht
  split at ht
  · cases ht
  · have hmem := (h.ready _ t).mpr ⟨Set.notMem_empty t, ht, rfl⟩
    rw [(hthread t).2, hcurrent, (hthread _).2]
    rcases h.top_cases with ⟨-, hnone⟩ | ⟨p, ts, htop, -, habove⟩
    · simp [hnone] at hmem
    · have hchosen := (h.ready p lk.getTopThread.1).mp (by simp [htop])
      rw [hchosen.2.2]
      by_contra hlt
      simp [habove _ (not_le.mp hlt)] at hmem

/-- The first thread of the highest queue that is not empty runs, and is gone from it; the idle
thread runs where all are empty. Nothing else has moved. -/
structure Kernel.Chooses (lk lk' : Kernel) : Prop where
  wf : lk'.Wf
  chosen : (∃ p ts, lk.runQueue p = lk'.currentThread :: ts ∧
      (∀ p', p < p' → lk.runQueue p' = []) ∧ lk'.runQueue = Function.update lk.runQueue p ts) ∨
    (∀ p, lk.runQueue p = []) ∧ lk'.currentThread = idleThread ∧ lk'.runQueue = lk.runQueue
  state : ∀ t, (lk'.threads t).state =
    if t = lk'.currentThread then .running else (lk.threads t).state

theorem threadResched_chooses (h : lk.Placed none ∅) : lk.Chooses (threadResched.run lk).state := by
  obtain ⟨hcurrent, hqueue, -, hthread⟩ := threadResched_state lk
  refine ⟨?_, ?_, fun t => by rw [hcurrent, (hthread t).1]⟩
  · have hkeeps := threadResched_wf (Q := fun _ lk' => lk'.Wf) h fun _ _ hwf => hwf
    generalize threadResched.run lk = x at hkeeps
    cases x with
    | done a lk' => exact hkeeps
    | switch lk' k => exact hkeeps.1
  · rw [hcurrent, hqueue]
    rcases h.top_cases with ⟨heq, hnone⟩ | ⟨p, ts, htop, hrest, habove⟩
    · exact .inr ⟨hnone, by rw [heq], by rw [heq]⟩
    · exact .inl ⟨p, ts, htop, habove, hrest⟩

end Resched

end UefiLkl.Lk
