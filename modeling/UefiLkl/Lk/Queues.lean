import Mathlib.Data.Set.Insert
import UefiLkl.Lk.Host
set_option autoImplicit false

/-!
Where the threads are: running, on the run queue of their priority, or on the wait queue
they are blocked on. Inside an operation some threads are in between.
-/

namespace UefiLkl.Lk
open Coroutine

/-- All threads but those `between` are where their states say, and `run` is running. -/
structure Queues (threads : Tid → Thread) (runQueue : Priority → List Tid)
    (bitmap : BitVec 32) (wait : Wq → WaitQueue) (nextTid : Tid) (run : Option Tid)
    (between : Set Tid) : Prop where
  running : ∀ t ∉ between, (threads t).state = .running ↔ run = some t
  ready : ∀ p t, t ∈ runQueue p ↔
    t ∉ between ∧ (threads t).state = .ready ∧ (threads t).priority = p
  once : ∀ p, (runQueue p).Nodup
  bitmap : ∀ p : Priority, bitmap.getLsbD p = !(runQueue p).isEmpty
  blocked : ∀ q t, t ∈ (wait q).list ↔
    t ∉ between ∧ (threads t).state = .blocked ∧ (threads t).blockingWaitQueue = some q
  waitOnce : ∀ q, (wait q).list.Nodup
  count : ∀ q, (wait q).count = (wait q).list.length
  idle : (threads idleThread).state = .suspended ∨ (threads idleThread).state = .ready ∨
    (threads idleThread).state = .running
  unborn : ∀ t, nextTid ≤ t → (threads t).state = .death ∧ (wait (.retcode t)).list = []
  regular : ∀ t, (threads t).idle = false

def Kernel.Placed (lk : Kernel) (run : Option Tid) (between : Set Tid) : Prop :=
  Queues lk.threads lk.runQueue lk.runQueueBitmap lk.wait lk.nextTid run between

/-- Between the operations, and at every switch. -/
def Kernel.Wf (lk : Kernel) : Prop := lk.Placed (some lk.currentThread) ∅

namespace Queues

variable {threads : Tid → Thread} {runQueue : Priority → List Tid} {bitmap : BitVec 32}
  {wait : Wq → WaitQueue} {nextTid : Tid} {run : Option Tid} {between : Set Tid} {t : Tid}
  {thread : Thread}

theorem lt_nextTid (h : Queues threads runQueue bitmap wait nextTid run between)
    (ht : (threads t).state ≠ .death) : t < nextTid := by
  by_contra hle
  exact ht (h.unborn t (Nat.le_of_not_lt hle)).1

theorem regular_update (h : Queues threads runQueue bitmap wait nextTid run between)
    (hflag : thread.idle = (threads t).idle) (u : Tid) :
    (Function.update threads t thread u).idle = false := by
  by_cases hu : u = t
  · rw [hu, Function.update_self, hflag]
    exact h.regular t
  · rw [Function.update_of_ne hu]
    exact h.regular u

theorem idle_update (h : Queues threads runQueue bitmap wait nextTid run between)
    (hthread : t = idleThread → thread.state = .ready ∨ thread.state = .running) :
    (Function.update threads t thread idleThread).state = .suspended ∨
      (Function.update threads t thread idleThread).state = .ready ∨
      (Function.update threads t thread idleThread).state = .running := by
  by_cases hi : idleThread = t
  · rw [hi, Function.update_self]
    exact .inr (hthread hi.symm)
  · rw [Function.update_of_ne hi]
    exact h.idle

theorem update_of_notMem {u : Tid} (hu : u ∉ insert t between) :
    Function.update threads t thread u = threads u := by
  have hne : u ≠ t := fun hut => hu (hut ▸ Set.mem_insert u between)
  rw [Function.update_of_ne hne]

theorem insert_ready (h : Queues threads runQueue bitmap wait nextTid run between)
    (ht : (threads t).state ≠ .ready) (p : Priority) (u : Tid) :
    u ∈ runQueue p ↔ u ∉ insert t between ∧ (threads u).state = .ready ∧
      (threads u).priority = p := by
  rw [h.ready p u]
  by_cases hu : u = t
  · simp [hu, ht]
  · simp [hu]

theorem lift (h : Queues threads runQueue bitmap wait nextTid (some t) between) (thread : Thread)
    (ht : t ∉ between)
    (hidle : t = idleThread → thread.state = .ready) (hflag : thread.idle = (threads t).idle) :
    Queues (Function.update threads t thread) runQueue bitmap wait nextTid none
      (insert t between) := by
  have hrun := (h.running t ht).mpr rfl
  have hborn : t < nextTid := h.lt_nextTid (by rw [hrun]; decide)
  constructor
  · intro u hu
    have hne : u ≠ t := fun hut => hu (hut ▸ Set.mem_insert u between)
    rw [update_of_notMem hu, h.running u fun hb => hu (Set.mem_insert_of_mem t hb)]
    simp [Ne.symm hne]
  · intro p u
    rw [h.insert_ready (t := t) (by rw [hrun]; decide)]
    exact and_congr_right fun hu => by rw [update_of_notMem hu]
  · exact h.once
  · exact h.bitmap
  · intro q u
    rw [h.blocked q u]
    by_cases hu : u = t
    · simp [hu, hrun]
    · simp [hu]
  · exact h.waitOnce
  · exact h.count
  · exact h.idle_update fun hi => .inl (hidle hi)
  · intro u hu
    rw [Function.update_of_ne (hborn.trans_le hu).ne']
    exact h.unborn u hu
  · exact h.regular_update hflag

theorem rouse (h : Queues threads runQueue bitmap wait nextTid run between)
    (ht : (threads t).state = .suspended) (hstate : thread.state = .ready)
    (hflag : thread.idle = (threads t).idle) :
    Queues (Function.update threads t thread) runQueue bitmap wait nextTid run
      (insert t between) := by
  have hborn : t < nextTid := h.lt_nextTid (by rw [ht]; decide)
  constructor
  · intro u hu
    rw [update_of_notMem hu, h.running u fun hb => hu (Set.mem_insert_of_mem t hb)]
  · intro p u
    rw [h.insert_ready (t := t) (by rw [ht]; decide)]
    exact and_congr_right fun hu => by rw [update_of_notMem hu]
  · exact h.once
  · exact h.bitmap
  · intro q u
    rw [h.blocked q u]
    by_cases hu : u = t
    · simp [hu, ht]
    · simp [hu]
  · exact h.waitOnce
  · exact h.count
  · exact h.idle_update fun _ => .inl hstate
  · intro u hu
    rw [Function.update_of_ne (hborn.trans_le hu).ne']
    exact h.unborn u hu
  · exact h.regular_update hflag

theorem mem_diff_of_mem_ne {u : Tid} (hu : u ∉ between \ {t}) (hne : u ≠ t) : u ∉ between :=
  fun hb => hu ⟨hb, hne⟩

theorem getLsbD_setBit (b : BitVec 32) (p q : Priority) :
    (b ||| (1#32 <<< p.val)).getLsbD q = (b.getLsbD q || decide (q = p)) := by
  rw [BitVec.getLsbD_or, BitVec.getLsbD_shiftLeft, BitVec.getLsbD_one]
  have hq := q.isLt
  congr 1
  rw [Bool.eq_iff_iff]
  simp only [Bool.and_eq_true, decide_eq_true_eq, Bool.not_eq_true', decide_eq_false_iff_not,
    Fin.ext_iff]
  omega

theorem getLsbD_clearBit (b : BitVec 32) (p q : Priority) :
    (b &&& ~~~(1#32 <<< p.val)).getLsbD q = (b.getLsbD q && !decide (q = p)) := by
  rw [BitVec.getLsbD_and, BitVec.getLsbD_not, BitVec.getLsbD_shiftLeft, BitVec.getLsbD_one]
  have hq := q.isLt
  congr 1
  rw [Bool.eq_iff_iff]
  simp only [Bool.and_eq_true, decide_eq_true_eq, Bool.not_eq_true', decide_eq_false_iff_not,
    Fin.ext_iff, Bool.and_eq_false_iff, Bool.not_eq_false']
  omega

theorem insert {list : List Tid} (h : Queues threads runQueue bitmap wait nextTid run between)
    (ht : t ∈ between) (hrun : run ≠ some t) (hready : (threads t).state = .ready)
    (hlist : list.Perm (t :: runQueue (threads t).priority)) :
    Queues threads (Function.update runQueue (threads t).priority list)
      (bitmap ||| (1#32 <<< (threads t).priority.val)) wait nextTid run (between \ {t}) := by
  have hnot : t ∉ runQueue (threads t).priority := fun hmem => ((h.ready _ t).mp hmem).1 ht
  have hne : list ≠ [] := fun hnil => by simp [hnil] at hlist
  constructor
  · intro u hu
    by_cases hut : u = t
    · simp [hut, hready, hrun]
    · exact h.running u (mem_diff_of_mem_ne hu hut)
  · intro p u
    by_cases hp : p = (threads t).priority
    · rw [hp, Function.update_self, hlist.mem_iff, List.mem_cons, h.ready]
      by_cases hut : u = t
      · simp [hut, hready]
      · simp [hut]
    · rw [Function.update_of_ne hp, h.ready]
      by_cases hut : u = t
      · simp [hut, ht, Ne.symm hp]
      · simp [hut]
  · intro p
    by_cases hp : p = (threads t).priority
    · rw [hp, Function.update_self, hlist.nodup_iff]
      exact List.nodup_cons.mpr ⟨hnot, h.once _⟩
    · rw [Function.update_of_ne hp]
      exact h.once p
  · intro p
    rw [getLsbD_setBit, h.bitmap]
    by_cases hp : p = (threads t).priority
    · simp [hp, hne]
    · simp [hp]
  · intro q u
    rw [h.blocked]
    by_cases hut : u = t
    · simp [hut, hready]
    · simp [hut]
  · exact h.waitOnce
  · exact h.count
  · exact h.idle
  · exact h.unborn
  · exact h.regular

theorem dequeue {q : Wq} {rest : List Tid} {w : WaitQueue}
    (h : Queues threads runQueue bitmap wait nextTid run between) (hmem : t ∈ (wait q).list)
    (hrest : (wait q).list.Perm (t :: rest)) (hw : w.list = rest)
    (hcount : w.count = (wait q).count - 1)
    (hstate : thread.state = .ready) (hflag : thread.idle = (threads t).idle) :
    Queues (Function.update threads t thread) runQueue bitmap (Function.update wait q w) nextTid run
      (Insert.insert t between) := by
  obtain ⟨hb, hblocked, hq⟩ := (h.blocked q t).mp hmem
  have hborn : t < nextTid := h.lt_nextTid (by rw [hblocked]; decide)
  have hnodup : (t :: rest).Nodup := hrest.nodup_iff.mp (h.waitOnce q)
  constructor
  · intro u hu
    rw [update_of_notMem hu, h.running u fun hb => hu (Set.mem_insert_of_mem t hb)]
  · intro p u
    rw [h.insert_ready (t := t) (by rw [hblocked]; decide)]
    exact and_congr_right fun hu => by rw [update_of_notMem hu]
  · exact h.once
  · exact h.bitmap
  · intro q' u
    by_cases hut : u = t
    · have hnot : u ∉ (Function.update wait q w q').list := by
        by_cases hq' : q' = q
        · rw [hq', Function.update_self, hw, hut]
          exact (List.nodup_cons.mp hnodup).1
        · rw [Function.update_of_ne hq', hut, h.blocked, hq]
          simp [Ne.symm hq']
      rw [hut] at hnot ⊢
      simp [hnot]
    · have hsame : u ∈ (Function.update wait q w q').list ↔ u ∈ (wait q').list := by
        by_cases hq' : q' = q
        · rw [hq', Function.update_self, hw, hrest.mem_iff]
          simp [hut]
        · rw [Function.update_of_ne hq']
      rw [hsame, h.blocked, Function.update_of_ne hut]
      simp [hut]
  · intro q'
    by_cases hq' : q' = q
    · rw [hq', Function.update_self, hw]
      exact (List.nodup_cons.mp hnodup).2
    · rw [Function.update_of_ne hq']
      exact h.waitOnce q'
  · intro q'
    by_cases hq' : q' = q
    · rw [hq', Function.update_self, hw, hcount, h.count, hrest.length_eq]
      simp
    · rw [Function.update_of_ne hq']
      exact h.count q'
  · exact h.idle_update fun _ => .inl hstate
  · intro u hu
    obtain ⟨hdead, hnone⟩ := h.unborn u hu
    rw [Function.update_of_ne (hborn.trans_le hu).ne']
    refine ⟨hdead, ?_⟩
    by_cases hq' : .retcode u = q
    · rw [← hq', hnone] at hmem
      cases hmem
    · rw [Function.update_of_ne hq']
      exact hnone
  · exact h.regular_update hflag

theorem enqueue {q : Wq} (h : Queues threads runQueue bitmap wait nextTid none between)
    (thread : Thread) (w : WaitQueue) (ht : t ∈ between)
    (hborn : t < nextTid) (hidle : t ≠ idleThread) (hq : ∀ u, q = .retcode u → u < nextTid)
    (hlist : w.list = (wait q).list ++ [t]) (hcount : w.count = (wait q).count + 1)
    (hstate : thread.state = .blocked) (hqueue : thread.blockingWaitQueue = some q)
    (hflag : thread.idle = (threads t).idle) :
    Queues (Function.update threads t thread) runQueue bitmap
      (Function.update wait q w) nextTid none
      (between \ {t}) := by
  have hnot : ∀ q', t ∉ (wait q').list := fun q' hmem => ((h.blocked q' t).mp hmem).1 ht
  constructor
  · intro u hu
    by_cases hut : u = t
    · simp [hut, hstate]
    · rw [Function.update_of_ne hut]
      exact h.running u (mem_diff_of_mem_ne hu hut)
  · intro p u
    rw [h.ready]
    by_cases hut : u = t
    · simp [hut, ht, hstate]
    · simp [hut]
  · exact h.once
  · exact h.bitmap
  · intro q' u
    by_cases hut : u = t
    · by_cases hq' : q' = q
      · simp [hut, hq', hlist, hstate, hqueue]
      · simp [hut, hq', hnot q', hqueue, Ne.symm hq']
    · have hsame : u ∈ (Function.update wait q w q').list ↔ u ∈ (wait q').list := by
        by_cases hq' : q' = q
        · rw [hq', Function.update_self, hlist]
          simp [hut]
        · rw [Function.update_of_ne hq']
      rw [hsame, h.blocked, Function.update_of_ne hut]
      simp [hut]
  · intro q'
    by_cases hq' : q' = q
    · rw [hq', Function.update_self, hlist]
      exact (h.waitOnce q).append (List.nodup_singleton t) (by simpa using hnot q)
    · rw [Function.update_of_ne hq']
      exact h.waitOnce q'
  · intro q'
    by_cases hq' : q' = q
    · rw [hq', Function.update_self, hlist, hcount, h.count]
      simp
    · rw [Function.update_of_ne hq']
      exact h.count q'
  · exact h.idle_update fun hi => absurd hi hidle
  · intro u hu
    obtain ⟨hdead, hnone⟩ := h.unborn u hu
    rw [Function.update_of_ne (hborn.trans_le hu).ne']
    refine ⟨hdead, ?_⟩
    by_cases hq' : .retcode u = q
    · exact absurd (hq u hq'.symm) hu.not_gt
    · rw [Function.update_of_ne hq']
      exact hnone
  · exact h.regular_update hflag

theorem setMagic {q : Wq} {b : Bool} (h : Queues threads runQueue bitmap wait nextTid run between) :
    Queues threads runQueue bitmap (Function.update wait q { wait q with magic := b }) nextTid run
      between := by
  have hlist : ∀ q', (Function.update wait q { wait q with magic := b } q').list =
    (wait q').list := by
    intro q'
    by_cases hq : q' = q
    · rw [hq, Function.update_self]
    · rw [Function.update_of_ne hq]
  have hcount : ∀ q', (Function.update wait q { wait q with magic := b } q').count =
      (wait q').count := by
    intro q'
    by_cases hq : q' = q
    · rw [hq, Function.update_self]
    · rw [Function.update_of_ne hq]
  constructor
  · exact h.running
  · exact h.ready
  · exact h.once
  · exact h.bitmap
  · simpa only [hlist] using h.blocked
  · simpa only [hlist] using h.waitOnce
  · simpa only [hlist, hcount] using h.count
  · exact h.idle
  · simpa only [hlist] using h.unborn
  · exact h.regular

theorem of_threads {threads' : Tid → Thread}
    (h : Queues threads runQueue bitmap wait nextTid run between)
    (hstate : ∀ t, (threads' t).state = (threads t).state)
    (hpriority : ∀ t, (threads' t).priority = (threads t).priority)
    (hqueue : ∀ t, (threads' t).blockingWaitQueue = (threads t).blockingWaitQueue)
    (hflag : ∀ t, (threads' t).idle = (threads t).idle) :
    Queues threads' runQueue bitmap wait nextTid run between := by
  constructor
  · simpa only [hstate] using h.running
  · simpa only [hstate, hpriority] using h.ready
  · exact h.once
  · exact h.bitmap
  · simpa only [hstate, hqueue] using h.blocked
  · exact h.waitOnce
  · exact h.count
  · simpa only [hstate] using h.idle
  · simpa only [hstate] using h.unborn
  · simpa only [hflag] using h.regular

theorem setThread (h : Queues threads runQueue bitmap wait nextTid run between)
    (hstate : thread.state = (threads t).state) (hpriority : thread.priority = (threads t).priority)
    (hqueue : thread.blockingWaitQueue = (threads t).blockingWaitQueue)
    (hflag : thread.idle = (threads t).idle) :
    Queues (Function.update threads t thread) runQueue bitmap wait nextTid run between := by
  apply h.of_threads <;> intro u <;> by_cases hu : u = t <;>
    simp [hu, hstate, hpriority, hqueue, hflag]

theorem settle (h : Queues threads runQueue bitmap wait nextTid none between)
    (hready : (threads t).state ≠ .ready) (hblocked : (threads t).state ≠ .blocked)
    (hrunning : (threads t).state ≠ .running) :
    Queues threads runQueue bitmap wait nextTid none (between \ {t}) := by
  constructor
  · intro u hu
    by_cases hut : u = t
    · simp [hut, hrunning]
    · exact h.running u (mem_diff_of_mem_ne hu hut)
  · intro p u
    rw [h.ready]
    by_cases hut : u = t
    · simp [hut, hready]
    · simp [hut]
  · exact h.once
  · exact h.bitmap
  · intro q u
    rw [h.blocked]
    by_cases hut : u = t
    · simp [hut, hblocked]
    · simp [hut]
  · exact h.waitOnce
  · exact h.count
  · exact h.idle
  · exact h.unborn
  · exact h.regular

theorem dispatch {rq : Priority → List Tid} {b : BitVec 32}
    (h : Queues threads runQueue bitmap wait nextTid none ∅)
    (hrq : ∀ p u, u ∈ rq p ↔ u ∈ runQueue p ∧ u ≠ t) (honce : ∀ p, (rq p).Nodup)
    (hb : ∀ p : Priority, b.getLsbD p = !(rq p).isEmpty) (hblocked : (threads t).state ≠ .blocked)
    (hdeath : (threads t).state ≠ .death) (hstate : thread.state = .running)
    (hflag : thread.idle = (threads t).idle) :
    Queues (Function.update threads t thread) rq b wait nextTid (some t) ∅ := by
  have hborn := h.lt_nextTid hdeath
  constructor
  · intro u _
    by_cases hut : u = t
    · simp [hut, hstate]
    · have := h.running u (Set.notMem_empty u)
      rw [Function.update_of_ne hut, this]
      simp [Ne.symm hut]
  · intro p u
    rw [hrq, h.ready]
    by_cases hut : u = t
    · simp [hut, hstate]
    · simp [hut]
  · exact honce
  · exact hb
  · intro q u
    rw [h.blocked]
    by_cases hut : u = t
    · simp [hut, hblocked, hstate]
    · simp [hut]
  · exact h.waitOnce
  · exact h.count
  · exact h.idle_update fun _ => .inr hstate
  · intro u hu
    rw [Function.update_of_ne (hborn.trans_le hu).ne']
    exact h.unborn u hu
  · exact h.regular_update hflag

theorem create {w : WaitQueue} (h : Queues threads runQueue bitmap wait nextTid run ∅)
    (hrun : run ≠ some nextTid) (hidle : idleThread < nextTid) (hstate : thread.state = .suspended)
    (hlist : w.list = []) (hcount : w.count = 0) (hflag : thread.idle = (threads nextTid).idle) :
    Queues (Function.update threads nextTid thread) runQueue bitmap
      (Function.update wait (.retcode nextTid) w) (nextTid + 1) run ∅ := by
  obtain ⟨hdead, hnone⟩ := h.unborn nextTid le_rfl
  have hwait : ∀ q, (Function.update wait (.retcode nextTid) w q).list = (wait q).list := by
    intro q
    by_cases hq : q = .retcode nextTid
    · rw [hq, Function.update_self, hlist, hnone]
    · rw [Function.update_of_ne hq]
  constructor
  · intro u hu
    by_cases hut : u = nextTid
    · rw [hut, Function.update_self]
      simp [hstate, hrun]
    · rw [Function.update_of_ne hut]
      exact h.running u hu
  · intro p u
    rw [h.ready]
    by_cases hut : u = nextTid
    · simp [hut, hdead, hstate]
    · simp [hut]
  · exact h.once
  · exact h.bitmap
  · intro q u
    rw [hwait, h.blocked]
    by_cases hut : u = nextTid
    · simp [hut, hdead, hstate]
    · simp [hut]
  · intro q
    rw [hwait]
    exact h.waitOnce q
  · intro q
    rw [hwait]
    by_cases hq : q = .retcode nextTid
    · rw [hq, Function.update_self, hcount, hnone]
      rfl
    · rw [Function.update_of_ne hq]
      exact h.count q
  · exact h.idle_update fun hi => absurd hi hidle.ne'
  · intro u hu
    have hlt : nextTid < u := hu
    rw [Function.update_of_ne hlt.ne', hwait]
    exact h.unborn u hlt.le
  · exact h.regular_update hflag

end Queues

section Scheduler

variable {lk : Kernel}

/-- The idle thread, where nothing else is to run, or the head of a queue. -/
theorem Kernel.scan_spec (lk : Kernel) (ps : List Priority) :
    (getTopThread.scan lk ps = (idleThread, lk) ∧
        ∀ p ∈ ps, lk.runQueueBitmap.getLsbD p = true → lk.runQueue p = []) ∨
      ∃ p ts, lk.runQueue p = (getTopThread.scan lk ps).1 :: ts ∧
        lk.runQueueBitmap.getLsbD p = true ∧
        (getTopThread.scan lk ps).2 = { lk with
          runQueue := Function.update lk.runQueue p ts
          runQueueBitmap :=
            if ts.isEmpty then lk.runQueueBitmap &&& ~~~(1#32 <<< p.val) else
              lk.runQueueBitmap } := by
  induction ps with
  | nil => exact .inl ⟨rfl, by simp⟩
  | cons p ps ih =>
    unfold getTopThread.scan
    by_cases hbit : lk.runQueueBitmap.getLsbD p = true
    · rw [if_pos hbit]
      cases hq : lk.runQueue p with
      | nil =>
        refine ih.imp (fun h => ⟨h.1, ?_⟩) id
        exact List.forall_mem_cons.mpr ⟨fun _ => hq, h.2⟩
      | cons t ts => exact .inr ⟨p, ts, hq, hbit, rfl⟩
    · rw [if_neg hbit]
      refine ih.imp (fun h => ⟨h.1, ?_⟩) id
      exact List.forall_mem_cons.mpr ⟨fun h => absurd h hbit, h.2⟩

theorem Kernel.Placed.getTopThread (h : lk.Placed none ∅) :
    (lk.getTopThread.2.setState lk.getTopThread.1 .running).Placed (some lk.getTopThread.1) ∅ := by
  unfold Kernel.getTopThread Kernel.setState Kernel.setThread Kernel.Placed
  rcases lk.scan_spec (List.finRange 32).reverse with ⟨heq, hempty⟩ | ⟨p, ts, hq, hbit, hlk⟩
  · rw [heq]
    dsimp only
    have hnone : ∀ p, lk.runQueue p = [] := by
      intro p
      by_contra hne
      have hbit : lk.runQueueBitmap.getLsbD p = true := by simp [h.bitmap p, hne]
      exact hne (hempty p (by simp) hbit)
    have hnot : (lk.threads idleThread).state ≠ .ready := fun hready => by
      have hmem := (h.ready _ idleThread).mpr ⟨Set.notMem_empty _, hready, rfl⟩
      simp [hnone] at hmem
    refine Queues.dispatch h (fun p u => by simp [hnone]) h.once h.bitmap ?_ ?_ rfl rfl <;>
      · rcases h.idle with hi | hi | hi <;> simp [hi]
  · generalize Kernel.getTopThread.scan lk (List.finRange 32).reverse = x at hq hlk
    obtain ⟨t, lk'⟩ := x
    dsimp only at hq hlk
    subst hlk
    dsimp only
    have hmem : t ∈ lk.runQueue p := by simp [hq]
    obtain ⟨-, hready, hprio⟩ := (h.ready p t).mp hmem
    have honce := h.once p
    rw [hq] at honce
    obtain ⟨hnot, hts⟩ := List.nodup_cons.mp honce
    refine Queues.dispatch h (fun p' u => ?_) (fun p' => ?_) (fun p' => ?_) (by simp [hready])
      (by simp [hready]) rfl rfl
    · by_cases hp : p' = p
      · rw [hp, Function.update_self, hq]
        by_cases hu : u = t
        · simp [hu, hnot]
        · simp [hu]
      · rw [Function.update_of_ne hp]
        refine ⟨fun hu => ⟨hu, ?_⟩, And.left⟩
        rintro rfl
        exact hp (((h.ready p' u).mp hu).2.2.symm.trans hprio)
    · by_cases hp : p' = p
      · rw [hp, Function.update_self]
        exact hts
      · rw [Function.update_of_ne hp]
        exact h.once p'
    · have hb := h.bitmap p'
      by_cases hp : p' = p
      · subst hp
        rw [Function.update_self]
        cases ts with
        | nil =>
          rw [List.isEmpty_nil, if_pos rfl, Queues.getLsbD_clearBit]
          simp
        | cons u us => simpa using hbit
      · rw [Function.update_of_ne hp, ← hb]
        cases ts with
        | nil =>
          rw [List.isEmpty_nil, if_pos rfl, Queues.getLsbD_clearBit]
          simp [hp]
        | cons u us => rfl

/-- An operation of thread `c`: it is gone on with only when it is switched to, and the
representation holds at every switch. -/
def KeepsWf {α : Type} (c : Tid) (x : Susp Kernel α) (Q : α → Kernel → Prop) : Prop :=
  x.Wp (fun lk => lk.currentThread = c) Kernel.Wf (fun _ => Q) true

theorem threadResched_wf {lk : Kernel} {Q : Unit → Kernel → Prop}
    (h : lk.Placed none ∅)
    (hQ : ∀ lk', lk'.currentThread = lk.currentThread → lk'.Wf → Q () lk') :
    KeepsWf lk.currentThread (threadResched.run lk) Q := by
  have htop := h.getTopThread
  have hcurrent : lk.getTopThread.2.currentThread = lk.currentThread := by
    unfold Kernel.getTopThread
    rcases lk.scan_spec (List.finRange 32).reverse with ⟨heq, -⟩ | ⟨p, ts, -, -, hlk⟩
    · rw [heq]
    · rw [hlk]
  simp only [threadResched]
  generalize lk.getTopThread = x at htop hcurrent ⊢
  obtain ⟨t, lk₁⟩ := x
  dsimp only at htop hcurrent ⊢
  by_cases hsame : t = (lk₁.setState t .running).currentThread
  · rw [if_pos hsame]
    refine hQ _ hcurrent ?_
    unfold Kernel.Wf
    rw [← hsame]
    exact htop
  · rw [if_neg hsame]
    refine ⟨?_, fun lk' ht hJ => hQ lk' ht hJ⟩
    unfold Kernel.setUpQuantum
    split
    · exact Queues.setThread htop rfl rfl rfl rfl
    · exact htop

end Scheduler

section Moves

variable {lk : Kernel} {run : Option Tid} {between : Set Tid} {t : Tid}

theorem Kernel.Placed.insertHead (h : lk.Placed run (insert t between)) (ht : t ∉ between)
    (hrun : run ≠ some t) (hready : (lk.threads t).state = .ready) :
    (lk.insertInRunQueueHead t).Placed run between := by
  have hinsert := Queues.insert h (Set.mem_insert t between) hrun hready (List.Perm.refl _)
  rw [Set.insert_sdiff_self_of_notMem ht] at hinsert
  exact hinsert

theorem Kernel.Placed.insertTail (h : lk.Placed run (insert t between)) (ht : t ∉ between)
    (hrun : run ≠ some t) (hready : (lk.threads t).state = .ready) :
    (lk.insertInRunQueueTail t).Placed run between := by
  have hinsert := Queues.insert h (Set.mem_insert t between) hrun hready
    (List.perm_append_singleton t _)
  rw [Set.insert_sdiff_self_of_notMem ht] at hinsert
  exact hinsert

theorem Kernel.Placed.readyHead (h : lk.Placed (some t) between) (ht : t ∉ between) :
    ((lk.setState t .ready).insertInRunQueueHead t).Placed none between := by
  have hlift : (lk.setState t .ready).Placed none (insert t between) :=
    Queues.lift h _ ht (fun _ => rfl) rfl
  have hready : ((lk.setState t .ready).threads t).state = .ready := by
    simp [Kernel.setState, Kernel.setThread]
  exact hlift.insertHead ht (by simp) hready

theorem Kernel.Placed.wake {q : Wq} {rest : List Tid} (h : lk.Placed run between) (err : Status)
    (hmem : t ∈ (lk.wait q).list) (hrest : (lk.wait q).list.Perm (t :: rest)) :
    (lk.dequeue q rest t err).Placed run (insert t between) :=
  Queues.dequeue h hmem hrest rfl rfl rfl rfl

@[simp] theorem Kernel.dequeue_ready {q : Wq} {rest : List Tid} {err : Status} :
    ((lk.dequeue q rest t err).threads t).state = .ready := by
  simp [Kernel.dequeue, Kernel.setThread, Kernel.note]

theorem Kernel.Placed.wakeHead {q : Wq} {rest : List Tid} (h : lk.Placed run between)
    (err : Status) (hmem : t ∈ (lk.wait q).list) (hrest : (lk.wait q).list.Perm (t :: rest))
    (hrun : run ≠ some t) :
    ((lk.dequeue q rest t err).insertInRunQueueHead t).Placed run between :=
  (h.wake err hmem hrest).insertHead ((h.blocked q t).mp hmem).1 hrun Kernel.dequeue_ready

theorem Kernel.Placed.run_ne_of_blocked {c : Tid} {q : Wq} (h : lk.Placed (some c) between)
    (hmem : t ∈ (lk.wait q).list) : c ≠ t := by
  rintro rfl
  obtain ⟨hb, hblocked, -⟩ := (h.blocked q c).mp hmem
  rw [(h.running c hb).mpr rfl] at hblocked
  cases hblocked

theorem Kernel.Placed.popAll {q : Wq} {list : List Tid} (h : lk.Placed run between) (err : Status)
    (hlist : (lk.wait q).list = list) (hrun : ∀ t ∈ list, run ≠ some t) :
    (Kernel.popAll q err list lk).Placed run between := by
  induction list generalizing lk with
  | nil => exact h
  | cons t rest ih =>
    have hmem : t ∈ (lk.wait q).list := by simp [hlist]
    refine ih ?_ ?_ fun u hu => hrun u (List.mem_cons_of_mem t hu)
    · exact h.wakeHead err hmem (.of_eq hlist) (hrun t List.mem_cons_self)
    · simp [Kernel.insertInRunQueueHead, Kernel.dequeue, Kernel.note, Kernel.setThread,
        Kernel.setWait]

@[simp] theorem Kernel.popAll_currentThread (q : Wq) (err : Status) (list : List Tid)
    (lk : Kernel) :
    (Kernel.popAll q err list lk).currentThread = lk.currentThread := by
  induction list generalizing lk with
  | nil => rfl
  | cons t rest ih => exact ih _

end Moves

section WaitQueues

variable {lk : Kernel} {α : Type} {Q : α → Kernel → Prop}

theorem keepsWf_bind {β : Type} {c : Tid} {x : Susp Kernel β} {f : β → Kernel → Susp Kernel α} :
    KeepsWf c (x.bind f) Q ↔ KeepsWf c x fun b lk => KeepsWf c (f b lk) Q := by
  unfold KeepsWf
  rw [Susp.wp_bind]
  constructor
  · exact fun h => h.mono fun b' a s h' => h'.any true
  · exact fun h => h.mono fun b' a s h' => h'.any b'

theorem KeepsWf.mono {c : Tid} {x : Susp Kernel α} {R : α → Kernel → Prop} (h : KeepsWf c x Q)
    (hQ : ∀ a lk, Q a lk → R a lk) : KeepsWf c x R :=
  Susp.Wp.mono h fun _ => hQ

theorem Kernel.Wf.enqueue {q : Wq} (h : lk.Wf) (hidle : lk.currentThread ≠ idleThread)
    (hq : ∀ u, q = .retcode u → u < lk.nextTid) :
    (lk.enqueue q lk.currentThread).Placed none ∅ := by
  have hrun := (h.running lk.currentThread (Set.notMem_empty _)).mpr rfl
  have hborn : lk.currentThread < lk.nextTid := Queues.lt_nextTid h (by rw [hrun]; decide)
  have hlift := Queues.lift h { lk.threads lk.currentThread with state := .ready }
    (Set.notMem_empty _) (fun _ => rfl) rfl
  have henqueue := Queues.enqueue hlift { lk.threads lk.currentThread with
      state := .blocked, blockingWaitQueue := some q, waitQueueBlockRet := NO_ERROR }
    { lk.wait q with
      list := (lk.wait q).list ++ [lk.currentThread], count := (lk.wait q).count + 1 }
    (Set.mem_insert _ _) hborn hidle hq
    rfl rfl rfl rfl (by rw [Function.update_self])
  rw [Function.update_idem, Set.insert_sdiff_self_of_notMem (Set.notMem_empty _)] at henqueue
  exact henqueue

theorem Kernel.Wf.wakeOne {q : Wq} {t : Tid} {rest : List Tid} (h : lk.Wf)
    (hlist : (lk.wait q).list = t :: rest) (err : Status) :
    ((((lk.dequeue q rest t err).setState lk.currentThread .ready).insertInRunQueueHead
      lk.currentThread).insertInRunQueueHead t).Placed none ∅ := by
  have hmem : t ∈ (lk.wait q).list := by simp [hlist]
  have hne : lk.currentThread ≠ t := h.run_ne_of_blocked hmem
  have hwake := h.wake err hmem (.of_eq hlist)
  have hback := hwake.readyHead (by simpa using hne)
  refine hback.insertHead (Set.notMem_empty t) (by simp) ?_
  simp [Kernel.insertInRunQueueHead, Kernel.setState, Kernel.setThread, hne.symm, Kernel.dequeue,
    Kernel.note]

theorem Kernel.Wf.wakeAll (h : lk.Wf) (q : Wq) (err : Status) :
    (Kernel.popAll q err (lk.wait q).list ((lk.setState lk.currentThread
      .ready).insertInRunQueueHead lk.currentThread)).Placed none ∅ := by
  have hback : ((lk.setState lk.currentThread .ready).insertInRunQueueHead
      lk.currentThread).Placed none ∅ := h.readyHead (Set.notMem_empty _)
  exact hback.popAll err rfl (by simp)

theorem waitQueueBlock_wf {Q : Status → Kernel → Prop} {q : Wq} {timeout : LkTime} (h : lk.Wf)
    (hidle : lk.currentThread ≠ idleThread) (hq : ∀ u, q = .retcode u → u < lk.nextTid)
    (hQ : ∀ r lk', lk'.currentThread = lk.currentThread → lk'.Wf → Q r lk') :
    KeepsWf lk.currentThread ((waitQueueBlock q timeout).run lk) Q := by
  have hplaced := h.enqueue hidle hq
  unfold waitQueueBlock
  simp only [Section.run_bind, getCurrentThread_run, Susp.done_bind, Section.run_ite]
  by_cases h0 : timeout = 0
  · rw [if_pos h0]
    exact hQ _ _ rfl h
  rw [if_neg h0]
  have hrest : ∀ lk₁ : Kernel, lk₁.currentThread = lk.currentThread → lk₁.Placed none ∅ →
      KeepsWf lk.currentThread ((do
        threadResched
        if timeout ≠ INFINITE_TIME then .modify fun lk₂ => lk₂.arm lk.currentThread false
        Section.read fun lk₂ => (lk₂.threads lk.currentThread).waitQueueBlockRet).run lk₁) Q := by
    intro lk₁ hcurrent hlk₁
    rw [← hcurrent, Section.run_bind, keepsWf_bind]
    refine threadResched_wf hlk₁ fun lk' hc hwf => ?_
    rw [hcurrent] at hc
    by_cases hinf : timeout ≠ INFINITE_TIME
    · rw [if_pos hinf]
      exact hQ _ _ hc hwf
    · rw [if_neg hinf]
      exact hQ _ _ hc hwf
  by_cases hinf : timeout ≠ INFINITE_TIME
  · simp only [if_pos hinf] at hrest ⊢
    exact hrest _ rfl hplaced
  · simp only [if_neg hinf] at hrest ⊢
    exact hrest _ rfl hplaced

theorem waitQueueWakeOne_wf {Q : Int → Kernel → Prop} {q : Wq} {reschedule : Bool} {err : Status}
    (h : lk.Wf) (hQ : ∀ r lk', lk'.currentThread = lk.currentThread → lk'.Wf → Q r lk') :
    KeepsWf lk.currentThread ((waitQueueWakeOne q reschedule err).run lk) Q := by
  unfold waitQueueWakeOne
  simp only [Section.run_bind, getCurrentThread_run, Section.run_read, Susp.done_bind]
  cases hlist : (lk.wait q).list with
  | nil => exact hQ _ _ rfl h
  | cons t rest =>
    have hmem : t ∈ (lk.wait q).list := by simp [hlist]
    have hne : lk.currentThread ≠ t := h.run_ne_of_blocked hmem
    cases reschedule with
    | false => exact hQ _ _ rfl (h.wakeHead err hmem (.of_eq hlist) (by simpa using hne))
    | true =>
      simp only [if_true, Section.run_bind, Section.run_modify, Susp.done_bind]
      refine keepsWf_bind.mpr (threadResched_wf (h.wakeOne hlist err) fun lk' hc hwf => ?_)
      exact hQ _ _ hc hwf

theorem waitQueueWakeAll_run (q : Wq) (err : Status) :
    (waitQueueWakeAll q false err).run lk =
      .done ((lk.wait q).list.length : Int) (Kernel.popAll q err (lk.wait q).list lk) := by
  unfold waitQueueWakeAll
  simp only [Section.run_bind, getCurrentThread_run, Section.run_read, Susp.done_bind,
    Bool.false_eq_true, false_and, if_false, Section.run_modify, ite_self, Section.run_pure]

theorem waitQueueWakeAll_wf {Q : Int → Kernel → Prop} {q : Wq} {reschedule : Bool} {err : Status}
    (h : lk.Wf) (hQ : ∀ r lk', lk'.currentThread = lk.currentThread → lk'.Wf → Q r lk') :
    KeepsWf lk.currentThread ((waitQueueWakeAll q reschedule err).run lk) Q := by
  have hblocked : ∀ t ∈ (lk.wait q).list, some lk.currentThread ≠ some t := by
    intro t ht
    simpa using h.run_ne_of_blocked ht
  cases reschedule with
  | false =>
    rw [waitQueueWakeAll_run]
    exact hQ _ _ (Kernel.popAll_currentThread _ _ _ _) (by
      unfold Kernel.Wf
      rw [Kernel.popAll_currentThread]
      exact h.popAll _ rfl hblocked)
  | true =>
    unfold waitQueueWakeAll
    simp only [Section.run_bind, getCurrentThread_run, Section.run_read, Susp.done_bind, true_and,
      if_true]
    by_cases hcount : (lk.wait q).count > 0
    · have hpop := h.wakeAll q err
      have hlen : (lk.wait q).list.length > 0 := by
        have := h.count q
        omega
      simp only [if_pos hcount, Section.run_bind, Section.run_modify, Section.run_read,
        Susp.done_bind]
      have hlen' : (((lk.setState lk.currentThread .ready).insertInRunQueueHead
        lk.currentThread).wait q).list.length > 0 := hlen
      rw [if_pos hlen', Section.run_bind, keepsWf_bind]
      have hc : (Kernel.popAll q err (lk.wait q).list ((lk.setState lk.currentThread
        .ready).insertInRunQueueHead lk.currentThread)).currentThread = lk.currentThread :=
        Kernel.popAll_currentThread _ _ _ _
      have hresched := threadResched_wf (Q := fun _ lk' => Q (lk.wait q).list.length lk') hpop
        fun lk' hc' hwf => hQ _ _ (hc'.trans hc) hwf
      rw [hc] at hresched
      exact hresched
    · have hnil : (lk.wait q).list = [] := by
        have := h.count q
        rw [← List.length_eq_zero_iff]
        omega
      simp only [if_neg hcount, Section.run_bind, Section.run_modify, Section.run_read,
        Susp.done_bind, hnil]
      exact hQ _ _ rfl h

theorem waitQueueDestroy_wf {Q : Unit → Kernel → Prop} {q : Wq} {reschedule : Bool}
    (h : lk.Wf) (hQ : ∀ r lk', lk'.currentThread = lk.currentThread → lk'.Wf → Q r lk') :
    KeepsWf lk.currentThread ((waitQueueDestroy q reschedule).run lk) Q := by
  unfold waitQueueDestroy
  rw [Section.run_bind, keepsWf_bind]
  refine waitQueueWakeAll_wf h fun r lk' hc hwf => hQ _ _ hc ?_
  exact Queues.setMagic hwf

theorem threadUnblock_wf {Q : Status → Kernel → Prop} {t : Tid} {err : Status}
    (h : lk.Wf) (hQ : ∀ r lk', lk'.currentThread = lk.currentThread → lk'.Wf → Q r lk') :
    KeepsWf lk.currentThread ((threadUnblockFromWaitQueue t err).run lk) Q := by
  unfold threadUnblockFromWaitQueue
  simp only [Section.run_bind, Section.run_modify, Section.run_read, Susp.done_bind,
    Section.run_ite]
  rw [Kernel.useThread_eq]
  generalize (lk.useThread t).faults = faults
  by_cases hstate : (lk.threads t).state ≠ .blocked
  · rw [if_pos hstate]
    exact hQ _ _ rfl h
  rw [if_neg hstate]
  have hblocked : (lk.threads t).state = .blocked := not_not.mp hstate
  cases hqueue : (lk.threads t).blockingWaitQueue with
  | none => exact hQ _ _ rfl h
  | some q =>
    have hmem := (h.blocked q t).mpr ⟨Set.notMem_empty t, hblocked, hqueue⟩
    have hne := h.run_ne_of_blocked hmem
    exact hQ _ _ rfl (h.wakeHead err hmem (List.perm_cons_erase hmem) (by simpa using hne))

end WaitQueues

section Operations

variable {lk : Kernel}

/-- Run by thread `c`, the computation keeps the representation, at every switch and to its
end. -/
def Keeps (c : Tid) {α : Type} (x : Section Kernel α) : Prop :=
  ∀ lk : Kernel, lk.currentThread = c → lk.Wf →
    KeepsWf c (x.run lk) fun _ lk' => lk'.currentThread = c ∧ lk'.Wf

section Rules

variable {c : Tid} {α β : Type}

theorem Keeps.bind {x : Section Kernel α} {f : α → Section Kernel β} (hx : Keeps c x)
    (hf : ∀ a, Keeps c (f a)) : Keeps c (x >>= f) := by
  intro lk hc h
  rw [Section.run_bind, keepsWf_bind]
  exact KeepsWf.mono (hx lk hc h) fun a lk' h' => hf a lk' h'.1 h'.2

theorem Keeps.pure (a : α) : Keeps c (Pure.pure a) := fun _ hc h => ⟨hc, h⟩

theorem Keeps.read (f : Kernel → α) : Keeps c (.read f) := fun _ hc h => ⟨hc, h⟩

theorem Keeps.modify {f : Kernel → Kernel} (hc : ∀ lk, (f lk).currentThread = lk.currentThread)
    (hwf : ∀ lk, lk.Wf → (f lk).Wf) : Keeps c (.modify f) :=
  fun lk hcur h => ⟨(hc lk).trans hcur, hwf lk h⟩

theorem Keeps.ite {p : Prop} [Decidable p] {x y : Section Kernel α} (hx : Keeps c x)
    (hy : Keeps c y) : Keeps c (if p then x else y) := by
  split
  · exact hx
  · exact hy

theorem lockThreads_keeps : Keeps c lockThreads := fun _ hc h => ⟨hc, h⟩

theorem unlockThreads_keeps (state : Bool) : Keeps c (unlockThreads state) :=
  fun _ hc h => ⟨hc, h⟩

theorem waitQueueBlock_keeps {q : Wq} (hidle : c ≠ idleThread) (hq : ∀ u, q ≠ .retcode u)
    (timeout : LkTime) : Keeps c (waitQueueBlock q timeout) := by
  rintro lk rfl h
  exact waitQueueBlock_wf h hidle (fun u hu => absurd hu (hq u)) fun r lk' hc hwf => ⟨hc, hwf⟩

theorem waitQueueWakeOne_keeps (q : Wq) (reschedule : Bool) (err : Status) :
    Keeps c (waitQueueWakeOne q reschedule err) := by
  rintro lk rfl h
  exact waitQueueWakeOne_wf h fun r lk' hc hwf => ⟨hc, hwf⟩

theorem waitQueueWakeAll_keeps (q : Wq) (reschedule : Bool) (err : Status) :
    Keeps c (waitQueueWakeAll q reschedule err) := by
  rintro lk rfl h
  exact waitQueueWakeAll_wf h fun r lk' hc hwf => ⟨hc, hwf⟩

theorem waitQueueDestroy_keeps (q : Wq) (reschedule : Bool) :
    Keeps c (waitQueueDestroy q reschedule) := by
  rintro lk rfl h
  exact waitQueueDestroy_wf h fun r lk' hc hwf => ⟨hc, hwf⟩

theorem threadUnblock_keeps (t : Tid) (err : Status) :
    Keeps c (threadUnblockFromWaitQueue t err) := by
  rintro lk rfl h
  exact threadUnblock_wf h fun r lk' hc hwf => ⟨hc, hwf⟩

theorem locked_keeps {x : Section Kernel α} (hx : Keeps c x) : Keeps c (locked x) :=
  lockThreads_keeps.bind fun state => hx.bind fun a => (unlockThreads_keeps state).bind fun _ =>
    .pure a

theorem returning_keeps {x : Section Kernel α} (hx : Keeps c x) (f : α → Int) :
    Keeps c (returning f x) :=
  hx.bind fun _ => .pure _

end Rules

@[simp] theorem Kernel.setThread_self (lk : Kernel) (t : Tid) (f : Thread → Thread) :
    (lk.setThread t f).threads t = f (lk.threads t) := Function.update_self _ _ _

theorem Kernel.Wf.requeue (h : lk.Wf) {f : Thread → Thread}
    (hstate : (f (lk.threads lk.currentThread)).state = .ready)
    (hflag : (f (lk.threads lk.currentThread)).idle = (lk.threads lk.currentThread).idle) :
    ((lk.setThread lk.currentThread f).insertInRunQueueHead lk.currentThread).Placed none ∅ ∧
      ((lk.setThread lk.currentThread f).insertInRunQueueTail lk.currentThread).Placed none ∅ := by
  have hlift : (lk.setThread lk.currentThread f).Placed none (insert lk.currentThread ∅) :=
    Queues.lift h _ (Set.notMem_empty _) (fun _ => hstate) hflag
  have hready : ((lk.setThread lk.currentThread f).threads lk.currentThread).state = .ready := by
    rw [Kernel.setThread_self, hstate]
  constructor
  · exact hlift.insertHead (Set.notMem_empty _) (by simp) hready
  · exact hlift.insertTail (Set.notMem_empty _) (by simp) hready

theorem resched_keeps {c : Tid} {state : Bool} (hc : lk.currentThread = c) (h : lk.Placed none ∅) :
    KeepsWf c ((do threadResched; unlockThreads state).run lk)
      fun _ lk' => lk'.currentThread = c ∧ lk'.Wf := by
  subst hc
  rw [Section.run_bind, keepsWf_bind]
  exact threadResched_wf h fun lk' hc hwf => ⟨hc, hwf⟩

theorem threadYield_keeps (c : Tid) : Keeps c threadYield := by
  rintro lk rfl h
  have hl : lk.lock.Wf := h
  simp only [threadYield, Section.run_bind, getCurrentThread_run, lockThreads_run,
    Section.run_modify, Section.run_read, Susp.done_bind, Kernel.setThread_self, hl.regular,
    Bool.not_false, if_true]
  exact resched_keeps rfl (hl.requeue rfl rfl).2

theorem threadPreempt_keeps (c : Tid) : Keeps c threadPreempt := by
  rintro lk rfl h
  have hl : lk.lock.Wf := h
  simp only [threadPreempt, Section.run_bind, getCurrentThread_run, lockThreads_run,
    Section.run_modify, Section.run_read, Susp.done_bind, Kernel.setState, Kernel.setThread_self,
    hl.regular, Bool.not_false, if_true]
  split
  · exact resched_keeps rfl (hl.requeue rfl rfl).1
  · exact resched_keeps rfl (hl.requeue rfl rfl).2

theorem threadSetPriority_keeps (c : Tid) (priority : Int) :
    Keeps c (threadSetPriority priority) := by
  rintro lk rfl h
  have hl : lk.lock.Wf := h
  simp only [threadSetPriority, Section.run_bind, getCurrentThread_run, lockThreads_run,
    Section.run_modify, Susp.done_bind]
  exact resched_keeps rfl (hl.requeue rfl rfl).1

theorem threadCreate_keeps (c : Tid) (priority : Priority) (entry : Entry) :
    Keeps c (threadCreate priority entry) := by
  rintro lk rfl h
  simp only [threadCreate, threadCreateEtc, Section.run_bind, lockThreads_run, unlockThreads_run,
    Section.run_modify, Section.run_read, Section.run_pure, Susp.done_bind, Option.getD_none]
  have hrun := (h.running lk.currentThread (Set.notMem_empty _)).mpr rfl
  have hborn : lk.currentThread < lk.nextTid := Queues.lt_nextTid h (by rw [hrun]; decide)
  have hidle : idleThread < lk.nextTid := Queues.lt_nextTid h (by
    rcases h.idle with hi | hi | hi <;> simp [hi])
  refine ⟨rfl, Queues.create h ?_ hidle rfl rfl rfl ?_⟩
  · exact fun he => hborn.ne (Option.some_inj.mp he)
  · exact (h.regular _).symm

theorem threadResume_keeps (c : Tid) (t : Tid) : Keeps c (threadResume t) := by
  rintro lk rfl h
  simp only [threadResume, Section.run_bind, lockThreads_run, unlockThreads_run,
    Section.run_modify, Section.run_read, Section.run_pure, Susp.done_bind, Section.run_ite]
  rw [Kernel.useThread_eq]
  generalize (lk.lock.useThread t).faults = faults
  by_cases hstate : (lk.lock.threads t).state = .suspended
  · rw [if_pos hstate]
    have hl : lk.lock.Wf := h
    have hrun : (lk.lock.threads lk.currentThread).state = .running :=
      (hl.running _ (Set.notMem_empty _)).mpr rfl
    have hne : lk.currentThread ≠ t := by
      intro hc
      rw [← hc, hrun] at hstate
      cases hstate
    have hrouse : (lk.lock.setState t .ready).Placed (some lk.currentThread) (insert t ∅) :=
      Queues.rouse h hstate rfl rfl
    refine ⟨rfl, hrouse.insertHead (Set.notMem_empty t) (by simpa using hne) ?_⟩
    simp [Kernel.setState]
  · rw [if_neg hstate]
    exact ⟨rfl, h⟩

theorem useThread_keeps (c : Tid) (t : Tid) : Keeps c (.modify fun lk => lk.useThread t) := by
  refine Keeps.modify (fun lk => ?_) (fun lk h => ?_) <;> unfold Kernel.useThread
  · split <;> rfl
  · split <;> exact h

theorem setThread_keeps (c : Tid) (t : Tid) {f : Thread → Thread}
    (hstate : ∀ thread, (f thread).state = thread.state)
    (hpriority : ∀ thread, (f thread).priority = thread.priority)
    (hqueue : ∀ thread, (f thread).blockingWaitQueue = thread.blockingWaitQueue)
    (hflag : ∀ thread, (f thread).idle = thread.idle) :
    Keeps c (.modify fun lk => lk.setThread t f) :=
  .modify (fun _ => rfl) fun _ h =>
    Queues.setThread h (hstate _) (hpriority _) (hqueue _) (hflag _)

theorem unlink_keeps (c : Tid) (t : Tid) : Keeps c (.modify fun lk => lk.unlink t) :=
  .modify (fun _ => rfl) fun _ h => Queues.setThread h rfl rfl rfl rfl

theorem note_keeps (c : Tid) (f : Kernel → Happening) :
    Keeps c (.modify fun lk => lk.note (f lk)) :=
  .modify (fun _ => rfl) fun _ h => h

theorem threadJoin_keeps {c : Tid} (hidle : c ≠ idleThread) (t : Tid) (timeout : LkTime) :
    Keeps c (threadJoin t timeout) := by
  refine Keeps.bind (.read _) fun current => lockThreads_keeps.bind fun state =>
    (useThread_keeps c t).bind fun _ => ?_
  intro lk hc h
  rw [Section.run_bind, Section.run_read, Susp.done_bind]
  by_cases hdetached : (lk.threads t).detached = true
  · rw [if_pos hdetached]
    exact (Keeps.bind (unlockThreads_keeps state) fun _ => Keeps.pure _) lk hc h
  rw [if_neg hdetached]
  have hend : ∀ err : Status, Keeps c (if err < 0 then do
        unlockThreads state
        pure err
      else do
        .modify fun lk => lk.useThread t
        .modify fun lk => lk.note (.joined current t (lk.threads t).retcode)
        .modify fun lk => lk.unlink t
        unlockThreads state
        pure NO_ERROR) := by
    intro err
    refine .ite ?_ ?_
    · exact (unlockThreads_keeps state).bind fun _ => .pure _
    · exact (useThread_keeps c t).bind fun _ => (note_keeps c _).bind fun _ =>
        (unlink_keeps c t).bind fun _ => (unlockThreads_keeps state).bind fun _ => .pure _
  rw [Section.run_bind, keepsWf_bind]
  refine KeepsWf.mono (Q := fun _ lk' => lk'.currentThread = c ∧ lk'.Wf) ?_ fun err lk' h' =>
    hend err lk' h'.1 h'.2
  by_cases hdeath : (lk.threads t).state ≠ .death
  · rw [if_pos hdeath]
    subst hc
    refine waitQueueBlock_wf h hidle ?_ fun r lk' hc hwf => ⟨hc, hwf⟩
    rintro u hu
    cases hu
    exact Queues.lt_nextTid h hdeath
  · rw [if_neg hdeath]
    exact ⟨hc, h⟩

theorem threadDetach_keeps (c : Tid) (t : Tid) : Keeps c (threadDetach t) :=
  lockThreads_keeps.bind fun state => (useThread_keeps c t).bind fun _ =>
    (waitQueueWakeAll_keeps _ _ _).bind fun _ => (Keeps.read _).bind fun _ =>
      .bind (setThread_keeps c t (fun _ => rfl) (fun _ => rfl) (fun _ => rfl) fun _ => rfl) fun _ =>
        (unlockThreads_keeps state).bind fun _ => .pure _

theorem Kernel.Wf.die (h : lk.Wf) (hidle : lk.currentThread ≠ idleThread) (retcode : Int) :
    (lk.setThread lk.currentThread fun thread =>
      { thread with state := .death, retcode := retcode }).Placed none ∅ := by
  have hlift := Queues.lift h { lk.threads lk.currentThread with
    state := .death, retcode := retcode } (Set.notMem_empty _) (fun hc => absurd hc hidle) rfl
  have hsettle := hlift.settle (t := lk.currentThread) (by simp) (by simp) (by simp)
  rw [Set.insert_sdiff_self_of_notMem (Set.notMem_empty _)] at hsettle
  exact hsettle

def Kernel.exiting (lk : Kernel) (retcode : Int) : Kernel :=
  let t := lk.currentThread
  let dead := (lk.lock.useThread t).setThread t fun thread =>
    { thread with state := .death, retcode := retcode }
  if (dead.threads t).detached then dead.unlink t
  else Kernel.popAll (.retcode t) 0 (dead.wait (.retcode t)).list dead

theorem threadExit_run (retcode : Int) :
    (threadExit retcode).run lk = threadResched.run (lk.exiting retcode) := by
  unfold Kernel.exiting
  simp only [threadExit, Section.run_bind, getCurrentThread_run, lockThreads_run,
    Section.run_modify, Section.run_read, Susp.done_bind]
  split
  · rfl
  · simp only [Section.run_bind, waitQueueWakeAll_run, Susp.done_bind]

theorem Kernel.exiting_currentThread (retcode : Int) :
    (lk.exiting retcode).currentThread = lk.currentThread := by
  have huse : (lk.lock.useThread lk.currentThread).currentThread = lk.currentThread := by
    unfold Kernel.useThread
    split <;> rfl
  unfold Kernel.exiting
  dsimp only
  split
  · exact huse
  · rw [Kernel.popAll_currentThread]
    exact huse

/-- The thread is on no queue, and dead, when the next is chosen. -/
theorem Kernel.Wf.exiting (h : lk.Wf) (hidle : lk.currentThread ≠ idleThread) (retcode : Int) :
    (lk.exiting retcode).Placed none ∅ := by
  have huse : (lk.lock.useThread lk.currentThread).Wf ∧
      (lk.lock.useThread lk.currentThread).currentThread = lk.currentThread := by
    unfold Kernel.useThread
    split <;> exact ⟨h, rfl⟩
  have hdead := huse.1.die (by rw [huse.2]; exact hidle) retcode
  rw [huse.2] at hdead
  unfold Kernel.exiting
  dsimp only
  split
  · exact Queues.setThread hdead rfl rfl rfl rfl
  · exact hdead.popAll 0 rfl (by simp)

theorem threadExit_keeps {c : Tid} (hidle : c ≠ idleThread) (retcode : Int) :
    Keeps c (threadExit retcode) := by
  rintro lk rfl h
  have hresched := threadResched_wf
    (Q := fun _ lk' => lk'.currentThread = lk.currentThread ∧ lk'.Wf) (h.exiting hidle retcode)
    fun lk' hc hwf => ⟨hc.trans (Kernel.exiting_currentThread retcode), hwf⟩
  rw [Kernel.exiting_currentThread] at hresched
  rw [threadExit_run]
  exact hresched

theorem addCount_keeps (c : Tid) (s : SemId) (n : Int) : Keeps c (addCount s n) :=
  .bind (.modify (fun _ => rfl) fun _ h => h) fun _ => .read _

theorem semPost_keeps (c : Tid) (s : SemId) (resched : Bool) : Keeps c (semPost s resched) :=
  lockThreads_keeps.bind fun state => (addCount_keeps c s 1).bind fun _ =>
    (Keeps.ite (waitQueueWakeOne_keeps _ _ _) (.pure _)).bind fun _ =>
      (unlockThreads_keeps state).bind fun _ => .pure _

theorem semWait_keeps {c : Tid} (hidle : c ≠ idleThread) (s : SemId) : Keeps c (semWait s) :=
  lockThreads_keeps.bind fun state => (addCount_keeps c s (-1)).bind fun _ =>
    (Keeps.ite (waitQueueBlock_keeps hidle (by simp) _) (.pure _)).bind fun _ =>
      (unlockThreads_keeps state).bind fun _ => .pure _

theorem semTrywait_keeps (c : Tid) (s : SemId) : Keeps c (semTrywait s) :=
  lockThreads_keeps.bind fun state => (Keeps.read _).bind fun _ =>
    .ite ((unlockThreads_keeps state).bind fun _ => .pure _)
      ((addCount_keeps c s (-1)).bind fun _ => (unlockThreads_keeps state).bind fun _ => .pure _)

theorem semTimedwait_keeps {c : Tid} (hidle : c ≠ idleThread) (s : SemId) (timeout : LkTime) :
    Keeps c (semTimedwait s timeout) :=
  lockThreads_keeps.bind fun state => (addCount_keeps c s (-1)).bind fun _ =>
    (Keeps.ite (waitQueueBlock_keeps hidle (by simp) _) (.pure _)).bind fun _ =>
      .ite ((addCount_keeps c s 1).bind fun _ => (unlockThreads_keeps state).bind fun _ => .pure _)
        ((unlockThreads_keeps state).bind fun _ => .pure _)

theorem semDestroy_keeps (c : Tid) (s : SemId) : Keeps c (semDestroy s) :=
  lockThreads_keeps.bind fun state => .bind (.modify (fun _ => rfl) fun _ h => h) fun _ =>
    (waitQueueDestroy_keeps _ _).bind fun _ => unlockThreads_keeps state

theorem setMutex_keeps (c : Tid) (m : Nat) (f : Mutex → Mutex) :
    Keeps c (.modify fun lk => lk.setMutex m f) :=
  .modify (fun _ => rfl) fun _ h => h

theorem mutexDestroy_keeps (c : Tid) (m : Nat) : Keeps c (mutexDestroy m) :=
  lockThreads_keeps.bind fun state => (setMutex_keeps c m _).bind fun _ =>
    (waitQueueDestroy_keeps _ _).bind fun _ => unlockThreads_keeps state

theorem mutexAcquire_keeps {c : Tid} (hidle : c ≠ idleThread) (m : Nat) (timeout : LkTime) :
    Keeps c (mutexAcquireTimeout m timeout) :=
  (Keeps.read _).bind fun t => lockThreads_keeps.bind fun state =>
    (setMutex_keeps c m _).bind fun _ => (Keeps.read _).bind fun _ =>
      (Keeps.ite (waitQueueBlock_keeps hidle (by simp) _) (.pure _)).bind fun _ =>
        .ite
          (.ite ((setMutex_keeps c m _).bind fun _ => (unlockThreads_keeps state).bind fun _ =>
            .pure _)
            ((unlockThreads_keeps state).bind fun _ => .pure _))
          ((setMutex_keeps c m _).bind fun _ => (unlockThreads_keeps state).bind fun _ => .pure _)

theorem mutexRelease_keeps (c : Tid) (m : Nat) : Keeps c (mutexRelease m) :=
  lockThreads_keeps.bind fun state => (setMutex_keeps c m _).bind fun _ =>
    (Keeps.read _).bind fun _ =>
      .ite ((waitQueueWakeOne_keeps _ _ _).bind fun _ => (unlockThreads_keeps state).bind fun _ =>
        .pure _)
        ((unlockThreads_keeps state).bind fun _ => .pure _)

theorem useEvent_keeps (c : Tid) (e : EventId) : Keeps c (.modify fun lk => lk.useEvent e) := by
  refine Keeps.modify (fun lk => ?_) (fun lk h => ?_) <;> unfold Kernel.useEvent <;> cases e
  · rfl
  · dsimp only
    split <;> rfl
  · exact h
  · dsimp only
    split <;> exact h

theorem setEvent_keeps (c : Tid) (e : EventId) (f : Event → Event) :
    Keeps c (.modify fun lk => lk.setEvent e f) :=
  .modify (fun _ => rfl) fun _ h => h

theorem eventDestroy_keeps (c : Tid) (e : EventId) : Keeps c (eventDestroy e) :=
  lockThreads_keeps.bind fun state => (useEvent_keeps c e).bind fun _ =>
    (setEvent_keeps c e _).bind fun _ => (waitQueueWakeAll_keeps _ _ _).bind fun _ =>
      (useEvent_keeps c e).bind fun _ =>
        .bind (.modify (fun _ => rfl) fun _ h => Queues.setMagic h) fun _ =>
          unlockThreads_keeps state

theorem eventWait_keeps {c : Tid} (hidle : c ≠ idleThread) (e : EventId) (timeout : LkTime) :
    Keeps c (eventWaitTimeout e timeout) :=
  lockThreads_keeps.bind fun state => (useEvent_keeps c e).bind fun _ =>
    (Keeps.read _).bind fun _ =>
    (Keeps.ite (.ite ((setEvent_keeps c e _).bind fun _ => .pure _) (.pure _))
      (waitQueueBlock_keeps hidle (by simp) _)).bind fun _ =>
        (unlockThreads_keeps state).bind fun _ => .pure _

theorem eventSignal_keeps (c : Tid) (e : EventId) (reschedule : Bool) :
    Keeps c (eventSignal e reschedule) := by
  have hend : ∀ state, Keeps c (do unlockThreads state; pure NO_ERROR) :=
    fun state => (unlockThreads_keeps state).bind fun _ => .pure _
  refine lockThreads_keeps.bind fun state => (useEvent_keeps c e).bind fun _ =>
    (Keeps.read _).bind fun _ => (note_keeps c _).bind fun _ => .ite (.ite ?_ ?_) (hend state)
  · exact (waitQueueWakeOne_keeps _ _ _).bind fun _ =>
      .ite ((useEvent_keeps c e).bind fun _ => (setEvent_keeps c e _).bind fun _ => hend state)
        (hend state)
  · exact (setEvent_keeps c e _).bind fun _ => (waitQueueWakeAll_keeps _ _ _).bind fun _ =>
      hend state

/-- What an interrupt does, and the idle thread itself. -/
def Op.forIdle : Op → Bool
  | .threadPreempt | .threadUnblock _ _ | .eventSignal _ _ => true
  | _ => false

theorem perform_keeps {c : Tid} {op : Op} (hidle : c = idleThread → op.forIdle = true) :
    Keeps c (perform op) := by
  have hne : op.forIdle = false → c ≠ idleThread := by
    rintro hop hc
    rw [hidle hc] at hop
    cases hop
  cases op with
  | threadCreate priority entry => exact returning_keeps (threadCreate_keeps c priority entry) _
  | threadResume t => exact returning_keeps (threadResume_keeps c t) _
  | threadYield => exact returning_keeps (threadYield_keeps c) _
  | threadPreempt => exact returning_keeps (threadPreempt_keeps c) _
  | threadSetPriority priority => exact returning_keeps (threadSetPriority_keeps c priority) _
  | threadExit retcode => exact returning_keeps (threadExit_keeps (hne rfl) retcode) _
  | threadJoin t timeout => exact threadJoin_keeps (hne rfl) t timeout
  | threadDetach t => exact returning_keeps (threadDetach_keeps c t) _
  | waitQueueBlock w timeout =>
      exact locked_keeps (waitQueueBlock_keeps (hne rfl) (by simp) timeout)
  | waitQueueWakeOne w r err => exact locked_keeps (waitQueueWakeOne_keeps _ r err)
  | waitQueueWakeAll w r err => exact locked_keeps (waitQueueWakeAll_keeps _ r err)
  | waitQueueDestroy w r => exact returning_keeps (locked_keeps (waitQueueDestroy_keeps _ r)) _
  | threadUnblock t err => exact locked_keeps (threadUnblock_keeps t err)
  | semPost s resched => exact semPost_keeps c s resched
  | semWait s => exact semWait_keeps (hne rfl) s
  | semTrywait s => exact semTrywait_keeps c s
  | semTimedwait s timeout => exact semTimedwait_keeps (hne rfl) s timeout
  | semDestroy s => exact returning_keeps (semDestroy_keeps c s) _
  | mutexAcquire m timeout => exact mutexAcquire_keeps (hne rfl) m timeout
  | mutexRelease m => exact mutexRelease_keeps c m
  | mutexDestroy m => exact returning_keeps (mutexDestroy_keeps c m) _
  | eventWait e timeout => exact eventWait_keeps (hne rfl) e timeout
  | eventSignal e reschedule => exact eventSignal_keeps c e reschedule
  | eventDestroy e => exact returning_keeps (eventDestroy_keeps c e) _

end Operations

end UefiLkl.Lk
