import UefiLkl.Lk.Interrupts
import UefiLkl.Lk.Priorities
set_option autoImplicit false

/-!
The time slices: what a thread has left of its quantum over a run, and where it comes by a new
one.
-/

namespace UefiLkl.Lk
open Coroutine

section Selected

variable {lk lk' : Kernel} {c t : Tid} {p : Priority} {rq : Priority → List Tid}

theorem threadResched_share (lk : Kernel) (t : Tid) :
    ((threadResched.run lk).state.threads t).share =
      if t = lk.getTopThread.1 ∧ t ≠ lk.currentThread ∧ (lk.threads t).share.1 ≤ 0 then
        (5, (lk.threads t).share.2)
      else (lk.threads t).share := by
  have hpick : ∀ u, ((lk.getTopThread.2.setState lk.getTopThread.1 .running).threads u).share =
      (lk.threads u).share := by
    intro u
    by_cases hu : u = lk.getTopThread.1
    · simp [Kernel.setState, ← hu, Kernel.getTopThread_threads, Thread.share]
    · simp [Kernel.setState, Kernel.setThread, hu, Kernel.getTopThread_threads]
  have hcurrent : (lk.getTopThread.2.setState lk.getTopThread.1 .running).currentThread =
      lk.currentThread := by
    rw [Kernel.getTopThread_eq]
    rfl
  simp only [threadResched, hcurrent]
  by_cases hc : lk.getTopThread.1 = lk.currentThread
  · rw [if_pos hc, if_neg fun ht => ht.2.1 (ht.1.trans hc)]
    exact hpick t
  · rw [if_neg hc]
    have hleft : ∀ u, ((lk.getTopThread.2.setState lk.getTopThread.1 .running).threads
        u).remainingQuantum = (lk.threads u).share.1 := fun u => congrArg Prod.fst (hpick u)
    have hregular : ∀ u, ((lk.getTopThread.2.setState lk.getTopThread.1 .running).threads
        u).realTime = (lk.threads u).share.2 := fun u => congrArg Prod.snd (hpick u)
    dsimp only [Susp.state]
    unfold Kernel.setUpQuantum
    rw [hleft]
    by_cases hq : (lk.threads lk.getTopThread.1).share.1 ≤ 0
    · rw [if_pos hq]
      by_cases ht : t = lk.getTopThread.1
      · subst ht
        simp [Thread.share, hregular, hc, show (lk.threads lk.getTopThread.1).remainingQuantum ≤ 0
          from hq]
      · simp [Kernel.setThread, ht, hpick]
    · rw [if_neg hq]
      by_cases ht : t = lk.getTopThread.1
      · subst ht
        simp [hq, hpick]
      · simp [ht, hpick]

theorem Kernel.Placed.top_tail (h : lk.Placed none ∅)
    (hqueue : lk.runQueue = Function.update rq p (rq p ++ [c])) (hc : ∀ p, c ∉ rq p) :
    lk.getTopThread.1 = c ↔ ∀ p', p ≤ p' → rq p' = [] := by
  have hself : lk.runQueue p = rq p ++ [c] := by rw [hqueue, Function.update_self]
  have hother : ∀ p', p' ≠ p → lk.runQueue p' = rq p' := fun p' hp => by
    rw [hqueue, Function.update_of_ne hp]
  rcases h.top_cases with ⟨-, hnone⟩ | ⟨p₁, ts, htop, -, habove⟩
  · rw [hnone] at hself
    exact absurd hself.symm (by simp)
  · constructor
    · intro hsame p' hp'
      rw [hsame] at htop
      have hp : p₁ = p := by
        by_contra hne
        rw [hother p₁ hne] at htop
        exact hc p₁ (by simp [htop])
      subst hp
      rcases hp'.eq_or_lt with rfl | hlt
      · rw [hself] at htop
        cases hq : rq p₁ with
        | nil => rfl
        | cons u us =>
          rw [hq, List.cons_append, List.cons.injEq] at htop
          exact absurd (by simp [hq, htop.1]) (hc p₁)
      · rw [← hother p' hlt.ne', habove p' hlt]
    · intro hempty
      have hp : p₁ = p := by
        refine le_antisymm (not_lt.mp fun hlt => ?_) (not_lt.mp fun hlt => ?_)
        · rw [hother p₁ hlt.ne', hempty p₁ hlt.le] at htop
          cases htop
        · rw [habove p hlt] at hself
          exact absurd hself.symm (by simp)
      rw [hp, hself, hempty p le_rfl] at htop
      exact (List.cons.inj htop).1.symm

theorem Kernel.Placed.top_head (h : lk.Placed none ∅)
    (hqueue : lk.runQueue = Function.update rq p (c :: rq p)) (hc : ∀ p, c ∉ rq p) :
    lk.getTopThread.1 = c ↔ ∀ p', p < p' → rq p' = [] := by
  have hself : lk.runQueue p = c :: rq p := by rw [hqueue, Function.update_self]
  have hother : ∀ p', p' ≠ p → lk.runQueue p' = rq p' := fun p' hp => by
    rw [hqueue, Function.update_of_ne hp]
  rcases h.top_cases with ⟨-, hnone⟩ | ⟨p₁, ts, htop, -, habove⟩
  · rw [hnone] at hself
    cases hself
  · constructor
    · intro hsame p' hp'
      rw [hsame] at htop
      have hp : p₁ = p := by
        by_contra hne
        rw [hother p₁ hne] at htop
        exact hc p₁ (by simp [htop])
      subst hp
      rw [← hother p' hp'.ne', habove p' hp']
    · intro hempty
      have hp : p₁ = p := by
        refine le_antisymm (not_lt.mp fun hlt => ?_) (not_lt.mp fun hlt => ?_)
        · rw [hother p₁ hlt.ne', hempty p₁ hlt] at htop
          cases htop
        · rw [habove p hlt] at hself
          cases hself
      rw [hp, hself] at htop
      exact (List.cons.inj htop).1.symm

end Selected

/-- What is left of the quantum of a thread when the step comes to `thread_resched`: one that
yields gives up the rest, and a tick has taken its part before it preempts. -/
def Machine.leftOver (m : Machine) (label : Label) (t : Tid) : Int :=
  if m.begins label = some .threadYield ∧ t = m.current then 0
  else
    ((if label = .tick then m.kernel.threadTimerTick.1 else m.kernel).threads t).remainingQuantum

section Steps

variable {m m' : Machine} {label : Label} {lk : Kernel} {op : Op} {t : Tid}

theorem Reschedules.share {α : Type} {R : Kernel → Prop} {x : Susp Kernel α}
    (h : Reschedules R x) : ∃ lk : Kernel, lk.Placed none ∅ ∧ R lk ∧
      x.state.currentThread = lk.getTopThread.1 ∧ ∀ t, (x.state.threads t).share =
        if t = lk.getTopThread.1 ∧ t ≠ lk.currentThread ∧ (lk.threads t).share.1 ≤ 0 then
          (5, (lk.threads t).share.2)
        else (lk.threads t).share := by
  obtain ⟨lk, f, hplaced, hlk, hf, rfl⟩ := h
  refine ⟨lk, hplaced, hlk, Susp.state_bind (threadResched_state lk).1 hf
    fun _ _ hs hc => hs.currentThread.trans hc, fun t => ?_⟩
  exact Susp.state_bind (P := fun s : Kernel => (s.threads t).share = _)
    (threadResched_share lk t) hf fun _ _ hs hc => (hs.share t).trans hc

theorem Machine.Enters.share (h : m.Enters label op m' lk) (t : Tid) :
    (m'.kernel.threads t).share =
      if t = m'.current ∧ t ≠ m.current ∧ (op.shareAfter (lk.begins m.current op) t).1 ≤ 0 then
        (5, (op.shareAfter (lk.begins m.current op) t).2)
      else op.shareAfter (lk.begins m.current op) t := by
  have hstill := h.still
  rcases h.comes with ⟨-, hresched⟩ | ⟨-, r, lk', hdone, -, hcurrent, hshare⟩
  · obtain ⟨lk', -, ⟨-, hcurrent, hshare⟩, hsame, hstate⟩ := hresched.share
    have htop : m'.current = lk'.getTopThread.1 := hstill.currentThread.trans hsame
    rw [hstill.share, hstate, hshare, htop, hcurrent]
  · rw [hdone] at hstill
    have hsame : m'.current = m.current := hstill.currentThread.trans hcurrent
    rw [hstill.share, if_neg fun ht => ht.2.1 (ht.1.trans hsame)]
    exact hshare t

theorem Machine.Enters.leftOver (h : m.Enters label op m' lk) (hbegins : m.begins label = some op)
    (ht : ∀ priority entry, op = .threadCreate priority entry → t < m.kernel.nextTid) :
    (op.shareAfter (lk.begins m.current op) t).1 = m.leftOver label t := by
  have hthreads : (lk.begins m.current op).threads = lk.threads := rfl
  have hground : (lk.threads t).share.1 = ((if label = .tick then m.kernel.threadTimerTick.1
      else m.kernel).threads t).remainingQuantum := by
    rw [h.threads]
    split <;> rfl
  rw [Machine.leftOver, hbegins, ← hground]
  cases op with
  | threadYield =>
    have hcurrent : (lk.begins m.current .threadYield).currentThread = m.current := h.current
    by_cases hc : t = m.current
    · simp [Op.shareAfter, hcurrent, hc]
    · simp [Op.shareAfter, hcurrent, hc, hthreads]
  | threadCreate priority entry =>
    have hnext : (lk.begins m.current (.threadCreate priority entry)).nextTid = m.kernel.nextTid :=
      h.quiet.nextTid
    simp [Op.shareAfter, hnext, (ht priority entry rfl).ne, hthreads]
  | _ => simp [Op.shareAfter, hthreads]

end Steps

/-- Somebody who is ready goes before the running thread, where the operation puts that back on
the run queue and nothing is left to it. -/
def Op.Overtaken (lk : Kernel) : Op → Prop
  | .threadYield | .threadPreempt =>
    ∃ p, (lk.threads lk.currentThread).priority ≤ p ∧ lk.runQueue p ≠ []
  | .threadSetPriority priority => ∃ p, clampPriority priority < p ∧ lk.runQueue p ≠ []
  | _ => True

instance (lk : Kernel) (op : Op) : Decidable (op.Overtaken lk) := by
  cases op <;> dsimp only [Op.Overtaken] <;> infer_instance

/-- The running thread goes on the run queue, whatever else is there. -/
def Op.PutsBack (op : Op) : Prop :=
  op = .threadYield ∨ op = .threadPreempt ∨ ∃ priority, op = .threadSetPriority priority

section Selection

variable {m m' : Machine} {label : Label} {lk : Kernel} {op : Op} {q : Wq}

theorem Kernel.Wf.current_notMem (h : lk.Wf) (p : Priority) : lk.currentThread ∉ lk.runQueue p := by
  intro hmem
  have hready := ((h.ready p _).mp hmem).2.1
  rw [(h.running _ (Set.notMem_empty _)).mpr rfl] at hready
  cases hready

theorem Machine.Enters.selected {R : Kernel → Prop} {P : Prop} (h : m.Enters label op m' lk)
    (hresched : Reschedules R ((perform op).run (lk.begins m.current op)))
    (hR : ∀ lk' : Kernel, lk'.Placed none ∅ → R lk' → (lk'.getTopThread.1 = m.current ↔ P)) :
    m'.current = m.current ↔ P := by
  obtain ⟨lk', hplaced, hlk', hsame, -⟩ := hresched.share
  rw [← hR lk' hplaced hlk', ← hsame]
  exact Eq.congr_left h.still.currentThread

theorem Machine.Enters.stays_iff (h : m.Enters label op m' lk)
    (hleft : (op.shareAfter (lk.begins m.current op) m.current).1 ≤ 0)
    (hop : op.PutsBack) : m'.current = m.current ↔ ¬ op.Overtaken m.kernel := by
  have hcurrent := h.current
  have hqueue : (lk.begins m.current op).runQueue = m.kernel.runQueue := h.quiet.runQueue
  have hpriority : ((lk.begins m.current op).threads m.current).priority =
      (m.kernel.threads m.current).priority := h.quiet.inPlace.priority _
  have hnot : ∀ p, m.current ∉ m.kernel.runQueue p := by
    intro p hmem
    rw [← hqueue, ← hcurrent] at hmem
    exact h.wf.current_notMem p hmem
  rcases hop with rfl | rfl | ⟨priority, rfl⟩
  · have hyield := (threadYield_reschedules h.wf).bind (f := fun _ => pure (0 : Int))
      fun _ => .pure _
    refine h.selected hyield fun lk' hplaced hlk' => ?_
    have htop := hlk'.2.1
    rw [hcurrent, hpriority, hqueue] at htop
    rw [hplaced.top_tail htop hnot]
    simp [Op.Overtaken, Machine.current]
  · have hpreempt := (threadPreempt_reschedules h.wf).bind (f := fun _ => pure (0 : Int))
      fun _ => .pure _
    refine h.selected hpreempt fun lk' hplaced hlk' => ?_
    have hconsumed : ¬ 0 < ((lk.begins m.current .threadPreempt).threads
        m.current).remainingQuantum := not_lt.mpr hleft
    have htop := hlk'.2
    rw [hcurrent, if_neg hconsumed, hpriority, hqueue] at htop
    rw [hplaced.top_tail htop hnot]
    simp [Op.Overtaken, Machine.current]
  · have hset := (threadSetPriority_reschedules h.wf priority).bind (f := fun _ => pure (0 : Int))
      fun _ => .pure _
    refine h.selected hset fun lk' hplaced hlk' => ?_
    have htop := hlk'.2.1
    rw [hcurrent, hqueue] at htop
    rw [hplaced.top_head htop hnot]
    simp [Op.Overtaken]

theorem waitQueueBlock_switches {timeout : LkTime} (h : lk.Wf)
    (hidle : lk.currentThread ≠ idleThread) (hq : ∀ u, q = .retcode u → u < lk.nextTid)
    (htimeout : timeout ≠ 0) : ((waitQueueBlock q timeout).run lk).Switches :=
  (waitQueueBlock_wp h hidle hq htimeout (fun _ _ => trivial) fun _ _ _ _ _ => rfl).switches

/-- An operation that waits comes to `thread_resched` to block, and an exiting thread is gone. -/
theorem perform_switches (h : lk.Wf) (hidle : lk.currentThread ≠ idleThread)
    (hop : (∃ q, op.waitsOn = some q) ∨ ∃ r, op = .threadExit r) (hresched : op.Reschedules lk) :
    ((perform op).run lk).Switches := by
  have hblock : ∀ {lk' : Kernel} {q : Wq} {timeout : LkTime}, lk.Still lk' →
      (∀ u, q = .retcode u → u < lk.nextTid) → timeout ≠ 0 →
      ((waitQueueBlock q timeout).run lk').Switches := by
    intro lk' q timeout hstill hq htimeout
    refine waitQueueBlock_switches (hstill.wf h) ?_ ?_ htimeout
    · rw [hstill.currentThread]
      exact hidle
    · rw [hstill.nextTid]
      exact hq
  rcases hop with ⟨q, hq⟩ | ⟨r, rfl⟩
  · cases op with
    | threadJoin t timeout =>
      obtain ⟨hdetached, hdeath, htimeout⟩ := hresched
      have hthreads : (lk.lock.useThread t).threads = lk.threads := by
        rw [Kernel.useThread_eq]
        rfl
      simp only [perform, threadJoin, Section.run_bind, getCurrentThread_run, lockThreads_run,
        Section.run_modify, Section.run_read, Susp.done_bind, hthreads, hdetached,
        Bool.false_eq_true,
        if_false, if_pos hdeath]
      refine (hblock ((Kernel.Still.of_eq rfl).trans (.useThread lk.lock t)) ?_ htimeout).bind _
      rintro u hu
      cases hu
      exact Queues.lt_nextTid h hdeath
    | waitQueueBlock w timeout =>
      simp only [perform, locked, Section.run_bind, lockThreads_run, Susp.done_bind]
      exact (hblock (.of_eq rfl) (by simp) hresched).bind _
    | semWait s =>
      have hcount : lk.lock.sem s + -1 < 0 := Int.sub_one_lt_iff.mpr hresched
      simp only [perform, semWait, addCount, Section.run_bind, lockThreads_run, Section.run_modify,
        Section.run_read, Susp.done_bind, Function.update_self, if_pos hcount]
      exact (hblock (.addCount lk s (-1)) (by simp) (by decide)).bind _
    | semTimedwait s timeout =>
      have hcount : lk.lock.sem s + -1 < 0 := Int.sub_one_lt_iff.mpr hresched.1
      simp only [perform, semTimedwait, addCount, Section.run_bind, lockThreads_run,
        Section.run_modify, Section.run_read, Susp.done_bind, Function.update_self, if_pos hcount]
      exact (hblock (.addCount lk s (-1)) (by simp) hresched.2).bind _
    | mutexAcquire m timeout =>
      have hcount : ((lk.lock.setMutex m fun mutex => { mutex with count := mutex.count + 1 }).mutex
          m).count > 1 := by
        have hpos := hresched.1
        simp only [Kernel.setMutex, Kernel.lock, Function.update_self]
        omega
      simp only [perform, mutexAcquireTimeout, Section.run_bind, getCurrentThread_run,
        lockThreads_run, Section.run_modify, Section.run_read, Susp.done_bind, if_pos hcount]
      exact (hblock (.setMutex lk m _) (by simp) hresched.2).bind _
    | eventWait e timeout =>
      have hsignaled : ¬ (lk.event e).signaled = true := by simp [hresched.1]
      simp only [perform, eventWaitTimeout, Section.run_bind, lockThreads_run, Section.run_modify,
        Section.run_read, Susp.done_bind, Kernel.lockEvent_event, if_neg hsignaled]
      exact (hblock (.lockEvent lk e) (by simp) hresched.2).bind _
    | _ => cases hq
  · obtain ⟨lk', k, hrun, -⟩ := threadExit_switches h hidle r
    simp only [perform, returning, Section.run_bind, hrun, Susp.switch_bind]
    exact ⟨_, _, rfl⟩

/-- Where an operation comes to `thread_resched` the running thread is put back, or is gone from
the run queue, or somebody is waiting. -/
theorem Op.Reschedules.cases (h : op.Reschedules lk) :
    op.PutsBack ∨ ((∃ q, op.waitsOn = some q) ∨ ∃ r, op = .threadExit r) ∨
      ∃ q, (lk.wait q).list ≠ [] := by
  cases op with
  | threadYield => exact .inl (.inl rfl)
  | threadPreempt => exact .inl (.inr (.inl rfl))
  | threadSetPriority priority => exact .inl (.inr (.inr ⟨priority, rfl⟩))
  | threadExit r => exact .inr (.inl (.inr ⟨r, rfl⟩))
  | waitQueueWakeOne w reschedule err => exact .inr (.inr ⟨_, h.2⟩)
  | waitQueueWakeAll w reschedule err => exact .inr (.inr ⟨_, h.2⟩)
  | waitQueueDestroy w reschedule => exact .inr (.inr ⟨_, h.2⟩)
  | semPost s resched => exact .inr (.inr ⟨_, h.2.2⟩)
  | semDestroy s => exact .inr (.inr ⟨_, h⟩)
  | mutexRelease m => exact .inr (.inr ⟨_, h.2⟩)
  | mutexDestroy m => exact .inr (.inr ⟨_, h⟩)
  | eventSignal e reschedule => exact .inr (.inr ⟨_, h.2.2⟩)
  | eventDestroy e => exact .inr (.inr ⟨_, h⟩)
  | threadCreate _ _ => exact h.elim
  | threadResume _ => exact h.elim
  | threadDetach _ => exact h.elim
  | semTrywait _ => exact h.elim
  | threadUnblock _ _ => exact h.elim
  | _ => exact .inr (.inl (.inl ⟨_, rfl⟩))

theorem Op.overtaken_of_not_putsBack (hop : ¬ op.PutsBack) : op.Overtaken lk := by
  cases op with
  | threadYield => exact absurd (.inl rfl) hop
  | threadPreempt => exact absurd (.inr (.inl rfl)) hop
  | threadSetPriority priority => exact absurd (.inr (.inr ⟨priority, rfl⟩)) hop
  | _ => trivial

theorem Op.PutsBack.reschedules (h : op.PutsBack) : op.Reschedules lk := by
  rcases h with rfl | rfl | ⟨priority, rfl⟩ <;> trivial

theorem Reschedules.ne_of_switches {α : Type} {R : Kernel → Prop} {x : Susp Kernel α} {c : Tid}
    (h : Reschedules R x) (hR : ∀ lk, R lk → lk.currentThread = c) (hx : x.Switches) :
    x.state.currentThread ≠ c := by
  obtain ⟨lk, f, -, hlk, hf, rfl⟩ := h
  obtain ⟨s, k, hswitch⟩ := hx
  have hcurrent : lk.getTopThread.2.currentThread = lk.currentThread := by
    rw [Kernel.getTopThread_eq]
  by_cases hc : lk.getTopThread.1 = lk.currentThread
  · simp only [threadResched, Kernel.setState, Kernel.setThread, hcurrent, hc, if_true,
      Susp.done_bind] at hswitch
    obtain ⟨a, lk', hrun, -⟩ := hf () _
    rw [hrun] at hswitch
    cases hswitch
  · simp only [threadResched, Kernel.setState, Kernel.setThread, hcurrent, hc, if_false]
    exact fun hsame => hc (hsame.trans (hR lk hlk).symm)

theorem Machine.begins_tick (h : m.begins .tick = some op) : op = .threadPreempt := by
  simp only [Machine.begins, Machine.begins_outside h] at h
  split at h
  · cases h
    rfl
  · cases h

theorem Machine.leftOver_of_not_putsBack (hbegins : m.begins label = some op)
    (hop : ¬ op.PutsBack) (t : Tid) :
    label ≠ .tick ∧ m.leftOver label t = (m.kernel.threads t).remainingQuantum := by
  have hlabel : label ≠ .tick := by
    rintro rfl
    exact hop (.inr (.inl (Machine.begins_tick hbegins)))
  refine ⟨hlabel, ?_⟩
  rw [Machine.leftOver, if_neg, if_neg hlabel]
  rintro ⟨hyield, -⟩
  rw [hbegins, Option.some.injEq] at hyield
  exact hop (.inl hyield)

end Selection

/-- Quanta are between nothing and five; a thread that is selected with nothing left goes on with
five; and a tick asks to reschedule when it took the last. -/
structure Machine.KeepsAccount (m : Machine) (label : Label) (m' : Machine) : Prop where
  bounds : ∀ t, 0 ≤ (m'.kernel.threads t).remainingQuantum ∧
    (m'.kernel.threads t).remainingQuantum ≤ 5
  fresh : ∀ op, m.begins label = some op → op.Reschedules m.kernel →
    m.leftOver label m'.current ≤ 0 → (m'.kernel.threads m'.current).remainingQuantum = 5
  asks : label = .tick → (m.kernel.threadTimerTick.2 = true ↔
    (m.kernel.threadTimerTick.1.threads m.current).remainingQuantum = 0)

/-- Before a tick the running thread has something left; and where it has the last of it then, or
before another operation nothing or what it yields, somebody overtakes it. -/
def Machine.Spared (m : Machine) : Label → Prop
  | .tick => 1 < (m.kernel.threads m.current).remainingQuantum ∨
      (m.kernel.threads m.current).remainingQuantum = 1 ∧ Op.threadPreempt.Overtaken m.kernel
  | label => ∀ op ∈ m.begins label,
      op = .threadYield ∨ (m.kernel.threads m.current).remainingQuantum ≤ 0 → op.Overtaken m.kernel

instance (m : Machine) (label : Label) : Decidable (m.Spared label) := by
  cases label <;> dsimp only [Machine.Spared] <;> infer_instance

/-- The shares are in order, and the running thread has something left but at the start, when
nobody waits. -/
structure Kernel.Paced (lk : Kernel) : Prop where
  share : ∀ t, 0 ≤ (lk.threads t).share.1 ∧ (lk.threads t).share.1 ≤ 5 ∧
    (lk.threads t).share.2 = false
  running : 0 < (lk.threads lk.currentThread).share.1 ∨ ∀ q, (lk.wait q).list = []

section Account

variable {m m' : Machine} {label : Label} {lk : Kernel} {op : Op}

theorem Kernel.Paced.tick (h : lk.Paced) (hwf : lk.Wf) :
    lk.threadTimerTick = (lk.setThread lk.currentThread fun thread =>
        { thread with remainingQuantum := thread.remainingQuantum - 1 },
      decide ((lk.threads lk.currentThread).remainingQuantum - 1 ≤ 0)) := by
  have hreal : (lk.threads lk.currentThread).realTime = false := (h.share _).2.2
  unfold Kernel.threadTimerTick
  dsimp only
  rw [hreal, hwf.regular]
  rfl

theorem Kernel.Paced.ground (h : m.kernel.Paced) (hwf : m.kernel.Wf)
    (htick : label = .tick → 0 < (m.kernel.threads m.current).remainingQuantum) (t : Tid) :
    0 ≤ ((if label = .tick then m.kernel.threadTimerTick.1 else m.kernel).threads t).share.1 ∧
    ((if label = .tick then m.kernel.threadTimerTick.1 else m.kernel).threads t).share.1 ≤ 5 ∧
    ((if label = .tick then m.kernel.threadTimerTick.1 else m.kernel).threads t).share.2 =
      false := by
  have hshare := h.share t
  split
  · next hlabel =>
    have hpos := htick hlabel
    rw [h.tick hwf]
    by_cases ht : t = m.current
    · subst ht
      simp only [Machine.current, Kernel.setThread_self, Thread.share] at hpos hshare ⊢
      exact ⟨by omega, by omega, hshare.2.2⟩
    · have hne : t ≠ m.kernel.currentThread := ht
      simpa [Kernel.setThread, hne] using hshare
  · exact hshare

theorem Machine.leftOver_current (h : m.kernel.Paced) (hwf : m.kernel.Wf) :
    m.leftOver label m.current = if m.begins label = some .threadYield then 0
      else if label = .tick then (m.kernel.threads m.current).remainingQuantum - 1
      else (m.kernel.threads m.current).remainingQuantum := by
  simp only [Machine.leftOver, and_true]
  split
  · rfl
  · split
    · rw [h.tick hwf]
      simp [Machine.current]
    · rfl

theorem Machine.Spared.pos (h : m.Spared label) (hlabel : label = .tick) :
    0 < (m.kernel.threads m.current).remainingQuantum := by
  subst hlabel
  rcases h with hmore | ⟨hlast, -⟩
  · exact lt_trans Int.one_pos hmore
  · rw [hlast]
    exact Int.one_pos

theorem Machine.Spared.overtaken (h : m.Spared label) (hpaced : m.kernel.Paced)
    (hwf : m.kernel.Wf) (hbegins : m.begins label = some op)
    (hleft : m.leftOver label m.current ≤ 0) : op.Overtaken m.kernel := by
  rw [Machine.leftOver_current hpaced hwf, hbegins] at hleft
  cases label with
  | tick =>
    have hop := Machine.begins_tick hbegins
    subst hop
    rcases h with hmore | ⟨-, hovertaken⟩
    · simp at hleft
      omega
    · exact hovertaken
  | _ =>
    refine h op hbegins ?_
    by_cases hyield : op = .threadYield
    · exact .inl hyield
    · simp only [Option.some.injEq, if_neg hyield] at hleft
      exact .inr hleft

theorem Machine.step_share
    (hrest : ∀ t k, m.code t = .inside k → ∀ lk, ∃ r lk', k lk = .done r lk' ∧ lk.Still lk')
    (hbegins : m.begins label = none) (hstep : m.step label = some m') :
    (label = .tick → m.kernel.threadTimerTick.2 = false) ∧
      ∀ t, (m'.kernel.threads t).share =
        ((if label = .tick then m.kernel.threadTimerTick.1 else m.kernel).threads t).share := by
  unfold Machine.step at hstep
  cases hcode : m.code m.current with
  | fresh =>
    simp only [hcode] at hstep
    split at hstep
    · next hlabel =>
      subst hlabel
      cases hstep
      exact ⟨by simp, fun _ => rfl⟩
    · cases hstep
  | inside k =>
    simp only [hcode] at hstep
    split at hstep
    · next hlabel =>
      subst hlabel
      obtain ⟨r, lk', hk, hstill⟩ := hrest _ k hcode m.kernel
      refine ⟨by simp, fun t => ?_⟩
      unfold Machine.resume at hstep
      split at hstep
      · cases hstep
      · split at hstep
        · rw [hk] at hstep
          cases hstep
          exact hstill.share t
        · cases hstep
    · cases hstep
  | outside =>
    simp only [Machine.begins, hcode] at hbegins
    simp only [hcode] at hstep
    cases label with
    | run =>
      refine ⟨by simp, fun t => ?_⟩
      unfold Machine.exec at hstep
      cases hframes : m.kernel.frames m.current with
      | nil => simp [hframes] at hstep
      | cons f stack =>
        simp only [hframes, List.head?_cons, Option.bind_some, Frame.op?] at hbegins hstep
        cases hinstr : f.instr with
        | «section» o next => simp [hinstr] at hbegins
        | act g next =>
          simp only [hinstr, Option.some.injEq] at hstep
          obtain ⟨event, ltimer, nextTimer, structFrees, stackFrees, faults, log, hg⟩ :=
            Frame.act_eq hinstr m.kernel
          rw [← hstep, hg]
          rfl
        | user => simp [hinstr] at hstep
    | call f =>
      dsimp only at hstep
      split at hstep
      · cases hstep
        exact ⟨by simp, fun _ => rfl⟩
      · cases hstep
    | ret r =>
      dsimp only at hstep
      split at hstep
      · cases hstep
        exact ⟨by simp, fun _ => rfl⟩
      · cases hstep
        exact ⟨by simp, fun _ => rfl⟩
      · cases hstep
    | tick =>
      dsimp only at hbegins hstep
      split at hbegins
      · cases hbegins
      · next hask =>
        rw [if_neg hask] at hstep
        cases hstep
        exact ⟨fun _ => Bool.eq_false_iff.mpr hask, fun _ => rfl⟩
    | preempt => cases hbegins
    | lTimer τ => cases hbegins
    | expire t => cases hbegins

/-- Who has nothing left is selected again where nobody overtakes it, and only there. -/
theorem Machine.Enters.stays_iff_not_overtaken (h : m.Enters label op m' lk)
    (hbegins : m.begins label = some op) (hpaced : m.kernel.Paced)
    (hborn : m.current < m.kernel.nextTid) (hresched : op.Reschedules m.kernel)
    (hleft : m.leftOver label m.current ≤ 0) :
    m'.current = m.current ↔ ¬ op.Overtaken m.kernel := by
  by_cases hback : op.PutsBack
  · refine h.stays_iff ?_ hback
    rw [h.leftOver hbegins fun _ _ _ => hborn]
    exact hleft
  · refine iff_of_false ?_ (not_not.mpr (Op.overtaken_of_not_putsBack hback))
    rw [(Machine.leftOver_of_not_putsBack hbegins hback _).2] at hleft
    have hnobody : ∀ q, (m.kernel.wait q).list = [] :=
      hpaced.running.resolve_left (not_lt.mpr hleft)
    rcases hresched.cases with hback' | hgone | ⟨q, hlist⟩
    · exact absurd hback' hback
    · have hwaits : op.forIdle = false := by
        rcases hgone with ⟨q, hq⟩ | ⟨r, rfl⟩
        · cases op <;> first | rfl | cases hq
        · rfl
      have hresched' := (Op.Reschedules.congr h.quiet m.current op).mpr hresched
      have hswitches := perform_switches h.wf (h.current ▸ h.notIdle hwaits) hgone hresched'
      rcases h.comes with ⟨-, hx⟩ | ⟨hnot, -⟩
      · have hne := hx.ne_of_switches (fun lk' hlk' => hlk'.2.1) hswitches
        exact fun hc => hne (h.still.currentThread.symm.trans hc)
      · exact absurd hresched' hnot
    · exact absurd (hnobody q) hlist

/-- Where the running thread goes on with nothing left after an operation that did not come to
`thread_resched`, or that was spared, nobody waits. -/
theorem Kernel.Paced.unqueued (h : m.kernel.Paced) (henters : m.Enters label op m' lk)
    (hbegins : m.begins label = some op) (hsound : m.kernel.Sound) (hwf : m'.kernel.Wf)
    (hspared : m.Spared label) (hcurrent : m'.current = m.current)
    (hleft : m.leftOver label m.current ≤ 0) (q : Wq) : (m'.kernel.wait q).list = [] := by
  have hovertaken : op.Overtaken m.kernel := hspared.overtaken h hsound.wf hbegins hleft
  have hnot : ¬ op.Reschedules m.kernel := fun hresched =>
    (henters.stays_iff_not_overtaken hbegins h hsound.current_lt hresched hleft).mp hcurrent
      hovertaken
  have hback : ¬ op.PutsBack := fun hop => hnot hop.reschedules
  rw [(Machine.leftOver_of_not_putsBack hbegins hback _).2] at hleft
  have hnobody : ∀ q, (m.kernel.wait q).list = [] := h.running.resolve_left (not_lt.mpr hleft)
  have hchanges : Kernel.Changes m.current op _ _ :=
    (perform_changing m.current op (lk.begins m.current op) henters.current).state
  rw [List.eq_nil_iff_forall_not_mem]
  intro t hmem
  have hself : t ≠ m.current := by
    rintro rfl
    exact hwf.run_ne_of_blocked hmem hcurrent
  rw [henters.still.list] at hmem
  rcases hchanges.mem_wait hmem with hmem | hc
  · have hlist : (lk.wait q).list = [] := by rw [henters.quiet.wait, hnobody]
    have hbegun : ((lk.begins m.current op).wait q).list = (lk.wait q).list := rfl
    rw [hbegun, hlist] at hmem
    cases hmem
  · exact hself hc

theorem Kernel.Paced.enter (h : m.kernel.Paced) (henters : m.Enters label op m' lk)
    (hbegins : m.begins label = some op) (hsound : m.kernel.Sound) (hwf : m'.kernel.Wf)
    (hspared : m.Spared label) : m'.kernel.Paced := by
  have hground : ∀ t, 0 ≤ (lk.threads t).share.1 ∧ (lk.threads t).share.1 ≤ 5 ∧
      (lk.threads t).share.2 = false := by
    intro t
    have hshare := h.ground hsound.wf hspared.pos t
    rw [henters.threads]
    split at hshare
    · next hlabel => rwa [if_pos hlabel]
    · next hlabel => rwa [if_neg hlabel]
  have hafter : ∀ t, 0 ≤ (op.shareAfter (lk.begins m.current op) t).1 ∧
      (op.shareAfter (lk.begins m.current op) t).1 ≤ 5 ∧
      (op.shareAfter (lk.begins m.current op) t).2 = false := by
    intro t
    have hkept : ((lk.begins m.current op).threads t).share = (lk.threads t).share := rfl
    cases op with
    | threadYield =>
      simp only [Op.shareAfter]
      split
      · exact ⟨le_rfl, by simp, (hground t).2.2⟩
      · exact hground t
    | threadCreate priority entry =>
      simp only [Op.shareAfter]
      split
      · exact ⟨le_rfl, by decide, rfl⟩
      · exact hground t
    | _ => exact hground t
  refine ⟨fun t => ?_, ?_⟩
  · rw [henters.share]
    split
    · exact ⟨by simp, le_rfl, (hafter t).2.2⟩
    · exact hafter t
  · rw [henters.share]
    by_cases hcurrent : m'.current = m.current
    · rw [if_neg fun hc => hc.2.1 hcurrent]
      have hself : m'.kernel.currentThread = m.current := hcurrent
      have hborn : m.current < m.kernel.nextTid := hsound.current_lt
      rw [hself, henters.leftOver hbegins fun _ _ _ => hborn]
      by_cases hleft : 0 < m.leftOver label m.current
      · exact .inl hleft
      · exact .inr (h.unqueued henters hbegins hsound hwf hspared hcurrent (not_lt.mp hleft))
    · refine .inl ?_
      by_cases hleft : (op.shareAfter (lk.begins m.current op) m'.current).1 ≤ 0
      · rw [if_pos ⟨rfl, hcurrent, hleft⟩]
        simp
      · rw [if_neg fun hc => hleft hc.2.2]
        exact not_le.mp hleft

theorem Kernel.Paced.step {ok : Machine → Label → Prop} {objects : Objects}
    (h : m.kernel.Paced) (hrun : Machine.Run ok (.boot objects) m) (hwf : m'.kernel.Wf)
    (hstep : m.step label = some m') (hspared : m.Spared label) : m'.kernel.Paced := by
  cases hbegins : m.begins label with
  | some op =>
    obtain ⟨lk, henters⟩ := Machine.step_enters hrun.sound hbegins hstep
    exact h.enter henters hbegins hrun.sound hwf hspared
  | none =>
    obtain ⟨hask, hshare⟩ := Machine.step_share hrun.poised.rest hbegins hstep
    obtain ⟨hin, -⟩ := Machine.step_inPlace hrun.poised.rest hbegins hstep
    refine ⟨fun t => ?_, ?_⟩
    · rw [hshare]
      exact h.ground hrun.sound.wf hspared.pos t
    · rw [hshare, hin.currentThread]
      by_cases hlabel : label = .tick
      · have hleft := hask hlabel
        rw [if_pos hlabel]
        rw [h.tick hrun.sound.wf] at hleft ⊢
        simp only [decide_eq_false_iff_not, not_le] at hleft
        exact .inl (by simpa [Thread.share] using hleft)
      · rw [if_neg hlabel]
        exact h.running.imp id fun hnobody q => (hin.list q).trans (hnobody q)

theorem Machine.Enters.kept (h : m.Enters label op m' lk) (hbegins : m.begins label = some op)
    (hborn : m.current < m.kernel.nextTid) :
    (m'.kernel.threads m.current).remainingQuantum = m.leftOver label m.current := by
  have hshare := h.share m.current
  rw [if_neg fun hc => hc.2.1 rfl] at hshare
  rw [← h.leftOver hbegins fun _ _ _ => hborn, ← hshare]
  rfl

theorem Machine.begins_last (h : m.kernel.Paced) (hwf : m.kernel.Wf)
    (hstep : m.step .tick = some m')
    (hlast : (m.kernel.threads m.current).remainingQuantum ≤ 1) :
    m.begins .tick = some .threadPreempt := by
  have hask : m.kernel.threadTimerTick.2 = true := by
    rw [h.tick hwf]
    simp only [Machine.current] at hlast
    simp only [decide_eq_true_eq]
    omega
  cases hcode : m.code m.current with
  | outside => simp only [Machine.begins, hcode, if_pos hask]
  | fresh => simp [Machine.step, hcode] at hstep
  | inside k => simp [Machine.step, hcode] at hstep

theorem Machine.Spared.keepsAccount (hspared : m.Spared label) (h : m.kernel.Paced)
    (h' : m'.kernel.Paced) (hsound : m.kernel.Sound) (hstep : m.step label = some m') :
    m.KeepsAccount label m' := by
  refine ⟨fun t => ⟨(h'.share t).1, (h'.share t).2.1⟩, fun op hbegins hresched hleft => ?_,
    fun hlabel => ?_⟩
  · obtain ⟨lk, henters⟩ := Machine.step_enters hsound hbegins hstep
    by_cases hcurrent : m'.current = m.current
    · rw [hcurrent] at hleft
      have hovertaken := hspared.overtaken h hsound.wf hbegins hleft
      exact absurd hovertaken ((henters.stays_iff_not_overtaken hbegins h hsound.current_lt
        hresched hleft).mp hcurrent)
    · have hshare := henters.share m'.current
      rw [← henters.leftOver hbegins fun _ _ hop => by subst hop; exact hresched.elim] at hleft
      rw [if_pos ⟨rfl, hcurrent, hleft⟩] at hshare
      exact congrArg Prod.fst hshare
  · have hpos := hspared.pos hlabel
    simp only [Machine.current] at hpos
    rw [h.tick hsound.wf]
    simp only [Machine.current, Kernel.setThread_self, decide_eq_true_eq]
    omega

theorem Machine.KeepsAccount.overtaken (hkeeps : m.KeepsAccount label m') (h : m.kernel.Paced)
    (hsound : m.kernel.Sound) (hbegins : m.begins label = some op)
    (hstep : m.step label = some m') (hleft : m.leftOver label m.current ≤ 0) :
    op.Overtaken m.kernel := by
  by_contra hnot
  have hback : op.PutsBack := by
    by_contra hop
    exact hnot (Op.overtaken_of_not_putsBack hop)
  obtain ⟨lk, henters⟩ := Machine.step_enters hsound hbegins hstep
  have hcurrent : m'.current = m.current := (henters.stays_iff_not_overtaken hbegins h
    hsound.current_lt hback.reschedules hleft).mpr hnot
  have hfresh := hkeeps.fresh op hbegins hback.reschedules
  rw [hcurrent, henters.kept hbegins hsound.current_lt] at hfresh
  have hfive := hfresh hleft
  omega

theorem Machine.KeepsAccount.spared (hkeeps : m.KeepsAccount label m') (h : m.kernel.Paced)
    (hsound : m.kernel.Sound) (hstep : m.step label = some m') : m.Spared label := by
  cases label with
  | tick =>
    by_cases hmore : 1 < (m.kernel.threads m.current).remainingQuantum
    · exact .inl hmore
    · have hbegins := Machine.begins_last h hsound.wf hstep (not_lt.mp hmore)
      have hcurrent : m.leftOver .tick m.current =
          (m.kernel.threads m.current).remainingQuantum - 1 := by
        rw [Machine.leftOver_current h hsound.wf, hbegins]
        rfl
      obtain ⟨lk, henters⟩ := Machine.step_enters hsound hbegins hstep
      have hkept := henters.kept hbegins hsound.current_lt
      have hbound := (hkeeps.bounds m.current).1
      rw [hkept, hcurrent] at hbound
      refine .inr ⟨by omega, ?_⟩
      exact hkeeps.overtaken h hsound hbegins hstep (by omega)
  | _ =>
    intro op hbegins hspent
    refine hkeeps.overtaken h hsound hbegins hstep ?_
    rw [Machine.leftOver_current h hsound.wf, hbegins]
    rcases hspent with rfl | hspent
    · simp
    · split
      · exact le_rfl
      · exact hspent

end Account

section Runs

variable {ok : Machine → Label → Prop} {objects : Objects} {m m' : Machine} {label : Label}

theorem Kernel.idleStart_share (objects : Objects) (t : Tid) :
    ((Kernel.idleStart objects).threads t).share = (0, false) := by
  simp only [Kernel.idleStart, startThreads, Function.update_apply]
  split
  · rfl
  · split <;> rfl

/-- The thread in which the kernel comes up has no quantum, and nobody waits. -/
theorem Machine.boot_paced (objects : Objects) : (Machine.boot objects).kernel.Paced := by
  have hkernel : (Machine.boot objects).kernel =
      ((threadSetPriority DEFAULT_PRIORITY.val).run (Kernel.idleStart objects)).state := by
    simp only [Machine.boot, lklThreadInit, Section.run_bind, Section.run_modify, Susp.done_bind,
      threadCreateIdle_run]
  obtain ⟨lk, -, ⟨-, -, -, hkept⟩, -, hshare⟩ := (threadSetPriority_reschedules
    (Kernel.idleStart_wf objects) DEFAULT_PRIORITY.val).share
  rw [← hkernel] at hshare
  refine ⟨fun t => ?_, .inr fun q => ?_⟩
  · rw [hshare, hkept, Kernel.idleStart_share]
    split <;> simp
  · obtain ⟨threads, runQueue, runQueueBitmap, hrun, -, -⟩ := lklThreadInit_run objects
    simp only [Machine.boot, hrun, Susp.state]
    rfl

theorem Machine.Run.paced (hrun : Machine.Run Machine.Spared (.boot objects) m) :
    m.kernel.Paced := by
  generalize hboot : Machine.boot objects = m₀ at hrun
  induction hrun with
  | nil => exact hboot ▸ Machine.boot_paced objects
  | snoc hrun hok hstep ih =>
    subst hboot
    exact ih.step hrun (hrun.snoc hok hstep).sound.wf hstep hok

/-- As long as every step finds something to take from the running thread, and another one to go
on with where that has nothing left, the account is kept, and it is not by the first step that
does not. -/
theorem account_kept_iff (hrun : Machine.Run Machine.Spared (.boot objects) m) :
    (∀ t, 0 ≤ (m.kernel.threads t).remainingQuantum ∧
      (m.kernel.threads t).remainingQuantum ≤ 5) ∧
    ∀ label m', m.step label = some m' → (m.KeepsAccount label m' ↔ m.Spared label) := by
  have hpaced := hrun.paced
  have hsound := hrun.sound
  refine ⟨fun t => ⟨(hpaced.share t).1, (hpaced.share t).2.1⟩, fun label m' hstep => ⟨?_, ?_⟩⟩
  · intro hkeeps
    exact hkeeps.spared hpaced hsound hstep
  · intro hspared
    exact hspared.keepsAccount hpaced (hrun.snoc hspared hstep).paced hsound hstep

/-- The last tick of a thread, with another one to go on that has yielded before. -/
theorem account_kept_handing : ∃ m m',
    Machine.Run (fun m label => m.Spared label ∧ m.Enabled label) (.boot .assorted) m ∧
    m.Open ∧ m.step .tick = some m' ∧ m'.current ≠ m.current ∧
      (m.kernel.threads m.current).remainingQuantum = 1 ∧
      (m.kernel.threads m'.current).remainingQuantum = 0 ∧ m.KeepsAccount .tick m' := by
  have hresult : ((Machine.boot .assorted).after (fun m label => m.Spared label ∧ m.Enabled label)
      [.call .lklThreadCreate, .run, .run, .run, .run, .call (.op .threadYield), .run, .run,
        .tick, .tick, .tick, .tick]).bind (fun m => (m.step .tick).map fun m' =>
        ((m.kernel.threadLock, m.kernel.ints), decide (m'.current ≠ m.current),
          (m.kernel.threads m.current).remainingQuantum,
          (m.kernel.threads m'.current).remainingQuantum, decide (m.Spared .tick))) =
      some ((false, true), true, 1, 0, true) := by decide +kernel
  obtain ⟨m, hm, hresult⟩ := Option.bind_eq_some_iff.mp hresult
  obtain ⟨m', hstep, hresult⟩ := Option.map_eq_some_iff.mp hresult
  simp only [Prod.mk.injEq, decide_eq_true_eq] at hresult
  obtain ⟨⟨hlock, hints⟩, hother, hone, hzero, hspared⟩ := hresult
  have hrun : Machine.Run (fun m label => m.Spared label ∧ m.Enabled label) (.boot .assorted) m :=
    (Machine.Run.nil _).after hm
  have haccount := account_kept_iff (hrun.weaken fun _ _ h => h.1)
  exact ⟨m, m', hrun, ⟨hlock, hints⟩, hstep, hother, hone, hzero,
    (haccount.2 .tick m' hstep).mpr hspared⟩

/-- The other thread has exited, and `bootstrapThread` is preempted with the last of its quantum
and goes on without a new one; the next tick takes from nothing. -/
theorem account_lost_alone : ∃ m m' m'', Machine.Run (fun _ _ => True) (.boot .assorted) m ∧
    m.Open ∧ m.step .tick = some m' ∧ ¬ m.KeepsAccount .tick m' ∧
    m'.Open ∧ m'.step .tick = some m'' ∧ m''.current = bootstrapThread ∧
      (m''.kernel.threads bootstrapThread).remainingQuantum = -1 ∧
        ¬ m'.KeepsAccount .tick m'' := by
  have hresult : ((Machine.boot .assorted).after (fun _ _ => True)
      [.call .lklThreadCreate, .run, .run, .run, .run, .ret 0, .run, .run,
        .tick, .tick, .tick, .tick]).bind (fun m =>
      (m.step .tick).bind fun m' => (m'.step .tick).map fun m'' =>
        ((m.kernel.threadLock, m.kernel.ints, m'.kernel.threadLock, m'.kernel.ints),
          (m.begins .tick, m.leftOver .tick m'.current,
            (m'.kernel.threads m'.current).remainingQuantum), m''.current,
          (m''.kernel.threads bootstrapThread).remainingQuantum)) =
      some ((false, true, false, true), (some .threadPreempt, 0, 0), bootstrapThread, -1) := by
    decide +kernel
  obtain ⟨m, hm, hresult⟩ := Option.bind_eq_some_iff.mp hresult
  obtain ⟨m', hstep, hresult⟩ := Option.bind_eq_some_iff.mp hresult
  obtain ⟨m'', hstep', hresult⟩ := Option.map_eq_some_iff.mp hresult
  simp only [Prod.mk.injEq] at hresult
  obtain ⟨⟨hlock, hints, hlock', hints'⟩, ⟨hbegins, hleft, hkept⟩, hcurrent, hquantum⟩ := hresult
  refine ⟨m, m', m'', (Machine.Run.nil _).after hm, ⟨hlock, hints⟩, hstep, fun hkeeps => ?_,
    ⟨hlock', hints'⟩, hstep', hcurrent, hquantum, fun hkeeps => ?_⟩
  · have hfresh := hkeeps.fresh .threadPreempt hbegins trivial (le_of_eq hleft)
    rw [hkept] at hfresh
    cases hfresh
  · have hbound := (hkeeps.bounds bootstrapThread).1
    rw [hquantum] at hbound
    cases hbound

end Runs

end UefiLkl.Lk
