import UefiLkl.Lk.Selection
set_option autoImplicit false

/-!
An operation switches once at most, and then to a thread of the highest priority; what is
left of it when it is gone on with leaves the queues alone.
-/

namespace UefiLkl.Lk
open Coroutine

/-- The threads are where they were. -/
structure Kernel.InPlace (lk lk' : Kernel) : Prop where
  currentThread : lk'.currentThread = lk.currentThread
  nextTid : lk'.nextTid = lk.nextTid
  runQueue : lk'.runQueue = lk.runQueue
  runQueueBitmap : lk'.runQueueBitmap = lk.runQueueBitmap
  state : ∀ t, (lk'.threads t).state = (lk.threads t).state
  priority : ∀ t, (lk'.threads t).priority = (lk.threads t).priority
  blockingWaitQueue : ∀ t, (lk'.threads t).blockingWaitQueue = (lk.threads t).blockingWaitQueue
  idle : ∀ t, (lk'.threads t).idle = (lk.threads t).idle
  list : ∀ q, (lk'.wait q).list = (lk.wait q).list
  count : ∀ q, (lk'.wait q).count = (lk.wait q).count

/-- No thread is new, and none has another priority. -/
structure Kernel.SameRanks (lk lk' : Kernel) : Prop where
  nextTid : lk'.nextTid = lk.nextTid
  priority : ∀ t, (lk'.threads t).priority = (lk.threads t).priority

/-- What is left of the quantum, and whether the ticks take from it. -/
def Thread.share (thread : Thread) : Int × Bool := (thread.remainingQuantum, thread.realTime)

/-- The threads are where they were, with the same shares. -/
structure Kernel.Still (lk lk' : Kernel) : Prop extends Kernel.InPlace lk lk' where
  share : ∀ t, (lk'.threads t).share = (lk.threads t).share

/-- The threads have the same ranks and shares, wherever they are, and the same one runs. -/
structure Kernel.Leads (lk lk' : Kernel) : Prop extends Kernel.SameRanks lk lk' where
  currentThread : lk'.currentThread = lk.currentThread
  share : ∀ t, (lk'.threads t).share = (lk.threads t).share

section InPlace

variable {lk lk' lk'' : Kernel}

theorem Kernel.InPlace.refl (lk : Kernel) : lk.InPlace lk := by
  constructor <;> intros <;> rfl

theorem Kernel.InPlace.trans (h : lk.InPlace lk') (h' : lk'.InPlace lk'') : lk.InPlace lk'' where
  currentThread := h'.currentThread.trans h.currentThread
  nextTid := h'.nextTid.trans h.nextTid
  runQueue := h'.runQueue.trans h.runQueue
  runQueueBitmap := h'.runQueueBitmap.trans h.runQueueBitmap
  state t := (h'.state t).trans (h.state t)
  priority t := (h'.priority t).trans (h.priority t)
  blockingWaitQueue t := (h'.blockingWaitQueue t).trans (h.blockingWaitQueue t)
  idle t := (h'.idle t).trans (h.idle t)
  list q := (h'.list q).trans (h.list q)
  count q := (h'.count q).trans (h.count q)

theorem Kernel.InPlace.setThread (lk : Kernel) (t : Tid) {f : Thread → Thread}
    (hstate : ∀ thread, (f thread).state = thread.state)
    (hpriority : ∀ thread, (f thread).priority = thread.priority)
    (hqueue : ∀ thread, (f thread).blockingWaitQueue = thread.blockingWaitQueue)
    (hflag : ∀ thread, (f thread).idle = thread.idle) : lk.InPlace (lk.setThread t f) := by
  constructor <;> intros <;> first | rfl | skip
  all_goals
    simp only [Kernel.setThread, Function.update_apply]
    split <;> simp_all

theorem Kernel.InPlace.setMagic (lk : Kernel) (q : Wq) (b : Bool) :
    lk.InPlace (lk.setWait q fun wait => { wait with magic := b }) := by
  constructor <;> intros <;> first | rfl | skip
  all_goals
    simp only [Kernel.setWait, Function.update_apply]
    split <;> simp_all

theorem Kernel.Quiet.inPlace (h : lk.Quiet lk') : lk.InPlace lk' where
  currentThread := h.currentThread
  nextTid := h.nextTid
  runQueue := h.runQueue
  runQueueBitmap := h.runQueueBitmap
  state t := by
    obtain ⟨n, hn⟩ := h.threads t
    rw [hn]
  priority t := by
    obtain ⟨n, hn⟩ := h.threads t
    rw [hn]
  blockingWaitQueue t := by
    obtain ⟨n, hn⟩ := h.threads t
    rw [hn]
  idle t := by
    obtain ⟨n, hn⟩ := h.threads t
    rw [hn]
  list q := by rw [h.wait]
  count q := by rw [h.wait]

theorem Kernel.InPlace.wf (h : lk.InPlace lk') (hwf : lk.Wf) : lk'.Wf := by
  have hthreads := Queues.of_threads hwf h.state h.priority h.blockingWaitQueue h.idle
  unfold Kernel.Wf Kernel.Placed
  rw [h.runQueue, h.runQueueBitmap, h.nextTid, h.currentThread]
  constructor
  · exact hthreads.running
  · exact hthreads.ready
  · exact hthreads.once
  · exact hthreads.bitmap
  · simpa only [h.list] using hthreads.blocked
  · simpa only [h.list] using hthreads.waitOnce
  · simpa only [h.list, h.count] using hthreads.count
  · exact hthreads.idle
  · simpa only [h.list] using hthreads.unborn
  · exact hthreads.regular

theorem Kernel.InPlace.topmost (h : lk.InPlace lk') (htop : lk.Topmost) : lk'.Topmost := by
  intro t ht
  rw [h.state] at ht
  rw [h.priority, h.priority, h.currentThread]
  exact htop t ht

theorem Kernel.InPlace.sameRanks (h : lk.InPlace lk') : lk.SameRanks lk' := ⟨h.nextTid, h.priority⟩

theorem Kernel.SameRanks.refl (lk : Kernel) : lk.SameRanks lk := ⟨rfl, fun _ => rfl⟩

theorem Kernel.SameRanks.trans (h : lk.SameRanks lk') (h' : lk'.SameRanks lk'') :
    lk.SameRanks lk'' :=
  ⟨h'.nextTid.trans h.nextTid, fun t => (h'.priority t).trans (h.priority t)⟩

theorem Kernel.Still.refl (lk : Kernel) : lk.Still lk := ⟨.refl lk, fun _ => rfl⟩

theorem Kernel.Still.trans (h : lk.Still lk') (h' : lk'.Still lk'') : lk.Still lk'' :=
  ⟨h.toInPlace.trans h'.toInPlace, fun t => (h'.share t).trans (h.share t)⟩

theorem Kernel.Still.of_eq {threadList : List Tid} {sem : SemId → Int} {mutex : Nat → Mutex}
    {event : EventId → Event} {ltimer : Nat → LTimer} {nextTimer : Nat} {armed : Tid → Bool}
    {frames : Tid → List Frame} {doing : Tid → Option Op} {ints threadLock : Bool}
    {structFrees stackFrees unlinks : Tid → Nat} {faults : List Fault} {log : List Happening}
    (h : lk' = { lk with
      threadList := threadList
      sem := sem
      mutex := mutex
      event := event
      ltimer := ltimer
      nextTimer := nextTimer
      armed := armed
      frames := frames
      doing := doing
      ints := ints
      threadLock := threadLock
      structFrees := structFrees
      stackFrees := stackFrees
      unlinks := unlinks
      faults := faults
      log := log }) : lk.Still lk' := by
  subst h
  refine ⟨?_, fun _ => rfl⟩
  constructor <;> intros <;> rfl

theorem Kernel.Still.setThread (lk : Kernel) (t : Tid) {f : Thread → Thread}
    (h : lk.InPlace (lk.setThread t f)) (hf : (f (lk.threads t)).share = (lk.threads t).share) :
    lk.Still (lk.setThread t f) := by
  refine ⟨h, fun u => ?_⟩
  by_cases hu : u = t
  · rw [hu, Kernel.setThread_self, hf]
  · simp [Kernel.setThread, hu]

theorem Kernel.Still.unlink (lk : Kernel) (t : Tid) : lk.Still (lk.unlink t) :=
  (Kernel.Still.setThread lk t (f := fun thread => { thread with magic := false })
    (.setThread lk t (fun _ => rfl) (fun _ => rfl) (fun _ => rfl) fun _ => rfl) rfl).trans
    (.of_eq rfl)

theorem Kernel.Still.setMagic (lk : Kernel) (q : Wq) (b : Bool) :
    lk.Still (lk.setWait q fun wait => { wait with magic := b }) :=
  ⟨.setMagic lk q b, fun _ => rfl⟩

theorem Kernel.Still.useThread (lk : Kernel) (t : Tid) : lk.Still (lk.useThread t) :=
  .of_eq (Kernel.useThread_eq lk t)

theorem Kernel.Still.useEvent (lk : Kernel) (e : EventId) : lk.Still (lk.useEvent e) :=
  .of_eq (Kernel.useEvent_eq lk e)

theorem Kernel.Still.begins (lk : Kernel) (c : Tid) (op : Op) : lk.Still (lk.begins c op) :=
  .of_eq rfl

theorem Kernel.Still.leads (h : lk.Still lk') : lk.Leads lk' :=
  ⟨h.sameRanks, h.currentThread, h.share⟩

theorem Kernel.Leads.refl (lk : Kernel) : lk.Leads lk :=
  ⟨.refl lk, rfl, fun _ => rfl⟩

theorem Kernel.Leads.trans (h : lk.Leads lk') (h' : lk'.Leads lk'') : lk.Leads lk'' :=
  ⟨h.toSameRanks.trans h'.toSameRanks, h'.currentThread.trans h.currentThread,
    fun t => (h'.share t).trans (h.share t)⟩

theorem Kernel.Leads.lock (lk : Kernel) : lk.Leads lk.lock :=
  ⟨⟨rfl, fun _ => rfl⟩, rfl, fun _ => rfl⟩

theorem Kernel.Leads.arm (lk : Kernel) (t : Tid) (b : Bool) : lk.Leads (lk.arm t b) :=
  ⟨⟨rfl, fun _ => rfl⟩, rfl, fun _ => rfl⟩

theorem Kernel.SameRanks.setThread (lk : Kernel) (t : Tid) {f : Thread → Thread}
    (hf : (f (lk.threads t)).priority = (lk.threads t).priority) :
    lk.SameRanks (lk.setThread t f) := by
  refine ⟨rfl, fun u => ?_⟩
  by_cases hu : u = t
  · rw [hu, Kernel.setThread_self, hf]
  · simp [Kernel.setThread, hu]

theorem Kernel.Leads.setThread (lk : Kernel) (t : Tid) {f : Thread → Thread}
    (hf : (f (lk.threads t)).priority = (lk.threads t).priority)
    (hshare : (f (lk.threads t)).share = (lk.threads t).share) :
    lk.Leads (lk.setThread t f) := by
  refine ⟨.setThread lk t hf, rfl, fun u => ?_⟩
  by_cases hu : u = t
  · rw [hu, Kernel.setThread_self, hshare]
  · simp [Kernel.setThread, hu]

theorem Kernel.Leads.insertHead (lk : Kernel) (t : Tid) :
    lk.Leads (lk.insertInRunQueueHead t) :=
  ⟨⟨rfl, fun _ => rfl⟩, rfl, fun _ => rfl⟩

theorem Kernel.Leads.insertTail (lk : Kernel) (t : Tid) :
    lk.Leads (lk.insertInRunQueueTail t) :=
  ⟨⟨rfl, fun _ => rfl⟩, rfl, fun _ => rfl⟩

theorem Kernel.Leads.readyHead (lk : Kernel) (t : Tid) :
    lk.Leads ((lk.setState t .ready).insertInRunQueueHead t) :=
  (Kernel.Leads.setThread lk t rfl rfl).trans (.insertHead _ t)

theorem Kernel.Leads.dequeue (lk : Kernel) (q : Wq) (rest : List Tid) (t : Tid)
    (err : Status) : lk.Leads (lk.dequeue q rest t err) :=
  (Kernel.Leads.setThread lk t (f := fun thread => { thread with
    state := .ready
    waitQueueBlockRet := err
    blockingWaitQueue := none }) rfl rfl).trans ⟨⟨rfl, fun _ => rfl⟩, rfl, fun _ => rfl⟩

theorem Kernel.Leads.enqueue (lk : Kernel) (q : Wq) (t : Tid) : lk.Leads (lk.enqueue q t) :=
  (Kernel.Leads.setThread lk t (f := fun thread => { thread with
    state := .blocked
    blockingWaitQueue := some q
    waitQueueBlockRet := NO_ERROR }) rfl rfl).trans ⟨⟨rfl, fun _ => rfl⟩, rfl, fun _ => rfl⟩

theorem Kernel.Leads.popAll (q : Wq) (err : Status) (list : List Tid) (lk : Kernel) :
    lk.Leads (Kernel.popAll q err list lk) := by
  induction list generalizing lk with
  | nil => exact .refl lk
  | cons t rest ih =>
    have hready := (Kernel.Leads.dequeue lk q rest t err).trans (.insertHead _ t)
    exact hready.trans (ih _)

end InPlace

/-- It does not switch, and the threads stay where they are. -/
def Calm {α : Type} (x : Section Kernel α) : Prop := x.Direct Kernel.Still

section Calm

variable {α β : Type}

theorem Calm.bind {x : Section Kernel α} {f : α → Section Kernel β} (hx : Calm x)
    (hf : ∀ a, Calm (f a)) : Calm (x >>= f) :=
  Section.Direct.bind (G := Kernel.Still) (fun _ _ _ => Kernel.Still.trans) hx hf

theorem Calm.pure (a : α) : Calm (Pure.pure a) := Section.Direct.pure Kernel.Still.refl a

theorem Calm.read (f : Kernel → α) : Calm (.read f) := Section.Direct.read Kernel.Still.refl f

theorem Calm.modify {f : Kernel → Kernel} (h : ∀ lk : Kernel, lk.Still (f lk)) :
    Calm (.modify f) :=
  Section.Direct.modify h

theorem Calm.ite {p : Prop} [Decidable p] {x y : Section Kernel α} (hx : Calm x) (hy : Calm y) :
    Calm (if p then x else y) :=
  Section.Direct.ite hx hy

theorem lockThreads_calm : Calm lockThreads := fun lk => ⟨lk.ints, lk.lock, rfl, .of_eq rfl⟩

theorem unlockThreads_calm (state : Bool) : Calm (unlockThreads state) :=
  .modify fun _ => .of_eq rfl

theorem unlock_calm (state : Bool) (a : α) : Calm (do unlockThreads state; Pure.pure a) :=
  (unlockThreads_calm state).bind fun _ => .pure a

theorem useThread_calm (t : Tid) : Calm (.modify fun lk => lk.useThread t) :=
  .modify fun lk => .useThread lk t

theorem useEvent_calm (e : EventId) : Calm (.modify fun lk => lk.useEvent e) :=
  .modify fun lk => .useEvent lk e

theorem setEvent_calm (e : EventId) (f : Event → Event) :
    Calm (.modify fun lk => lk.setEvent e f) :=
  .modify fun _ => .of_eq rfl

theorem setMutex_calm (m : Nat) (f : Mutex → Mutex) : Calm (.modify fun lk => lk.setMutex m f) :=
  .modify fun _ => .of_eq rfl

theorem note_calm (f : Kernel → Happening) : Calm (.modify fun lk => lk.note (f lk)) :=
  .modify fun _ => .of_eq rfl

theorem addCount_calm (s : SemId) (n : Int) : Calm (addCount s n) :=
  .bind (.modify fun _ => .of_eq rfl) fun _ => .read _

theorem setMagic_calm (q : Wq) :
    Calm (.modify fun lk => lk.setWait q fun wait => { wait with magic := false }) :=
  .modify fun lk => .setMagic lk q false

end Calm

/-- The queues are put in order, a thread is chosen, and what follows leaves the queues alone. -/
def Reschedules {α : Type} (R : Kernel → Prop) (x : Susp Kernel α) : Prop :=
  ∃ (lk : Kernel) (f : Unit → Section Kernel α), lk.Placed none ∅ ∧ R lk ∧ (∀ a, Calm (f a)) ∧
    x = (threadResched.run lk).bind fun a => (f a).run

/-- It comes to `thread_resched` if `P`, and otherwise to its end without a switch. -/
def Comes {α : Type} (P : Prop) (R : Kernel → Prop) (x : Susp Kernel α) : Prop :=
  P ∧ Reschedules R x ∨ ¬ P ∧ ∃ a lk, x = .done a lk ∧ R lk

section Comes

variable {lk : Kernel} {P P' : Prop} {R R' : Kernel → Prop} {α β : Type}

theorem Reschedules.mono {x : Susp Kernel α} (h : Reschedules R x) (hR : ∀ lk, R lk → R' lk) :
    Reschedules R' x := by
  obtain ⟨lk, f, hplaced, hlk, hf, rfl⟩ := h
  exact ⟨lk, f, hplaced, hR lk hlk, hf, rfl⟩

theorem threadResched_reschedules (h : lk.Placed none ∅) (hR : R lk) :
    Reschedules R (threadResched.run lk) :=
  ⟨lk, fun _ => pure (), h, hR, fun _ => .pure (), (Susp.bind_done _).symm⟩

theorem Reschedules.bind {x : Susp Kernel α} {f : α → Section Kernel β} (h : Reschedules R x)
    (hf : ∀ a, Calm (f a)) : Reschedules R (x.bind fun a => (f a).run) := by
  obtain ⟨lk, g, hplaced, hlk, hg, rfl⟩ := h
  refine ⟨lk, fun a => g a >>= f, hplaced, hlk, fun a => (hg a).bind hf, ?_⟩
  rw [Susp.bind_assoc]
  rfl

theorem Reschedules.topmost {x : Susp Kernel α} (h : Reschedules R x) : x.state.Topmost := by
  obtain ⟨lk, f, hplaced, -, hf, rfl⟩ := h
  exact Susp.state_bind (threadResched_topmost hplaced) hf fun _ _ hs => hs.topmost

theorem Reschedules.once {x : Susp Kernel α} (h : Reschedules R x) :
    x.Once Kernel.Topmost Kernel.Still := by
  obtain ⟨lk, f, hplaced, -, hf, rfl⟩ := h
  refine Susp.Once.bind (G := Kernel.Still) (fun _ _ _ => Kernel.Still.trans) ?_ hf
  have htop := threadResched_topmost hplaced
  simp only [threadResched] at htop ⊢
  split
  · trivial
  · next hc =>
    rw [if_neg hc] at htop
    exact ⟨htop, fun lk₁ => ⟨(), lk₁, rfl, .refl lk₁⟩⟩

theorem Reschedules.ranks {x : Susp Kernel α} (h : Reschedules R x) :
    ∃ lk, R lk ∧ lk.SameRanks x.state := by
  obtain ⟨lk, f, -, hlk, hf, rfl⟩ := h
  obtain ⟨-, -, hnext, hthread⟩ := threadResched_state lk
  have hranks : lk.SameRanks (threadResched.run lk).state := ⟨hnext, fun t => (hthread t).2⟩
  exact ⟨lk, hlk, Susp.state_bind hranks hf fun _ _ hs h => h.trans hs.sameRanks⟩

theorem Comes.imp {x : Susp Kernel α} (h : Comes P R x) (hP : P ↔ P')
    (hR : ∀ lk, R lk → R' lk) : Comes P' R' x := by
  rcases h with ⟨hp, hx⟩ | ⟨hp, a, lk, hx, hlk⟩
  · exact .inl ⟨hP.mp hp, hx.mono hR⟩
  · exact .inr ⟨fun hp' => hp (hP.mpr hp'), a, lk, hx, hR lk hlk⟩

theorem Comes.bind {x : Susp Kernel α} {f : α → Section Kernel β} (h : Comes P lk.Leads x)
    (hf : ∀ a, Calm (f a)) : Comes P lk.Leads (x.bind fun a => (f a).run) := by
  rcases h with ⟨hp, hx⟩ | ⟨hp, a, lk', rfl, hlk⟩
  · exact .inl ⟨hp, hx.bind hf⟩
  · obtain ⟨b, lk'', hrun, hin⟩ := hf a lk'
    exact .inr ⟨hp, b, lk'', by rw [Susp.done_bind, hrun], hlk.trans hin.leads⟩

theorem Comes.from {lk' : Kernel} {x : Susp Kernel α} (h : Comes P lk'.Leads x)
    (hin : lk.Still lk') : Comes P lk.Leads x :=
  h.imp Iff.rfl fun _ => hin.leads.trans

theorem Calm.comes {x : Section Kernel α} (hx : Calm x) (hP : ¬ P) :
    Comes P lk.Leads (x.run lk) := by
  obtain ⟨a, lk', hrun, hin⟩ := hx lk
  exact .inr ⟨hP, a, lk', hrun, hin.leads⟩

end Comes

section Scheduler

variable {lk : Kernel}

theorem threadYield_reschedules (h : lk.Wf) : Reschedules (fun lk' => lk.SameRanks lk' ∧
    lk'.runQueue = Function.update lk.runQueue (lk.threads lk.currentThread).priority
      (lk.runQueue (lk.threads lk.currentThread).priority ++ [lk.currentThread]) ∧
    lk'.currentThread = lk.currentThread ∧
    ∀ t, (lk'.threads t).share = if t = lk.currentThread then (0, (lk.threads t).realTime)
      else (lk.threads t).share)
    (threadYield.run lk) := by
  have hl : lk.lock.Wf := h
  simp only [threadYield, Section.run_bind, getCurrentThread_run, lockThreads_run,
    Section.run_modify, Section.run_read, Susp.done_bind, Kernel.setThread_self, hl.regular,
    Bool.not_false, if_true]
  refine ⟨_, fun _ => unlockThreads lk.ints, (hl.requeue rfl rfl).2, ⟨?_, ?_, rfl, fun t => ?_⟩,
    fun _ => unlockThreads_calm _, rfl⟩
  · exact (Kernel.Leads.lock lk).toSameRanks.trans
      ((Kernel.SameRanks.setThread _ _ rfl).trans (Kernel.Leads.insertTail _ _).toSameRanks)
  · simp [Kernel.insertInRunQueueTail, Kernel.setThread, Kernel.lock]
  · by_cases ht : t = lk.currentThread
    · simp [ht, Kernel.insertInRunQueueTail, Kernel.setThread, Kernel.lock, Thread.share]
    · simp [ht, Kernel.insertInRunQueueTail, Kernel.setThread, Kernel.lock]

theorem threadPreempt_reschedules (h : lk.Wf) : Reschedules (fun lk' => lk.Leads lk' ∧
    lk'.runQueue = Function.update lk.runQueue (lk.threads lk.currentThread).priority
      (if 0 < (lk.threads lk.currentThread).remainingQuantum then
        lk.currentThread :: lk.runQueue (lk.threads lk.currentThread).priority
      else lk.runQueue (lk.threads lk.currentThread).priority ++ [lk.currentThread]))
    (threadPreempt.run lk) := by
  have hl : lk.lock.Wf := h
  have hplaced := hl.requeue (f := fun thread => { thread with state := .ready }) rfl rfl
  simp only [threadPreempt, Section.run_bind, getCurrentThread_run, lockThreads_run,
    Section.run_modify, Section.run_read, Susp.done_bind, Kernel.setState, Kernel.setThread_self,
    hl.regular, Bool.not_false, if_true]
  by_cases hquantum : 0 < (lk.threads lk.currentThread).remainingQuantum
  · rw [if_pos (show (lk.lock.threads lk.currentThread).remainingQuantum > 0 from hquantum),
      if_pos hquantum]
    refine ⟨_, fun _ => unlockThreads lk.ints, hplaced.1, ⟨?_, ?_⟩,
      fun _ => unlockThreads_calm _, rfl⟩
    · exact (Kernel.Leads.lock lk).trans
        ((Kernel.Leads.setThread _ _ rfl rfl).trans (.insertHead _ _))
    · simp [Kernel.insertInRunQueueHead, Kernel.setThread, Kernel.lock]
  · rw [if_neg (show ¬ (lk.lock.threads lk.currentThread).remainingQuantum > 0 from hquantum),
      if_neg hquantum]
    refine ⟨_, fun _ => unlockThreads lk.ints, hplaced.2, ⟨?_, ?_⟩,
      fun _ => unlockThreads_calm _, rfl⟩
    · exact (Kernel.Leads.lock lk).trans
        ((Kernel.Leads.setThread _ _ rfl rfl).trans (.insertTail _ _))
    · simp [Kernel.insertInRunQueueTail, Kernel.setThread, Kernel.lock]

/-- The priority is brought between those of the idle thread and the highest. -/
def clampPriority (priority : Int) : Priority :=
  let priority : Int := if priority ≤ IDLE_PRIORITY.val then IDLE_PRIORITY.val + 1 else priority
  let priority : Int := if priority > HIGHEST_PRIORITY.val then HIGHEST_PRIORITY.val else priority
  Fin.ofNat 32 priority.toNat

theorem threadSetPriority_reschedules (h : lk.Wf) (priority : Int) :
    Reschedules (fun lk' => (lk'.nextTid = lk.nextTid ∧ ∀ t, (lk'.threads t).priority =
        if t = lk.currentThread then clampPriority priority else (lk.threads t).priority) ∧
        lk'.runQueue = Function.update lk.runQueue (clampPriority priority)
          (lk.currentThread :: lk.runQueue (clampPriority priority)) ∧
        lk'.currentThread = lk.currentThread ∧
        ∀ t, (lk'.threads t).share = (lk.threads t).share)
      ((threadSetPriority priority).run lk) := by
  have hl : lk.lock.Wf := h
  simp only [threadSetPriority, Section.run_bind, getCurrentThread_run, lockThreads_run,
    Section.run_modify, Susp.done_bind]
  refine ⟨_, fun _ => unlockThreads lk.ints, (hl.requeue rfl rfl).1,
    ⟨⟨rfl, fun t => ?_⟩, ?_, rfl, fun t => ?_⟩, fun _ => unlockThreads_calm _, rfl⟩
  · by_cases ht : t = lk.currentThread
    · simp [ht, Kernel.insertInRunQueueHead, Kernel.setThread, Kernel.lock, clampPriority]
    · simp [ht, Kernel.insertInRunQueueHead, Kernel.setThread, Kernel.lock]
  · simp [Kernel.insertInRunQueueHead, Kernel.setThread, Kernel.lock, clampPriority]
  · by_cases ht : t = lk.currentThread
    · simp [ht, Kernel.insertInRunQueueHead, Kernel.setThread, Kernel.lock, Thread.share]
    · simp [ht, Kernel.insertInRunQueueHead, Kernel.setThread, Kernel.lock]

end Scheduler

section WaitQueues

variable {lk : Kernel} {q : Wq}

/-- The thread that blocks is on its queue when another is chosen. -/
theorem waitQueueBlock_comes {timeout : LkTime} (h : lk.Wf) (hidle : lk.currentThread ≠ idleThread)
    (hq : ∀ u, q = .retcode u → u < lk.nextTid) :
    Comes (timeout ≠ 0) lk.Leads ((waitQueueBlock q timeout).run lk) := by
  have hplaced := h.enqueue hidle hq
  have hranks := Kernel.Leads.enqueue lk q lk.currentThread
  unfold waitQueueBlock
  simp only [Section.run_bind, getCurrentThread_run, Susp.done_bind]
  by_cases h0 : timeout = 0
  · rw [if_pos h0]
    exact .inr ⟨not_not.mpr h0, _, lk, rfl, .refl lk⟩
  · rw [if_neg h0]
    refine .inl ⟨h0, ?_⟩
    by_cases hinf : timeout ≠ INFINITE_TIME
    · simp only [if_pos hinf]
      exact ⟨(lk.enqueue q lk.currentThread).arm lk.currentThread true, fun _ => do
        .modify fun lk₁ => lk₁.arm lk.currentThread false
        Section.read fun lk₁ => (lk₁.threads lk.currentThread).waitQueueBlockRet, hplaced,
        hranks.trans (.arm _ _ _), fun _ => .bind (.modify fun _ => .of_eq rfl) fun _ => .read _,
        rfl⟩
    · simp only [if_neg hinf]
      exact ⟨_, fun _ => Section.read fun lk₁ => (lk₁.threads lk.currentThread).waitQueueBlockRet,
        hplaced, hranks, fun _ => .read _, rfl⟩

theorem waitQueueWakeOne_nil {reschedule : Bool} {err : Status} (hlist : (lk.wait q).list = []) :
    (waitQueueWakeOne q reschedule err).run lk = .done 0 lk := by
  simp only [waitQueueWakeOne, Section.run_bind, getCurrentThread_run, Section.run_read,
    Susp.done_bind, hlist, Section.run_pure]

theorem waitQueueWakeAll_nil {reschedule : Bool} {err : Status} (h : lk.Wf)
    (hlist : (lk.wait q).list = []) : (waitQueueWakeAll q reschedule err).run lk = .done 0 lk := by
  have hcount : ¬ (reschedule = true ∧ (lk.wait q).count > 0) := by simp [h.count q, hlist]
  simp only [waitQueueWakeAll, Section.run_bind, getCurrentThread_run, Section.run_read,
    Susp.done_bind, if_neg hcount, Section.run_modify, hlist]
  rfl

theorem waitQueueWakeOne_comes {reschedule : Bool} {err : Status} (h : lk.Wf) :
    Comes (reschedule = true ∧ (lk.wait q).list ≠ []) lk.Leads
      ((waitQueueWakeOne q reschedule err).run lk) := by
  unfold waitQueueWakeOne
  simp only [Section.run_bind, getCurrentThread_run, Section.run_read, Susp.done_bind]
  cases hlist : (lk.wait q).list with
  | nil => exact .inr ⟨by simp, _, lk, rfl, .refl lk⟩
  | cons t rest =>
    have hranks := Kernel.Leads.dequeue lk q rest t err
    cases reschedule with
    | false => exact .inr ⟨by simp, _, _, rfl, hranks.trans (.insertHead _ t)⟩
    | true =>
      simp only [if_true, Section.run_bind, Section.run_modify, Susp.done_bind]
      exact .inl ⟨by simp, _, fun _ => pure 1, h.wakeOne hlist err,
        (hranks.trans (.readyHead _ _)).trans (.insertHead _ t), fun _ => .pure 1, rfl⟩

theorem waitQueueWakeAll_comes {reschedule : Bool} {err : Status} (h : lk.Wf) :
    Comes (reschedule = true ∧ (lk.wait q).list ≠ []) lk.Leads
      ((waitQueueWakeAll q reschedule err).run lk) := by
  cases reschedule with
  | false =>
    rw [waitQueueWakeAll_run]
    exact .inr ⟨by simp, _, _, rfl, .popAll q err _ lk⟩
  | true =>
    cases hlist : (lk.wait q).list with
    | nil => exact .inr ⟨by simp, _, lk, waitQueueWakeAll_nil h hlist, .refl lk⟩
    | cons t rest =>
      have hpos : (lk.wait q).count > 0 := by
        rw [h.count, hlist, List.length_cons]
        omega
      have hplaced := h.wakeAll q err
      have hlist' : (((lk.setState lk.currentThread .ready).insertInRunQueueHead
        lk.currentThread).wait q).list = t :: rest := hlist
      rw [hlist] at hplaced
      unfold waitQueueWakeAll
      simp only [Section.run_bind, getCurrentThread_run, Section.run_read, Susp.done_bind, true_and,
        if_true]
      simp only [if_pos hpos, Section.run_bind, Section.run_modify, Section.run_read,
        Susp.done_bind, hlist', List.length_cons, Nat.succ_pos, gt_iff_lt, if_true]
      exact .inl ⟨by simp, _, fun _ => pure _, hplaced, (Kernel.Leads.readyHead lk _).trans
        (.popAll q err _ _), fun _ => .pure _, rfl⟩

theorem waitQueueDestroy_comes {reschedule : Bool} (h : lk.Wf) :
    Comes (reschedule = true ∧ (lk.wait q).list ≠ []) lk.Leads
      ((waitQueueDestroy q reschedule).run lk) := by
  unfold waitQueueDestroy
  rw [Section.run_bind]
  exact (waitQueueWakeAll_comes h).bind fun _ => setMagic_calm q

end WaitQueues

/-- The operation comes to `thread_resched` from this kernel. -/
def Op.Reschedules (lk : Kernel) : Op → Prop
  | .threadYield | .threadPreempt | .threadSetPriority _ | .threadExit _ => True
  | .threadJoin t timeout =>
    (lk.threads t).detached = false ∧ (lk.threads t).state ≠ .death ∧ timeout ≠ 0
  | .waitQueueBlock _ timeout => timeout ≠ 0
  | .waitQueueWakeOne w reschedule _ | .waitQueueWakeAll w reschedule _
  | .waitQueueDestroy w reschedule => reschedule = true ∧ (lk.wait (.other w)).list ≠ []
  | .semPost s resched => lk.sem s < 0 ∧ resched = true ∧ (lk.wait (.sem s)).list ≠ []
  | .semWait s => lk.sem s ≤ 0
  | .semTimedwait s timeout => lk.sem s ≤ 0 ∧ timeout ≠ 0
  | .semDestroy s => (lk.wait (.sem s)).list ≠ []
  | .mutexAcquire m timeout => 0 < (lk.mutex m).count ∧ timeout ≠ 0
  | .mutexRelease m => 1 < (lk.mutex m).count ∧ (lk.wait (.mutex m)).list ≠ []
  | .mutexDestroy m => (lk.wait (.mutex m)).list ≠ []
  | .eventWait e timeout => (lk.event e).signaled = false ∧ timeout ≠ 0
  | .eventSignal e reschedule =>
    (lk.event e).signaled = false ∧ reschedule = true ∧ (lk.wait (.event e)).list ≠ []
  | .eventDestroy e => (lk.wait (.event e)).list ≠ []
  | .threadCreate _ _ | .threadResume _ | .threadDetach _ => False
  | .semTrywait _ | .threadUnblock _ _ => False

/-- The operation leaves the priorities as they are. -/
def Op.keepsRanks : Op → Bool
  | .threadCreate _ _ | .threadSetPriority _ => false
  | _ => true

/-- What a thread has for its share when the operation comes to `thread_resched`, or to its end:
nothing is left to one that yields, and to a new one. -/
def Op.shareAfter (lk : Kernel) (op : Op) (t : Tid) : Int × Bool :=
  match op with
  | .threadYield =>
    if t = lk.currentThread then (0, (lk.threads t).realTime) else (lk.threads t).share
  | .threadCreate _ _ => if t = lk.nextTid then (0, false) else (lk.threads t).share
  | _ => (lk.threads t).share

section Operations

variable {lk : Kernel}

theorem threadCreate_share {priority : Priority} {entry : Entry} {r : Tid} {lk' : Kernel}
    (h : (threadCreate priority entry).run lk = .done r lk') (t : Tid) :
    (lk'.threads t).share = Op.shareAfter lk (.threadCreate priority entry) t := by
  cases h
  by_cases ht : t = lk.nextTid
  · simp [Op.shareAfter, ht, Kernel.addThread, Kernel.unlock, Kernel.lock, Thread.share,
      Thread.zero]
  · simp [Op.shareAfter, ht, Kernel.addThread, Kernel.unlock, Kernel.lock]

theorem threadResume_run (lk : Kernel) (t : Tid) :
    ∃ r lk', (threadResume t).run lk = .done r lk' ∧ lk.Leads lk' := by
  simp only [threadResume, Section.run_bind, lockThreads_run, unlockThreads_run,
    Section.run_modify, Section.run_read, Section.run_pure, Susp.done_bind, Section.run_ite]
  have huse : lk.Leads (lk.lock.useThread t) :=
    (Kernel.Leads.lock lk).trans (Kernel.Still.useThread lk.lock t).leads
  generalize lk.lock.useThread t = lk₁ at huse
  split
  · have hready : lk₁.Leads (lk₁.setState t .ready) := .setThread lk₁ t rfl rfl
    exact ⟨_, _, rfl, (huse.trans hready).trans ⟨⟨rfl, fun _ => rfl⟩, rfl, fun _ => rfl⟩⟩
  · exact ⟨_, _, rfl, huse.trans ⟨⟨rfl, fun _ => rfl⟩, rfl, fun _ => rfl⟩⟩

theorem threadUnblock_run (lk : Kernel) (t : Tid) (err : Status) :
    ∃ r lk', (threadUnblockFromWaitQueue t err).run lk = .done r lk' ∧ lk.Leads lk' := by
  simp only [threadUnblockFromWaitQueue, Section.run_bind, Section.run_modify, Section.run_read,
    Susp.done_bind, Section.run_ite]
  have huse : lk.Leads (lk.useThread t) := (Kernel.Still.useThread lk t).leads
  generalize lk.useThread t = lk₁ at huse
  split
  · exact ⟨_, lk₁, rfl, huse⟩
  · split
    · exact ⟨_, lk₁, rfl, huse⟩
    · exact ⟨_, _, rfl, huse.trans ((Kernel.Leads.dequeue lk₁ _ _ t err).trans (.insertHead _ t))⟩

theorem threadDetach_comes (h : lk.Wf) (t : Tid) :
    Comes False lk.Leads ((threadDetach t).run lk) := by
  have hin : lk.Still (lk.lock.useThread t) :=
    (Kernel.Still.of_eq rfl).trans (.useThread lk.lock t)
  have hwake : Comes _ _ ((waitQueueWakeAll (.retcode t) false ERR_THREAD_DETACHED).run
      (lk.lock.useThread t)) := waitQueueWakeAll_comes (hin.wf h)
  simp only [threadDetach, Section.run_bind, lockThreads_run, Section.run_modify, Susp.done_bind]
  refine ((hwake.from hin).bind fun _ => ?_).imp (by simp) fun _ => id
  refine .bind (.read _) fun _ => .bind (.modify fun lk' => ?_) fun _ => unlock_calm _ _
  exact .setThread lk' t
    (.setThread lk' t (fun _ => rfl) (fun _ => rfl) (fun _ => rfl) fun _ => rfl) rfl

theorem Kernel.Leads.exiting (lk : Kernel) (retcode : Int) :
    lk.Leads (lk.exiting retcode) := by
  have hdead : lk.Leads ((lk.lock.useThread lk.currentThread).setThread lk.currentThread
      fun thread => { thread with state := .death, retcode := retcode }) :=
    ((Kernel.Still.of_eq rfl).trans (.useThread lk.lock _)).leads.trans
      (.setThread _ _ rfl rfl)
  unfold Kernel.exiting
  dsimp only
  split
  · exact hdead.trans (Kernel.Still.unlink _ _).leads
  · exact hdead.trans (.popAll _ _ _ _)

theorem threadExit_reschedules (h : lk.Wf) (hidle : lk.currentThread ≠ idleThread) (retcode : Int) :
    Reschedules lk.Leads ((threadExit retcode).run lk) := by
  rw [threadExit_run]
  exact threadResched_reschedules (h.exiting hidle retcode) (.exiting lk retcode)

theorem threadJoin_comes (h : lk.Wf) (hidle : lk.currentThread ≠ idleThread) (t : Tid)
    (timeout : LkTime) : Comes (Op.Reschedules lk (.threadJoin t timeout)) lk.Leads
      ((threadJoin t timeout).run lk) := by
  have hin : lk.Still (lk.lock.useThread t) :=
    (Kernel.Still.of_eq rfl).trans (.useThread lk.lock t)
  have hthreads : (lk.lock.useThread t).threads = lk.threads := by
    rw [Kernel.useThread_eq]
    rfl
  have hcurrent : (lk.lock.useThread t).currentThread = lk.currentThread := hin.currentThread
  have hend : ∀ err : Status, Calm (if err < 0 then do
        unlockThreads lk.ints
        pure err
      else do
        .modify fun lk => lk.useThread t
        .modify fun lk' => lk'.note (.joined lk.currentThread t (lk'.threads t).retcode)
        .modify fun lk => lk.unlink t
        unlockThreads lk.ints
        pure NO_ERROR) :=
    fun err => .ite (unlock_calm _ _) ((useThread_calm t).bind fun _ => (note_calm _).bind fun _ =>
      .bind (.modify fun lk' => .unlink lk' t) fun _ => unlock_calm _ _)
  simp only [threadJoin, Section.run_bind, getCurrentThread_run, lockThreads_run,
    Section.run_modify, Section.run_read, Susp.done_bind, hthreads]
  by_cases hdetached : (lk.threads t).detached = true
  · rw [if_pos hdetached]
    exact ((unlock_calm lk.ints _).comes (by simp [Op.Reschedules, hdetached])).from hin
  rw [if_neg hdetached]
  by_cases hdeath : (lk.threads t).state ≠ .death
  · have hborn : t < lk.nextTid := Queues.lt_nextTid h hdeath
    simp only [if_pos hdeath, Section.run_bind]
    refine (((waitQueueBlock_comes (hin.wf h) (by rw [hcurrent]; exact hidle) ?_).from hin).bind
      hend).imp ?_ fun _ => id
    · rintro u hu
      cases hu
      exact hin.nextTid ▸ hborn
    · simp [Op.Reschedules, hdetached, hdeath]
  · simp only [if_neg hdeath]
    exact (((Calm.pure NO_ERROR).bind hend).comes (by simp [Op.Reschedules, hdeath])).from hin

theorem locked_comes {α : Type} {P : Prop} {x : Section Kernel α}
    (hx : Comes P lk.lock.Leads (x.run lk.lock)) :
    Comes P lk.Leads ((locked x).run lk) := by
  rw [locked, Section.run_bind, lockThreads_run, Susp.done_bind, Section.run_bind]
  exact (hx.from (.of_eq rfl)).bind fun a => unlock_calm _ a

theorem returning_comes {α : Type} {P : Prop} {x : Section Kernel α}
    (hx : Comes P lk.Leads (x.run lk)) (f : α → Int) :
    Comes P lk.Leads ((returning f x).run lk) := by
  rw [returning, Section.run_bind]
  exact hx.bind fun a => .pure (f a)

theorem Kernel.Still.addCount (lk : Kernel) (s : SemId) (n : Int) : lk.Still
    { lk.lock with sem := Function.update lk.lock.sem s (lk.lock.sem s + n) } :=
  .of_eq rfl

theorem semPost_comes (h : lk.Wf) (s : SemId) (resched : Bool) :
    Comes (Op.Reschedules lk (.semPost s resched)) lk.Leads ((semPost s resched).run lk) := by
  have hin := Kernel.Still.addCount lk s 1
  simp only [semPost, addCount, Section.run_bind, lockThreads_run, Section.run_modify,
    Section.run_read, Susp.done_bind, Function.update_self, Section.run_ite]
  refine Comes.bind ?_ fun ret => unlock_calm _ ret
  by_cases hcount : lk.lock.sem s + 1 ≤ 0
  · have hneg : lk.sem s < 0 := Int.add_one_le_iff.mp hcount
    rw [if_pos hcount]
    exact ((waitQueueWakeOne_comes (hin.wf h)).from hin).imp
      (by simp [Op.Reschedules, hneg, Kernel.lock]) fun _ => id
  · have hneg : ¬ lk.sem s < 0 := fun hlt => hcount (Int.add_one_le_iff.mpr hlt)
    rw [if_neg hcount]
    exact ((Calm.pure 0).comes (by simp [Op.Reschedules, hneg])).from hin

theorem semWait_comes (h : lk.Wf) (hidle : lk.currentThread ≠ idleThread) (s : SemId) :
    Comes (Op.Reschedules lk (.semWait s)) lk.Leads ((semWait s).run lk) := by
  have hin := Kernel.Still.addCount lk s (-1)
  simp only [semWait, addCount, Section.run_bind, lockThreads_run, Section.run_modify,
    Section.run_read, Susp.done_bind, Function.update_self, Section.run_ite]
  refine Comes.bind ?_ fun ret => unlock_calm _ ret
  have hiff : lk.lock.sem s + -1 < 0 ↔ lk.sem s ≤ 0 := Int.sub_one_lt_iff
  by_cases hcount : lk.lock.sem s + -1 < 0
  · rw [if_pos hcount]
    refine ((waitQueueBlock_comes (hin.wf h) hidle (by simp)).from hin).imp ?_ fun _ => id
    simp [Op.Reschedules, hiff.mp hcount, INFINITE_TIME]
  · rw [if_neg hcount]
    exact ((Calm.pure _).comes (fun hp => hcount (hiff.mpr hp))).from hin

theorem semTrywait_calm (s : SemId) : Calm (semTrywait s) :=
  lockThreads_calm.bind fun state => (Calm.read _).bind fun _ =>
    .ite (unlock_calm state _) ((addCount_calm s (-1)).bind fun _ => unlock_calm state _)

theorem semTimedwait_comes (h : lk.Wf) (hidle : lk.currentThread ≠ idleThread) (s : SemId)
    (timeout : LkTime) : Comes (Op.Reschedules lk (.semTimedwait s timeout)) lk.Leads
      ((semTimedwait s timeout).run lk) := by
  have hin := Kernel.Still.addCount lk s (-1)
  simp only [semTimedwait, addCount, Section.run_bind, lockThreads_run, Section.run_modify,
    Section.run_read, Susp.done_bind, Function.update_self, Section.run_ite]
  refine Comes.bind ?_ fun ret => .ite ?_ (unlock_calm _ ret)
  · have hiff : lk.lock.sem s + -1 < 0 ↔ lk.sem s ≤ 0 := Int.sub_one_lt_iff
    by_cases hcount : lk.lock.sem s + -1 < 0
    · rw [if_pos hcount]
      refine ((waitQueueBlock_comes (hin.wf h) hidle (by simp)).from hin).imp ?_ fun _ => id
      simp [Op.Reschedules, hiff.mp hcount]
    · rw [if_neg hcount]
      exact ((Calm.pure _).comes (fun hp => hcount (hiff.mpr hp.1))).from hin
  · exact (addCount_calm s 1).bind fun _ => unlock_calm _ ret

theorem semDestroy_comes (h : lk.Wf) (s : SemId) :
    Comes (Op.Reschedules lk (.semDestroy s)) lk.Leads ((semDestroy s).run lk) := by
  have hin : lk.Still { lk.lock with sem := Function.update lk.lock.sem s 0 } := .of_eq rfl
  simp only [semDestroy, Section.run_bind, lockThreads_run, Section.run_modify, Susp.done_bind]
  exact (((waitQueueDestroy_comes (hin.wf h)).from hin).bind fun _ => unlockThreads_calm _).imp
    (by simp [Op.Reschedules, Kernel.lock]) fun _ => id

theorem Kernel.Still.setMutex (lk : Kernel) (m : Nat) (f : Mutex → Mutex) :
    lk.Still (lk.lock.setMutex m f) :=
  .of_eq rfl

theorem mutexDestroy_comes (h : lk.Wf) (m : Nat) :
    Comes (Op.Reschedules lk (.mutexDestroy m)) lk.Leads ((mutexDestroy m).run lk) := by
  simp only [mutexDestroy, Section.run_bind, lockThreads_run, Section.run_modify, Susp.done_bind]
  have hin := Kernel.Still.setMutex lk m fun mutex => { mutex with magic := false, count := 0 }
  exact (((waitQueueDestroy_comes (hin.wf h)).from hin).bind fun _ => unlockThreads_calm _).imp
    (by simp [Op.Reschedules, hin.list]) fun _ => id

theorem mutexAcquire_comes (h : lk.Wf) (hidle : lk.currentThread ≠ idleThread) (m : Nat)
    (timeout : LkTime) : Comes (Op.Reschedules lk (.mutexAcquire m timeout)) lk.Leads
      ((mutexAcquireTimeout m timeout).run lk) := by
  have hin := Kernel.Still.setMutex lk m fun mutex => { mutex with count := mutex.count + 1 }
  simp only [mutexAcquireTimeout, Section.run_bind, getCurrentThread_run, lockThreads_run,
    Section.run_modify, Section.run_read, Susp.done_bind, Section.run_ite]
  refine Comes.bind ?_ fun ret => .ite (.ite ?_ (unlock_calm _ ret)) ?_
  · have hiff : ((lk.lock.setMutex m fun mutex => { mutex with count := mutex.count + 1 }).mutex
        m).count > 1 ↔ 0 < (lk.mutex m).count := by
      simp only [Kernel.setMutex, Kernel.lock, Function.update_self]
      omega
    by_cases hcount : 0 < (lk.mutex m).count
    · rw [if_pos (hiff.mpr hcount)]
      refine ((waitQueueBlock_comes (hin.wf h) hidle (by simp)).from hin).imp ?_ fun _ => id
      simp [Op.Reschedules, hcount]
    · rw [if_neg fun hp => hcount (hiff.mp hp)]
      exact ((Calm.pure _).comes fun hp => hcount hp.1).from hin
  · exact (setMutex_calm m _).bind fun _ => unlock_calm _ ret
  · exact (setMutex_calm m _).bind fun _ => unlock_calm _ ret

theorem mutexRelease_comes (h : lk.Wf) (m : Nat) :
    Comes (Op.Reschedules lk (.mutexRelease m)) lk.Leads ((mutexRelease m).run lk) := by
  have hin := Kernel.Still.setMutex lk m fun mutex =>
    { mutex with holder := none, count := mutex.count - 1 }
  have hiff : ((lk.lock.setMutex m fun mutex =>
      { mutex with holder := none, count := mutex.count - 1 }).mutex m).count ≥ 1 ↔
      1 < (lk.mutex m).count := by
    simp only [Kernel.setMutex, Kernel.lock, Function.update_self]
    omega
  simp only [mutexRelease, Section.run_bind, lockThreads_run, Section.run_modify,
    Section.run_read, Susp.done_bind, Section.run_ite]
  by_cases hcount : 1 < (lk.mutex m).count
  · rw [if_pos (hiff.mpr hcount)]
    exact (((waitQueueWakeOne_comes (hin.wf h)).from hin).bind fun _ => unlock_calm _ _).imp
      (by simp [Op.Reschedules, hcount, hin.list]) fun _ => id
  · rw [if_neg fun hp => hcount (hiff.mp hp)]
    exact ((unlock_calm _ _).comes fun hp => hcount hp.1).from hin

theorem Kernel.Still.lockEvent (lk : Kernel) (e : EventId) :
    lk.Still (lk.lock.useEvent e) :=
  (Kernel.Still.of_eq rfl).trans (.useEvent lk.lock e)

theorem eventDestroy_comes (h : lk.Wf) (e : EventId) :
    Comes (Op.Reschedules lk (.eventDestroy e)) lk.Leads ((eventDestroy e).run lk) := by
  have hin : lk.Still ((lk.lock.useEvent e).setEvent e fun _ => ⟨false, false, false⟩) :=
    (Kernel.Still.lockEvent lk e).trans (.of_eq rfl)
  simp only [eventDestroy, Section.run_bind, lockThreads_run, Section.run_modify, Susp.done_bind]
  refine (((waitQueueWakeAll_comes (hin.wf h)).from hin).bind fun _ => ?_).imp
    (by simp [Op.Reschedules, hin.list]) fun _ => id
  exact (useEvent_calm e).bind fun _ => (setMagic_calm _).bind fun _ => unlockThreads_calm _

theorem Kernel.lockEvent_event (lk : Kernel) (e : EventId) :
    (lk.lock.useEvent e).event = lk.event := by
  rw [Kernel.useEvent_eq]
  rfl

theorem eventWait_comes (h : lk.Wf) (hidle : lk.currentThread ≠ idleThread) (e : EventId)
    (timeout : LkTime) : Comes (Op.Reschedules lk (.eventWait e timeout)) lk.Leads
      ((eventWaitTimeout e timeout).run lk) := by
  have hin := Kernel.Still.lockEvent lk e
  simp only [eventWaitTimeout, Section.run_bind, lockThreads_run, Section.run_modify,
    Section.run_read, Susp.done_bind, Kernel.lockEvent_event]
  refine Comes.bind ?_ fun ret => unlock_calm _ ret
  by_cases hsignaled : (lk.event e).signaled = true
  · rw [if_pos hsignaled]
    have hcalm : Calm (if (lk.event e).autounsignal then do
          .modify fun lk => lk.setEvent e fun event => { event with signaled := false }
          pure NO_ERROR
        else pure NO_ERROR) :=
      .ite ((setEvent_calm e _).bind fun _ => .pure _) (.pure _)
    exact (hcalm.comes (by simp [Op.Reschedules, hsignaled])).from hin
  · rw [if_neg hsignaled]
    refine ((waitQueueBlock_comes (hin.wf h) ?_ (by simp)).from hin).imp ?_ fun _ => id
    · rw [hin.currentThread]
      exact hidle
    · simp [Op.Reschedules, hsignaled]

theorem eventSignal_comes (h : lk.Wf) (e : EventId) (reschedule : Bool) :
    Comes (Op.Reschedules lk (.eventSignal e reschedule)) lk.Leads
      ((eventSignal e reschedule).run lk) := by
  have hin : lk.Still ((lk.lock.useEvent e).note (.signal e (lk.event e).signaled)) :=
    (Kernel.Still.lockEvent lk e).trans (.of_eq rfl)
  simp only [eventSignal, Section.run_bind, lockThreads_run, Section.run_modify,
    Section.run_read, Susp.done_bind, Kernel.lockEvent_event]
  by_cases hsignaled : (lk.event e).signaled = true
  · simp only [hsignaled, Bool.not_true, Bool.false_eq_true, if_false] at hin ⊢
    exact ((unlock_calm _ _).comes (by simp [Op.Reschedules, hsignaled])).from hin
  have hwake : (reschedule = true ∧ (lk.wait (.event e)).list ≠ []) ↔
      Op.Reschedules lk (.eventSignal e reschedule) := by
    simp [Op.Reschedules, hsignaled]
  rw [if_pos (by simp [hsignaled])]
  by_cases hauto : (lk.event e).autounsignal = true
  · simp only [if_pos hauto, Section.run_bind]
    refine (((waitQueueWakeOne_comes (hin.wf h)).from hin).bind fun r => ?_).imp ?_ fun _ => id
    · exact .ite ((useEvent_calm e).bind fun _ => (setEvent_calm e _).bind fun _ => unlock_calm _ _)
        (unlock_calm _ _)
    · rw [hin.list]
      exact hwake
  · have hset : lk.Still (((lk.lock.useEvent e).note (.signal e (lk.event e).signaled)).setEvent e
        fun event => { event with signaled := true }) := hin.trans (.of_eq rfl)
    simp only [if_neg hauto, Section.run_bind, Section.run_modify, Susp.done_bind]
    refine (((waitQueueWakeAll_comes (hset.wf h)).from hset).bind fun _ => unlock_calm _ _).imp ?_
      fun _ => id
    rw [hset.list]
    exact hwake

theorem eventSignal_inPlace (h : lk.Wf) (e : EventId)
    (hnot : ¬ Op.Reschedules lk (.eventSignal e true)) :
    ∃ r lk', (eventSignal e true).run lk = .done r lk' ∧ lk.Still lk' := by
  have hin : lk.Still ((lk.lock.useEvent e).note (.signal e (lk.event e).signaled)) :=
    (Kernel.Still.lockEvent lk e).trans (.of_eq rfl)
  have hend : ∀ {x : Section Kernel Status} {lk' : Kernel}, Calm x → lk.Still lk' →
      ∃ r lk'', x.run lk' = .done r lk'' ∧ lk.Still lk'' := by
    intro x lk' hx hlk'
    obtain ⟨r, lk'', hrun, hlk''⟩ := hx lk'
    exact ⟨r, lk'', hrun, hlk'.trans hlk''⟩
  simp only [eventSignal, Section.run_bind, lockThreads_run, Section.run_modify,
    Section.run_read, Susp.done_bind, Kernel.lockEvent_event]
  by_cases hsignaled : (lk.event e).signaled = true
  · simp only [hsignaled, Bool.not_true, Bool.false_eq_true, if_false] at hin ⊢
    exact hend (unlock_calm _ _) hin
  have hlist : (lk.wait (.event e)).list = [] := by
    by_contra hne
    exact hnot ⟨Bool.eq_false_iff.mpr hsignaled, rfl, hne⟩
  rw [if_pos (by simp [hsignaled])]
  by_cases hauto : (lk.event e).autounsignal = true
  · simp only [if_pos hauto, Section.run_bind, waitQueueWakeOne_nil ((hin.list _).trans hlist),
      Susp.done_bind]
    exact hend (.ite ((useEvent_calm e).bind fun _ => (setEvent_calm e _).bind fun _ =>
      unlock_calm _ _) (unlock_calm _ _)) hin
  · have hset : lk.Still (((lk.lock.useEvent e).note (.signal e (lk.event e).signaled)).setEvent e
        fun event => { event with signaled := true }) := hin.trans (.of_eq rfl)
    simp only [if_neg hauto, Section.run_bind, Section.run_modify, Susp.done_bind,
      waitQueueWakeAll_nil (hset.wf h) ((hset.list _).trans hlist)]
    exact ⟨_, _, rfl, hset.trans (.of_eq rfl)⟩

/-- Every operation comes to `thread_resched` once, or comes to its end without it. -/
theorem perform_comes {op : Op} (h : lk.Wf)
    (hidle : op.forIdle = false → lk.currentThread ≠ idleThread) :
    Comes (op.Reschedules lk) (fun lk' => (op.keepsRanks = true → lk.SameRanks lk') ∧
      lk'.currentThread = lk.currentThread ∧ ∀ t, (lk'.threads t).share = op.shareAfter lk t)
      ((perform op).run lk) := by
  have hleads : ∀ {P : Prop} {x : Susp Kernel Int},
      (∀ t, op.shareAfter lk t = (lk.threads t).share) → Comes P lk.Leads x →
      Comes P (fun lk' => (op.keepsRanks = true → lk.SameRanks lk') ∧
        lk'.currentThread = lk.currentThread ∧
        ∀ t, (lk'.threads t).share = op.shareAfter lk t) x :=
    fun hshare hx => hx.imp Iff.rfl fun _ hs =>
      ⟨fun _ => hs.toSameRanks, hs.currentThread, fun t => (hs.share t).trans (hshare t).symm⟩
  have hlock : lk.lock.Wf := h
  cases op with
  | threadCreate priority entry =>
    obtain ⟨r, lk', hrun⟩ : ∃ r lk', (threadCreate priority entry).run lk = .done r lk' :=
      ⟨_, _, rfl⟩
    refine .inr ⟨id, r, lk', ?_, by simp [Op.keepsRanks], ?_, fun t => ?_⟩
    · rw [perform, returning, Section.run_bind, hrun, Susp.done_bind, Section.run_pure]
      rfl
    · cases hrun
      rfl
    · exact threadCreate_share hrun t
  | threadSetPriority priority =>
    refine .inl ⟨trivial, ?_⟩
    have hresched := (threadSetPriority_reschedules h priority).bind (f := fun _ => pure 0)
      fun _ => .pure (0 : Int)
    exact hresched.mono fun _ hs => ⟨by simp [Op.keepsRanks], hs.2.2⟩
  | threadResume t =>
    obtain ⟨r, lk', hrun, hs⟩ := threadResume_run lk t
    exact hleads (fun _ => rfl) (returning_comes (.inr ⟨id, r, lk', hrun, hs⟩) _)
  | threadYield =>
    have hyield := (threadYield_reschedules h).bind (f := fun _ => pure 0)
      fun _ => .pure (0 : Int)
    exact .inl ⟨trivial, hyield.mono fun _ hs => ⟨fun _ => hs.1, hs.2.2⟩⟩
  | threadPreempt =>
    have hpreempt := (threadPreempt_reschedules h).mono fun _ hs => hs.1
    exact hleads (fun _ => rfl) (returning_comes (.inl ⟨trivial, hpreempt⟩) _)
  | threadExit retcode =>
    have hexit := threadExit_reschedules h (hidle rfl) retcode
    exact hleads (fun _ => rfl) (returning_comes (.inl ⟨trivial, hexit⟩) _)
  | threadJoin t timeout => exact hleads (fun _ => rfl) (threadJoin_comes h (hidle rfl) t timeout)
  | threadDetach t => exact hleads (fun _ => rfl) (returning_comes (threadDetach_comes h t) _)
  | waitQueueBlock w timeout =>
    exact hleads (fun _ => rfl) (locked_comes (waitQueueBlock_comes hlock (hidle rfl) (by simp)))
  | waitQueueWakeOne w reschedule err =>
    exact hleads (fun _ => rfl) (locked_comes (waitQueueWakeOne_comes hlock))
  | waitQueueWakeAll w reschedule err =>
    exact hleads (fun _ => rfl) (locked_comes (waitQueueWakeAll_comes hlock))
  | waitQueueDestroy w reschedule =>
    exact hleads (fun _ => rfl) (returning_comes (locked_comes (waitQueueDestroy_comes hlock)) _)
  | threadUnblock t err =>
    obtain ⟨r, lk', hrun, hs⟩ := threadUnblock_run lk.lock t err
    exact hleads (fun _ => rfl) (locked_comes (.inr ⟨id, r, lk', hrun, hs⟩))
  | semPost s resched => exact hleads (fun _ => rfl) (semPost_comes h s resched)
  | semWait s => exact hleads (fun _ => rfl) (semWait_comes h (hidle rfl) s)
  | semTrywait s => exact hleads (fun _ => rfl) ((semTrywait_calm s).comes id)
  | semTimedwait s timeout =>
    exact hleads (fun _ => rfl) (semTimedwait_comes h (hidle rfl) s timeout)
  | semDestroy s => exact hleads (fun _ => rfl) (returning_comes (semDestroy_comes h s) _)
  | mutexAcquire m timeout =>
    exact hleads (fun _ => rfl) (mutexAcquire_comes h (hidle rfl) m timeout)
  | mutexRelease m => exact hleads (fun _ => rfl) (mutexRelease_comes h m)
  | mutexDestroy m => exact hleads (fun _ => rfl) (returning_comes (mutexDestroy_comes h m) _)
  | eventWait e timeout => exact hleads (fun _ => rfl) (eventWait_comes h (hidle rfl) e timeout)
  | eventSignal e reschedule => exact hleads (fun _ => rfl) (eventSignal_comes h e reschedule)
  | eventDestroy e => exact hleads (fun _ => rfl) (returning_comes (eventDestroy_comes h e) _)

end Operations

end UefiLkl.Lk
