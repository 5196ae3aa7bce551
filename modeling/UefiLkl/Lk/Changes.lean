import Mathlib.Logic.Relation
import UefiLkl.Lk.Queues
set_option autoImplicit false

/-!
What a segment of an operation can do to the kernel, as a sequence of single changes; what
they leave alone follows from that.
-/

namespace UefiLkl.Lk
open Coroutine

/-- The wait queue of the object the operation is on, run by thread `c`. -/
def Op.on (c : Tid) : Op → Option Wq
  | .threadExit _ => some (.retcode c)
  | .threadJoin t _ | .threadDetach t => some (.retcode t)
  | .waitQueueBlock w _ | .waitQueueWakeOne w _ _ | .waitQueueWakeAll w _ _ => some (.other w)
  | .waitQueueDestroy w _ => some (.other w)
  | .semPost s _ | .semWait s | .semTrywait s | .semTimedwait s _ | .semDestroy s => some (.sem s)
  | .mutexAcquire m _ | .mutexRelease m | .mutexDestroy m => some (.mutex m)
  | .eventWait e _ | .eventSignal e _ | .eventDestroy e => some (.event e)
  | .threadCreate _ _ | .threadResume _ | .threadYield | .threadPreempt => none
  | .threadSetPriority _ | .threadUnblock _ _ => none

/-- The wait queue the operation may block on. -/
def Op.waitsOn : Op → Option Wq
  | .threadJoin t _ => some (.retcode t)
  | .waitQueueBlock w _ => some (.other w)
  | .semWait s | .semTimedwait s _ => some (.sem s)
  | .mutexAcquire m _ => some (.mutex m)
  | .eventWait e _ => some (.event e)
  | _ => none

theorem Op.on_of_waitsOn {op : Op} {q : Wq} (h : op.waitsOn = some q) (c : Tid) :
    op.on c = some q := by
  cases op <;> first | exact h | cases h

theorem Op.eq_eventWait {op : Op} {e : EventId} (h : op.waitsOn = some (.event e)) :
    ∃ timeout, op = .eventWait e timeout := by
  cases op with
  | eventWait e' timeout =>
    cases h
    exact ⟨timeout, rfl⟩
  | _ => cases h

/-- The operation waits until its time is over at most. -/
def Op.timed : Op → Bool
  | .threadJoin _ timeout | .waitQueueBlock _ timeout | .semTimedwait _ timeout =>
    timeout ≠ INFINITE_TIME
  | .mutexAcquire _ timeout | .eventWait _ timeout => timeout ≠ INFINITE_TIME
  | _ => false

/-- The thread whose structure the operation uses, although it is not on its queue. -/
def Op.uses : Op → Option Tid
  | .threadResume t | .threadUnblock t _ => some t
  | _ => none

/-- The thread is ready, with a priority and a quantum. -/
structure Requeues (f : Thread → Thread) : Prop where
  magic : ∀ thread, (f thread).magic = thread.magic
  state : ∀ thread, (f thread).state = .ready
  detached : ∀ thread, (f thread).detached = thread.detached
  freeStack : ∀ thread, (f thread).freeStack = thread.freeStack
  freeStruct : ∀ thread, (f thread).freeStruct = thread.freeStruct
  blockingWaitQueue : ∀ thread, (f thread).blockingWaitQueue = thread.blockingWaitQueue
  waitQueueBlockRet : ∀ thread, (f thread).waitQueueBlockRet = thread.waitQueueBlockRet
  entry : ∀ thread, (f thread).entry = thread.entry
  retcode : ∀ thread, (f thread).retcode = thread.retcode

def Kernel.Waits (lk : Kernel) (q : Wq) (t : Tid) : Prop :=
  t ∈ (lk.wait q).list ∨
    (lk.threads t).state = .blocked ∧ (lk.threads t).blockingWaitQueue = some q

/-- One change, made by thread `c` in operation `op`. -/
inductive Kernel.Change (c : Tid) (op : Op) : Kernel → Kernel → Prop where
  | lock (lk : Kernel) : Change c op lk lk.lock
  | unlock (lk : Kernel) (state : Bool) : Change c op lk (lk.unlock state)
  | arm (lk : Kernel) (b : Bool) (hb : b = true → op.timed = true) : Change c op lk (lk.arm c b)
  | requeue (lk : Kernel) (f : Thread → Thread) (hf : Requeues f) :
    Change c op lk (lk.setThread c f)
  | insertHead (lk : Kernel) (t : Tid) (ht : (lk.threads t).state = .ready) :
    Change c op lk (lk.insertInRunQueueHead t)
  | insertTail (lk : Kernel) (t : Tid) (ht : (lk.threads t).state = .ready) :
    Change c op lk (lk.insertInRunQueueTail t)
  | pick (lk : Kernel) : Change c op lk (lk.getTopThread.2.setState lk.getTopThread.1 .running)
  | switch (lk : Kernel) (t : Tid) :
    Change c op lk { lk.setUpQuantum t with currentThread := t }
  | enqueue (lk : Kernel) (q : Wq) (hq : op.waitsOn = some q) : Change c op lk (lk.enqueue q c)
  | dequeue (lk : Kernel) (q : Wq) (rest : List Tid) (t : Tid) (err : Status)
    (ht : lk.Waits q t) (hrest : rest.Sublist (lk.wait q).list)
    (hq : op.on c = some q ∨ op = .threadUnblock t err) :
    Change c op lk (lk.dequeue q rest t err)
  | magic (lk : Kernel) (q : Wq) (b : Bool) (hq : op.on c = some q) :
    Change c op lk (lk.setWait q fun wait => { wait with magic := b })
  | create (lk : Kernel) (priority : Priority) (entry : Entry)
    (hop : op = .threadCreate priority entry) :
    Change c op lk (lk.addThread none lk.nextTid priority entry)
  | link (lk : Kernel) (t : Tid) : Change c op lk { lk with threadList := t :: lk.threadList }
  | resume (lk : Kernel) (t : Tid) (hop : op = .threadResume t)
    (ht : (lk.threads t).state = .suspended) : Change c op lk (lk.setState t .ready)
  | useThread (lk : Kernel) (t : Tid) (hq : op.on c = some (.retcode t) ∨ op.uses = some t) :
    Change c op lk (lk.useThread t)
  | joined (lk : Kernel) (t : Tid) (retcode : Int) (hq : op.on c = some (.retcode t)) :
    Change c op lk (lk.note (.joined c t retcode))
  | unlink (lk : Kernel) (t : Tid) (hq : op.on c = some (.retcode t)) : Change c op lk (lk.unlink t)
  | detach (lk : Kernel) (t : Tid) (b : Bool) (hop : op = .threadDetach t) :
    Change c op lk (lk.setThread t fun thread => { thread with detached := b })
  | exit (lk : Kernel) (retcode : Int) (hop : op = .threadExit retcode) :
    Change c op lk (lk.setThread c fun thread =>
      { thread with state := .death, retcode := retcode })
  | sem (lk : Kernel) (s : SemId) (n : Int) (hq : op.on c = some (.sem s)) :
    Change c op lk { lk with sem := Function.update lk.sem s n }
  | mutex (lk : Kernel) (m : Nat) (f : Mutex → Mutex) (hq : op.on c = some (.mutex m)) :
    Change c op lk (lk.setMutex m f)
  | event (lk : Kernel) (e : EventId) (f : Event → Event) (hq : op.on c = some (.event e)) :
    Change c op lk (lk.setEvent e f)
  | useEvent (lk : Kernel) (e : EventId) (hq : op.on c = some (.event e)) :
    Change c op lk (lk.useEvent e)
  | signal (lk : Kernel) (e : EventId) (b : Bool) (hq : op.on c = some (.event e)) :
    Change c op lk (lk.note (.signal e b))

abbrev Kernel.Changes (c : Tid) (op : Op) : Kernel → Kernel → Prop :=
  Relation.ReflTransGen (Kernel.Change c op)

def Changing (c : Tid) (op : Op) {α : Type} (x : Section Kernel α) : Prop :=
  x.Moves (fun lk => lk.currentThread = c) (Kernel.Changes c op)

section Rules

variable {c : Tid} {op : Op} {α β : Type}

theorem Changing.bind {x : Section Kernel α} {f : α → Section Kernel β} (hx : Changing c op x)
    (hf : ∀ a, Changing c op (f a)) : Changing c op (x >>= f) :=
  Section.Moves.bind (fun _ _ _ => Relation.ReflTransGen.trans) hx hf

theorem Changing.pure (a : α) : Changing c op (Pure.pure a) :=
  Section.Moves.pure (fun _ => .refl) a

theorem Changing.read (f : Kernel → α) : Changing c op (.read f) :=
  Section.Moves.read (fun _ => .refl) f

theorem Changing.modify {f : Kernel → Kernel}
    (h : ∀ lk : Kernel, lk.currentThread = c → Kernel.Change c op lk (f lk))
    (hc : ∀ lk, (f lk).currentThread = lk.currentThread) : Changing c op (.modify f) :=
  Section.Moves.modify fun lk hlk => ⟨.single (h lk hlk), (hc lk).trans hlk⟩

theorem Changing.ite {p : Prop} [Decidable p] {x y : Section Kernel α} (hx : Changing c op x)
    (hy : Changing c op y) : Changing c op (if p then x else y) := by
  split
  · exact hx
  · exact hy

theorem Changing.current {f : Tid → Section Kernel α} (hf : Changing c op (f c)) :
    Changing c op (getCurrentThread >>= f) := by
  intro lk hlk
  rw [Section.run_bind, getCurrentThread_run, Susp.done_bind, hlk]
  exact hf lk hlk

theorem Changing.lock {f : Bool → Section Kernel α} (hf : ∀ state, Changing c op (f state)) :
    Changing c op (lockThreads >>= f) :=
  Changing.bind (fun lk hlk => ⟨.single (.lock lk), hlk⟩) hf

theorem unlockThreads_changing (state : Bool) : Changing c op (unlockThreads state) :=
  .modify (fun lk _ => .unlock lk state) fun _ => rfl

theorem unlock_changing (state : Bool) (a : α) :
    Changing c op (do unlockThreads state; Pure.pure a) :=
  (unlockThreads_changing state).bind fun _ => .pure a

theorem threadResched_changing : Changing c op threadResched := by
  intro lk hlk
  have hcurrent : lk.getTopThread.2.currentThread = lk.currentThread := by
    unfold Kernel.getTopThread
    rcases lk.scan_spec (List.finRange 32).reverse with ⟨heq, -⟩ | ⟨p, ts, -, -, heq⟩
    · rw [heq]
    · rw [heq]
  have hpick : Kernel.Change c op lk _ := .pick lk
  simp only [threadResched]
  split
  · exact ⟨.single hpick, hcurrent.trans hlk⟩
  · exact ⟨.tail (.single hpick) (.switch _ _), fun lk' hlk' => ⟨.refl, hlk'⟩⟩

theorem Changing.go {x : Section Kernel α} (hx : Changing c op x) {lk lk' : Kernel}
    (h : Kernel.Changes c op lk lk') (hc : lk'.currentThread = c) :
    (x.run lk').Moves (fun lk => lk.currentThread = c) (Kernel.Changes c op) lk :=
  (hx lk' hc).from (fun _ _ _ => Relation.ReflTransGen.trans) h

end Rules

section Scheduler

variable {c : Tid} {op : Op}

theorem Kernel.Changes.requeueHead (lk : Kernel) {f : Thread → Thread} (hf : Requeues f) :
    Kernel.Changes c op lk ((lk.setThread c f).insertInRunQueueHead c) :=
  .tail (.single (.requeue lk f hf)) (.insertHead _ c (by rw [Kernel.setThread_self, hf.state]))

theorem Kernel.Changes.requeueTail (lk : Kernel) {f : Thread → Thread} (hf : Requeues f) :
    Kernel.Changes c op lk ((lk.setThread c f).insertInRunQueueTail c) :=
  .tail (.single (.requeue lk f hf)) (.insertTail _ c (by rw [Kernel.setThread_self, hf.state]))

theorem requeues_ready : Requeues fun thread => { thread with state := .ready } := by
  constructor <;> exact fun _ => rfl

theorem resched_changing (state : Bool) :
    Changing c op (do threadResched; unlockThreads state) :=
  threadResched_changing.bind fun _ => unlockThreads_changing state

theorem threadYield_changing : Changing c op threadYield := by
  refine .current (.lock fun state => ?_)
  have hf : Requeues fun thread => { thread with state := .ready, remainingQuantum := 0 } := by
    constructor <;> exact fun _ => rfl
  intro lk hlk
  simp only [Section.run_bind, Section.run_modify, Section.run_read, Susp.done_bind]
  split
  · exact (resched_changing state).go (.requeueTail lk hf) hlk
  · exact (resched_changing state).go (.single (.requeue lk _ hf)) hlk

theorem threadPreempt_changing : Changing c op threadPreempt := by
  refine .current (.lock fun state => ?_)
  intro lk hlk
  simp only [Section.run_bind, Section.run_modify, Section.run_read, Susp.done_bind]
  split
  · split
    · exact (resched_changing state).go (.requeueHead lk requeues_ready) hlk
    · exact (resched_changing state).go (.requeueTail lk requeues_ready) hlk
  · exact (resched_changing state).go (.single (.requeue lk _ requeues_ready)) hlk

theorem threadSetPriority_changing (priority : Int) :
    Changing c op (threadSetPriority priority) := by
  refine .current (.lock fun state => ?_)
  intro lk hlk
  simp only [Section.run_bind, Section.run_modify, Susp.done_bind]
  exact (resched_changing state).go (.requeueHead lk (by constructor <;> exact fun _ => rfl)) hlk

theorem useThread_changing {t : Tid} (hq : op.on c = some (.retcode t) ∨ op.uses = some t) :
    Changing c op (.modify fun lk => lk.useThread t) := by
  refine .modify (fun lk _ => .useThread lk t hq) fun lk => ?_
  unfold Kernel.useThread
  split <;> rfl

theorem threadResume_changing (t : Tid) :
    Changing c (.threadResume t) (threadResume t) := by
  refine .bind (.read _) fun intsDisabled => .lock fun state =>
    .bind (useThread_changing (.inr rfl)) fun _ => ?_
  intro lk hlk
  simp only [Section.run_bind, Section.run_read, Susp.done_bind, Section.run_ite]
  split
  · next ht =>
    exact (unlock_changing state _).go (.tail (.single (.resume lk t rfl ht))
      (.insertHead _ t (by simp [Kernel.setState]))) hlk
  · exact unlock_changing state _ lk hlk

theorem threadCreate_changing (priority : Priority) (entry : Entry) :
    Changing c (.threadCreate priority entry) (threadCreate priority entry) := by
  intro lk hlk
  simp only [threadCreate, threadCreateEtc, Section.run_bind, Section.run_read, Susp.done_bind,
    Section.run_modify, Option.getD_none]
  have hlink : Changing c (.threadCreate priority entry) (do
      let state ← lockThreads
      .modify fun lk' => { lk' with threadList := lk.nextTid :: lk'.threadList }
      unlockThreads state
      pure lk.nextTid) :=
    .lock fun state => .bind (.modify (fun lk' _ => .link lk' lk.nextTid) fun _ => rfl)
      fun _ => unlock_changing state _
  exact hlink.go (.single (.create lk priority entry rfl)) hlk

end Scheduler

section WaitQueues

variable {c : Tid} {op : Op} {q : Wq}

theorem waitQueueBlock_changing (hq : op.waitsOn = some q) {timeout : LkTime}
    (htimed : timeout ≠ INFINITE_TIME → op.timed = true) :
    Changing c op (waitQueueBlock q timeout) := by
  have hend : Changing c op (do
      threadResched
      if timeout ≠ INFINITE_TIME then .modify fun lk => lk.arm c false
      .read fun lk => (lk.threads c).waitQueueBlockRet) :=
    threadResched_changing.bind fun _ =>
      .ite (.bind (.modify (fun lk _ => .arm lk false nofun) fun _ => rfl) fun _ => .read _)
        (.read _)
  refine .current (.ite (.pure _) (.bind (.modify (fun lk _ => .enqueue lk q hq) fun _ => rfl)
    fun _ => ?_))
  by_cases hinf : timeout ≠ INFINITE_TIME
  · rw [if_pos hinf]
    exact .bind (.modify (fun lk _ => .arm lk true fun _ => htimed hinf) fun _ => rfl) fun _ => hend
  · rw [if_neg hinf]
    exact hend

theorem waitQueueWakeOne_changing (hq : op.on c = some q) (reschedule : Bool) (err : Status) :
    Changing c op (waitQueueWakeOne q reschedule err) := by
  refine .current ?_
  intro lk hlk
  simp only [Section.run_bind, Section.run_read, Susp.done_bind]
  cases hlist : (lk.wait q).list with
  | nil => exact Changing.pure _ lk hlk
  | cons t rest =>
    have hdequeue : Kernel.Change c op lk (lk.dequeue q rest t err) :=
      .dequeue lk q rest t err (.inl (by simp [hlist])) (by simp [hlist]) (.inl hq)
    have hready : ((lk.dequeue q rest t err).threads t).state = .ready := Kernel.dequeue_ready
    cases reschedule with
    | false => exact (Changing.pure _).go (.tail (.single hdequeue) (.insertHead _ t hready)) hlk
    | true =>
      have hready' : ((((lk.dequeue q rest t err).setState c .ready).insertInRunQueueHead
          c).threads t).state = .ready := by
        by_cases ht : t = c
        · rw [ht]
          simp [Kernel.insertInRunQueueHead, Kernel.setState]
        · simp [Kernel.insertInRunQueueHead, Kernel.setState, Kernel.setThread, ht]
      simp only [if_true, Section.run_bind, Section.run_modify, Susp.done_bind]
      exact (threadResched_changing.bind fun _ => .pure _).go (.tail
        (.trans (.single hdequeue) (Kernel.Changes.requeueHead _ requeues_ready))
          (.insertHead _ t hready')) hlk

theorem Kernel.Changes.popAll (hq : op.on c = some q) (err : Status) {list : List Tid}
    {lk : Kernel} (hlist : (lk.wait q).list = list) :
    Kernel.Changes c op lk (Kernel.popAll q err list lk) := by
  induction list generalizing lk with
  | nil => exact .refl
  | cons t rest ih =>
    have hdequeue : Kernel.Change c op lk (lk.dequeue q rest t err) :=
      .dequeue lk q rest t err (.inl (by simp [hlist])) (by simp [hlist]) (.inl hq)
    have hready : ((lk.dequeue q rest t err).threads t).state = .ready := Kernel.dequeue_ready
    refine .trans (.tail (.single hdequeue) (.insertHead _ t hready)) (ih ?_)
    simp [Kernel.insertInRunQueueHead, Kernel.dequeue, Kernel.note, Kernel.setThread,
      Kernel.setWait]

theorem waitQueueWakeAll_changing (hq : op.on c = some q) (reschedule : Bool) (err : Status) :
    Changing c op (waitQueueWakeAll q reschedule err) := by
  have hpop : Changing c op (do
      let list ← .read fun lk => (lk.wait q).list
      .modify (Kernel.popAll q err list)
      if list.length > 0 then
        if reschedule then threadResched
      pure (list.length : Int)) := by
    intro lk hlk
    have hchanges := Kernel.Changes.popAll hq err (rfl : (lk.wait q).list = _)
    simp only [Section.run_bind, Section.run_read, Susp.done_bind, Section.run_modify]
    have hend : Changing c op (if (lk.wait q).list.length > 0 then if reschedule then do
        threadResched
        pure ((lk.wait q).list.length : Int)
      else pure ((lk.wait q).list.length : Int) else pure ((lk.wait q).list.length : Int)) :=
      .ite (.ite (threadResched_changing.bind fun _ => .pure _) (.pure _)) (.pure _)
    exact hend.go hchanges ((Kernel.popAll_currentThread _ _ _ _).trans hlk)
  refine .current (.bind (.read _) fun count => ?_)
  intro lk hlk
  rw [Section.run_ite]
  split
  · exact hpop.go (.requeueHead lk requeues_ready) hlk
  · exact hpop lk hlk

theorem waitQueueDestroy_changing (hq : op.on c = some q) (reschedule : Bool) :
    Changing c op (waitQueueDestroy q reschedule) :=
  (waitQueueWakeAll_changing hq reschedule _).bind fun _ =>
    .modify (fun lk _ => .magic lk q false hq) fun _ => rfl

theorem threadUnblock_changing (t : Tid) (err : Status) :
    Changing c (.threadUnblock t err) (threadUnblockFromWaitQueue t err) := by
  refine .bind (useThread_changing (.inr rfl)) fun _ => ?_
  intro lk hlk
  simp only [Section.run_bind, Section.run_read, Susp.done_bind,
    Section.run_ite]
  split
  · exact Changing.pure _ lk hlk
  · next hstate =>
    cases hqueue : (lk.threads t).blockingWaitQueue with
    | none => exact Changing.pure _ lk hlk
    | some q =>
      have hdequeue : Kernel.Change c (.threadUnblock t err) lk
          (lk.dequeue q ((lk.wait q).list.erase t) t err) :=
        .dequeue lk q _ t err (.inr ⟨not_not.mp hstate, hqueue⟩) List.erase_sublist (.inr rfl)
      exact (Changing.pure _).go (.tail (.single hdequeue)
        (.insertHead _ t (by simp [Kernel.dequeue, Kernel.note]))) hlk

end WaitQueues

section Operations

variable {c : Tid} {op : Op}

theorem threadJoin_changing (t : Tid) (timeout : LkTime) :
    Changing c (.threadJoin t timeout) (threadJoin t timeout) := by
  refine .current (.lock fun state => .bind (useThread_changing (.inl rfl)) fun _ =>
    .bind (.read _) fun thread => .ite (unlock_changing state _) ?_)
  refine .bind (.ite (waitQueueBlock_changing rfl decide_eq_true) (.pure _)) fun err =>
    .ite (unlock_changing state _) ?_
  refine .bind (useThread_changing (.inl rfl)) fun _ => .bind ?_ fun _ => .bind ?_ fun _ =>
    unlock_changing state _
  · exact .modify (fun lk _ => .joined lk t _ rfl) fun _ => rfl
  · exact .modify (fun lk _ => .unlink lk t rfl) fun _ => rfl

theorem threadDetach_changing (t : Tid) :
    Changing c (.threadDetach t) (threadDetach t) :=
  .lock fun state => .bind (useThread_changing (.inl rfl)) fun _ =>
    .bind (waitQueueWakeAll_changing rfl _ _) fun _ => .bind (.read _) fun dead =>
      .bind (.modify (fun lk _ => .detach lk t (!dead) rfl) fun _ => rfl) fun _ =>
        unlock_changing state _

theorem threadExit_changing (retcode : Int) :
    Changing c (.threadExit retcode) (threadExit retcode) := by
  refine .current (.lock fun state => .bind (useThread_changing (.inl rfl)) fun _ =>
    .bind (.modify (fun lk _ => .exit lk retcode rfl) fun _ => rfl) fun _ =>
      .bind (.read _) fun detached => .ite ?_ ?_)
  · exact .bind (.modify (fun lk _ => .unlink lk c rfl) fun _ => rfl) fun _ =>
      threadResched_changing
  · exact .bind (waitQueueWakeAll_changing rfl _ _) fun _ => threadResched_changing

theorem addCount_changing {s : SemId} (hq : op.on c = some (.sem s)) (n : Int) :
    Changing c op (addCount s n) :=
  .bind (.modify (fun lk _ => .sem lk s _ hq) fun _ => rfl) fun _ => .read _

theorem semPost_changing (s : SemId) (resched : Bool) :
    Changing c (.semPost s resched) (semPost s resched) :=
  .lock fun state => .bind (addCount_changing rfl 1) fun _ =>
    .bind (.ite (waitQueueWakeOne_changing rfl _ _) (.pure _)) fun _ => unlock_changing state _

theorem semWait_changing (s : SemId) : Changing c (.semWait s) (semWait s) :=
  .lock fun state => .bind (addCount_changing rfl (-1)) fun _ =>
    .bind (.ite (waitQueueBlock_changing rfl fun h => absurd rfl h) (.pure _)) fun _ =>
      unlock_changing state _

theorem semTrywait_changing (s : SemId) : Changing c (.semTrywait s) (semTrywait s) :=
  .lock fun state => .bind (.read _) fun _ => .ite (unlock_changing state _)
    (.bind (addCount_changing rfl (-1)) fun _ => unlock_changing state _)

theorem semTimedwait_changing (s : SemId) (timeout : LkTime) :
    Changing c (.semTimedwait s timeout) (semTimedwait s timeout) :=
  .lock fun state => .bind (addCount_changing rfl (-1)) fun _ =>
    .bind (.ite (waitQueueBlock_changing rfl decide_eq_true) (.pure _)) fun _ =>
      .ite (.bind (addCount_changing rfl 1) fun _ => unlock_changing state _)
        (unlock_changing state _)

theorem semDestroy_changing (s : SemId) : Changing c (.semDestroy s) (semDestroy s) :=
  .lock fun state => .bind (.modify (fun lk _ => .sem lk s 0 rfl) fun _ => rfl) fun _ =>
    .bind (waitQueueDestroy_changing rfl _) fun _ => unlockThreads_changing state

theorem setMutex_changing {m : Nat} (hq : op.on c = some (.mutex m)) (f : Mutex → Mutex) :
    Changing c op (.modify fun lk => lk.setMutex m f) :=
  .modify (fun lk _ => .mutex lk m f hq) fun _ => rfl

theorem mutexDestroy_changing (m : Nat) : Changing c (.mutexDestroy m) (mutexDestroy m) :=
  .lock fun state => .bind (setMutex_changing rfl _) fun _ =>
    .bind (waitQueueDestroy_changing rfl _) fun _ => unlockThreads_changing state

theorem mutexAcquire_changing (m : Nat) (timeout : LkTime) :
    Changing c (.mutexAcquire m timeout) (mutexAcquireTimeout m timeout) :=
  .current (.lock fun state => .bind (setMutex_changing rfl _) fun _ => .bind (.read _) fun _ =>
    .bind (.ite (waitQueueBlock_changing rfl decide_eq_true) (.pure _)) fun _ =>
      .ite (.ite (.bind (setMutex_changing rfl _) fun _ => unlock_changing state _)
        (unlock_changing state _)) (.bind (setMutex_changing rfl _) fun _ =>
          unlock_changing state _))

theorem mutexRelease_changing (m : Nat) : Changing c (.mutexRelease m) (mutexRelease m) :=
  .lock fun state => .bind (setMutex_changing rfl _) fun _ => .bind (.read _) fun _ =>
    .ite (.bind (waitQueueWakeOne_changing rfl _ _) fun _ => unlock_changing state _)
      (unlock_changing state _)

theorem useEvent_changing {e : EventId} (hq : op.on c = some (.event e)) :
    Changing c op (.modify fun lk => lk.useEvent e) := by
  refine .modify (fun lk _ => .useEvent lk e hq) fun lk => ?_
  unfold Kernel.useEvent
  cases e with
  | host e => rfl
  | timer τ => dsimp only; split <;> rfl

theorem setEvent_changing {e : EventId} (hq : op.on c = some (.event e)) (f : Event → Event) :
    Changing c op (.modify fun lk => lk.setEvent e f) :=
  .modify (fun lk _ => .event lk e f hq) fun _ => rfl

theorem eventDestroy_changing (e : EventId) : Changing c (.eventDestroy e) (eventDestroy e) :=
  .lock fun state => .bind (useEvent_changing rfl) fun _ => .bind (setEvent_changing rfl _) fun _ =>
    .bind (waitQueueWakeAll_changing rfl _ _) fun _ => .bind (useEvent_changing rfl) fun _ =>
      .bind (.modify (fun lk _ => .magic lk _ false rfl) fun _ => rfl) fun _ =>
        unlockThreads_changing state

theorem eventWait_changing (e : EventId) (timeout : LkTime) :
    Changing c (.eventWait e timeout) (eventWaitTimeout e timeout) :=
  .lock fun state => .bind (useEvent_changing rfl) fun _ => .bind (.read _) fun _ =>
    .bind (.ite (.ite (.bind (setEvent_changing rfl _) fun _ => .pure _) (.pure _))
      (waitQueueBlock_changing rfl decide_eq_true)) fun _ => unlock_changing state _

theorem eventSignal_changing (e : EventId) (reschedule : Bool) :
    Changing c (.eventSignal e reschedule) (eventSignal e reschedule) := by
  refine .lock fun state => .bind (useEvent_changing rfl) fun _ => .bind (.read _) fun event =>
    .bind (.modify (fun lk _ => .signal lk e _ rfl) fun _ => rfl) fun _ =>
      .ite (.ite ?_ ?_) (unlock_changing state _)
  · exact .bind (waitQueueWakeOne_changing rfl _ _) fun _ => .ite
      (.bind (useEvent_changing rfl) fun _ => .bind (setEvent_changing rfl _) fun _ =>
        unlock_changing state _) (unlock_changing state _)
  · exact .bind (setEvent_changing rfl _) fun _ => .bind (waitQueueWakeAll_changing rfl _ _)
      fun _ => unlock_changing state _

theorem locked_changing {α : Type} {x : Section Kernel α} (hx : Changing c op x) :
    Changing c op (locked x) :=
  .lock fun state => .bind hx fun _ => unlock_changing state _

theorem returning_changing {α : Type} {x : Section Kernel α} (hx : Changing c op x) (f : α → Int) :
    Changing c op (returning f x) :=
  .bind hx fun _ => .pure _

/-- Every operation is made of the changes. -/
theorem perform_changing (c : Tid) (op : Op) : Changing c op (perform op) := by
  cases op with
  | threadCreate priority entry => exact returning_changing (threadCreate_changing priority entry) _
  | threadResume t => exact returning_changing (threadResume_changing t) _
  | threadYield => exact returning_changing threadYield_changing _
  | threadPreempt => exact returning_changing threadPreempt_changing _
  | threadSetPriority priority => exact returning_changing (threadSetPriority_changing priority) _
  | threadExit retcode => exact returning_changing (threadExit_changing retcode) _
  | threadJoin t timeout => exact threadJoin_changing t timeout
  | threadDetach t => exact returning_changing (threadDetach_changing t) _
  | waitQueueBlock w timeout => exact locked_changing (waitQueueBlock_changing rfl decide_eq_true)
  | waitQueueWakeOne w r err => exact locked_changing (waitQueueWakeOne_changing rfl r err)
  | waitQueueWakeAll w r err => exact locked_changing (waitQueueWakeAll_changing rfl r err)
  | waitQueueDestroy w r =>
    exact returning_changing (locked_changing (waitQueueDestroy_changing rfl r)) _
  | threadUnblock t err => exact locked_changing (threadUnblock_changing t err)
  | semPost s resched => exact semPost_changing s resched
  | semWait s => exact semWait_changing s
  | semTrywait s => exact semTrywait_changing s
  | semTimedwait s timeout => exact semTimedwait_changing s timeout
  | semDestroy s => exact returning_changing (semDestroy_changing s) _
  | mutexAcquire m timeout => exact mutexAcquire_changing m timeout
  | mutexRelease m => exact mutexRelease_changing m
  | mutexDestroy m => exact returning_changing (mutexDestroy_changing m) _
  | eventWait e timeout => exact eventWait_changing e timeout
  | eventSignal e reschedule => exact eventSignal_changing e reschedule
  | eventDestroy e => exact returning_changing (eventDestroy_changing e) _

end Operations

theorem Kernel.getTopThread_eq (lk : Kernel) :
    lk.getTopThread.2 = { lk with
      runQueue := lk.getTopThread.2.runQueue
      runQueueBitmap := lk.getTopThread.2.runQueueBitmap } := by
  unfold Kernel.getTopThread
  rcases lk.scan_spec (List.finRange 32).reverse with ⟨heq, -⟩ | ⟨p, ts, -, -, heq⟩
  · rw [heq]
  · rw [heq]

theorem Kernel.useEvent_eq (lk : Kernel) (e : EventId) :
    lk.useEvent e = { lk with faults := (lk.useEvent e).faults } := by
  cases e with
  | host e => rfl
  | timer τ =>
    unfold Kernel.useEvent
    dsimp only
    split <;> rfl

theorem Kernel.setUpQuantum_eq (lk : Kernel) (t : Tid) :
    lk.setUpQuantum t = { lk with threads := (lk.setUpQuantum t).threads } := by
  unfold Kernel.setUpQuantum
  split <;> rfl

/-- The parts that are changed outside of the lock only. -/
structure Kernel.Steady (lk lk' : Kernel) : Prop where
  frames : lk'.frames = lk.frames
  doing : lk'.doing = lk.doing
  recursive : lk'.recursive = lk.recursive
  ltimer : lk'.ltimer = lk.ltimer
  nextTimer : lk'.nextTimer = lk.nextTimer
  structFrees : lk'.structFrees = lk.structFrees
  stackFrees : lk'.stackFrees = lk.stackFrees

section Frame

variable {c : Tid} {op : Op} {lk lk' : Kernel}

theorem Kernel.Change.steady (h : Kernel.Change c op lk lk') : lk.Steady lk' := by
  cases h with
  | pick => rw [Kernel.getTopThread_eq]; constructor <;> rfl
  | switch => rw [Kernel.setUpQuantum_eq]; constructor <;> rfl
  | useThread => rw [Kernel.useThread_eq]; constructor <;> rfl
  | useEvent => rw [Kernel.useEvent_eq]; constructor <;> rfl
  | _ => constructor <;> rfl

theorem Kernel.Change.sem_eq {s : SemId} (h : Kernel.Change c op lk lk')
    (hs : op.on c ≠ some (.sem s)) : lk'.sem s = lk.sem s := by
  cases h with
  | pick => rw [Kernel.getTopThread_eq]; rfl
  | switch => rw [Kernel.setUpQuantum_eq]
  | useThread => rw [Kernel.useThread_eq]
  | useEvent => rw [Kernel.useEvent_eq]
  | sem s' n hq =>
    refine Function.update_of_ne ?_ _ _
    rintro rfl
    exact hs hq
  | _ => rfl

theorem Kernel.Change.mutex_eq {m : Nat} (h : Kernel.Change c op lk lk')
    (hm : op.on c ≠ some (.mutex m)) : lk'.mutex m = lk.mutex m := by
  cases h with
  | pick => rw [Kernel.getTopThread_eq]; rfl
  | switch => rw [Kernel.setUpQuantum_eq]
  | useThread => rw [Kernel.useThread_eq]
  | useEvent => rw [Kernel.useEvent_eq]
  | mutex m' n hq =>
    refine Function.update_of_ne ?_ _ _
    rintro rfl
    exact hm hq
  | _ => rfl

theorem Kernel.Change.event_eq {e : EventId} (h : Kernel.Change c op lk lk')
    (he : op.on c ≠ some (.event e)) : lk'.event e = lk.event e := by
  cases h with
  | pick => rw [Kernel.getTopThread_eq]; rfl
  | switch => rw [Kernel.setUpQuantum_eq]
  | useThread => rw [Kernel.useThread_eq]
  | useEvent => rw [Kernel.useEvent_eq]
  | event e' n hq =>
    refine Function.update_of_ne ?_ _ _
    rintro rfl
    exact he hq
  | _ => rfl

theorem Kernel.Change.nextTid_le (h : Kernel.Change c op lk lk') : lk.nextTid ≤ lk'.nextTid := by
  cases h with
  | pick => rw [Kernel.getTopThread_eq]; exact le_rfl
  | switch => rw [Kernel.setUpQuantum_eq]
  | useThread => rw [Kernel.useThread_eq]
  | useEvent => rw [Kernel.useEvent_eq]
  | create => exact Nat.le_succ _
  | _ => exact le_rfl

/-- Only the thread itself goes onto a wait queue. -/
theorem Kernel.Change.mem_wait {q : Wq} {t : Tid} (h : Kernel.Change c op lk lk')
    (hmem : t ∈ (lk'.wait q).list) :
    t ∈ (lk.wait q).list ∨ t = c ∧ op.waitsOn = some q := by
  cases h with
  | pick => rw [Kernel.getTopThread_eq] at hmem; exact .inl hmem
  | switch => rw [Kernel.setUpQuantum_eq] at hmem; exact .inl hmem
  | useThread => rw [Kernel.useThread_eq] at hmem; exact .inl hmem
  | useEvent => rw [Kernel.useEvent_eq] at hmem; exact .inl hmem
  | enqueue q' hq =>
    by_cases heq : q = q'
    · subst heq
      have hmem' : t ∈ (lk.wait q).list ++ [c] := by
        simpa [Kernel.enqueue, Kernel.note, Kernel.setThread, Kernel.setWait] using hmem
      exact (List.mem_append.mp hmem').imp id fun h => ⟨List.mem_singleton.mp h, hq⟩
    · exact .inl (by simpa [Kernel.enqueue, Kernel.note, Kernel.setThread, Kernel.setWait,
        heq] using hmem)
  | dequeue q' rest t' err ht hrest hq =>
    by_cases heq : q = q'
    · subst heq
      exact .inl (hrest.subset (by
        simpa [Kernel.dequeue, Kernel.note, Kernel.setThread, Kernel.setWait] using hmem))
    · exact .inl (by simpa [Kernel.dequeue, Kernel.note, Kernel.setThread, Kernel.setWait,
        heq] using hmem)
  | magic q' b hq =>
    by_cases heq : q = q'
    · subst heq
      exact .inl (by simpa [Kernel.setWait] using hmem)
    · exact .inl (by simpa [Kernel.setWait, heq] using hmem)
  | create priority entry hop =>
    by_cases heq : q = .retcode lk.nextTid
    · simp [Kernel.addThread, heq, waitQueueInit] at hmem
    · exact .inl (by simpa [Kernel.addThread, heq] using hmem)
  | _ => exact .inl hmem

theorem Kernel.Changes.mem_wait {q : Wq} {t : Tid} (h : Kernel.Changes c op lk lk')
    (hmem : t ∈ (lk'.wait q).list) : t ∈ (lk.wait q).list ∨ t = c := by
  induction h with
  | refl => exact .inl hmem
  | tail _ hchange ih =>
    rcases hchange.mem_wait hmem with hmem | ⟨rfl, -⟩
    · exact ih hmem
    · exact .inr rfl

/-- What the structure of thread `u` becomes in a change. -/
inductive Kernel.Recast (lk : Kernel) (c : Tid) (op : Op) : Tid → Thread → Prop where
  | requeued (f : Thread → Thread) (hf : Requeues f) : Recast lk c op c (f (lk.threads c))
  | running (u : Tid) : Recast lk c op u { lk.threads u with state := .running }
  | quantum (u : Tid) : Recast lk c op u { lk.threads u with remainingQuantum := 5 }
  | blocked (q : Wq) (hq : op.waitsOn = some q) : Recast lk c op c
      { lk.threads c with
        state := .blocked
        blockingWaitQueue := some q
        waitQueueBlockRet := NO_ERROR }
  | woken (q : Wq) (u : Tid) (err : Status) (hu : lk.Waits q u)
    (hq : op.on c = some q ∨ op = .threadUnblock u err) : Recast lk c op u
      { lk.threads u with state := .ready, waitQueueBlockRet := err, blockingWaitQueue := none }
  | created (priority : Priority) (entry : Entry) (thread : Thread)
    (hop : op = .threadCreate priority entry) (hstate : thread.state = .suspended) :
    Recast lk c op lk.nextTid thread
  | resumed (u : Tid) (hu : (lk.threads u).state = .suspended) :
    Recast lk c op u { lk.threads u with state := .ready }
  | unlinked (u : Tid) (hq : op.on c = some (.retcode u)) :
    Recast lk c op u { lk.threads u with magic := false }
  | detached (u : Tid) (b : Bool) (hop : op = .threadDetach u) :
    Recast lk c op u { lk.threads u with detached := b }
  | dead (retcode : Int) (hop : op = .threadExit retcode) :
    Recast lk c op c { lk.threads c with state := .death, retcode := retcode }

theorem Kernel.Change.recast (h : Kernel.Change c op lk lk') :
    lk'.threads = lk.threads ∨
      ∃ u thread, lk.Recast c op u thread ∧ lk'.threads = Function.update lk.threads u thread := by
  cases h with
  | pick => rw [Kernel.getTopThread_eq]; exact .inr ⟨_, _, .running _, rfl⟩
  | switch u =>
    unfold Kernel.setUpQuantum
    split
    · exact .inr ⟨_, _, .quantum u, rfl⟩
    · exact .inl rfl
  | useThread => rw [Kernel.useThread_eq]; exact .inl rfl
  | useEvent => rw [Kernel.useEvent_eq]; exact .inl rfl
  | requeue f hf => exact .inr ⟨_, _, .requeued f hf, rfl⟩
  | enqueue q hq => exact .inr ⟨_, _, .blocked q hq, rfl⟩
  | dequeue q rest u err hu hrest hq => exact .inr ⟨_, _, .woken q u err hu hq, rfl⟩
  | create priority entry hop => exact .inr ⟨_, _, .created priority entry _ hop rfl, rfl⟩
  | resume u hop hu => exact .inr ⟨_, _, .resumed u hu, rfl⟩
  | unlink u hq => exact .inr ⟨_, _, .unlinked u hq, rfl⟩
  | detach u b hop => exact .inr ⟨_, _, .detached u b hop, rfl⟩
  | exit r hop => exact .inr ⟨_, _, .dead r hop, rfl⟩
  | _ => exact .inl rfl

/-- A thread is as before, or recast. -/
theorem Kernel.Change.thread (h : Kernel.Change c op lk lk') (t : Tid) :
    lk'.threads t = lk.threads t ∨ lk.Recast c op t (lk'.threads t) := by
  rcases h.recast with heq | ⟨u, thread, hu, heq⟩
  · rw [heq]
    exact .inl rfl
  · rw [heq]
    by_cases ht : t = u
    · subst ht
      rw [Function.update_self]
      exact .inr hu
    · rw [Function.update_of_ne ht]
      exact .inl rfl

theorem Kernel.Change.blocked {t : Tid} (h : Kernel.Change c op lk lk')
    (hblocked : (lk'.threads t).state = .blocked) :
    (lk.threads t).state = .blocked ∧
        (lk'.threads t).blockingWaitQueue = (lk.threads t).blockingWaitQueue ∨
      t = c ∧ ∃ q, op.waitsOn = some q ∧ (lk'.threads t).blockingWaitQueue = some q := by
  rcases h.thread t with heq | hrecast
  · rw [heq] at hblocked ⊢
    exact .inl ⟨hblocked, rfl⟩
  · generalize lk'.threads t = thread at hblocked hrecast ⊢
    cases hrecast with
    | requeued f hf =>
      rw [hf.state] at hblocked
      cases hblocked
    | quantum => exact .inl ⟨hblocked, rfl⟩
    | blocked q hq => exact .inr ⟨rfl, q, hq, rfl⟩
    | created priority entry thread hop hstate =>
      rw [hstate] at hblocked
      cases hblocked
    | unlinked => exact .inl ⟨hblocked, rfl⟩
    | detached => exact .inl ⟨hblocked, rfl⟩
    | _ => cases hblocked

theorem Kernel.Change.waitQueueBlockRet {t : Tid} (h : Kernel.Change c op lk lk') (hc : t ≠ c)
    (ht : t < lk.nextTid)
    (hwoken : ∀ q, lk.Waits q t → op.on c ≠ some q ∧ ∀ err, op ≠ .threadUnblock t err) :
    (lk'.threads t).waitQueueBlockRet = (lk.threads t).waitQueueBlockRet := by
  rcases h.thread t with heq | hrecast
  · rw [heq]
  · generalize lk'.threads t = thread at hrecast ⊢
    cases hrecast with
    | requeued => exact absurd rfl hc
    | blocked => exact absurd rfl hc
    | woken q u err hu hq =>
      obtain ⟨hon, hunblock⟩ := hwoken q hu
      exact absurd hq (not_or.mpr ⟨hon, hunblock err⟩)
    | created => exact absurd rfl ht.ne
    | dead => exact absurd rfl hc
    | _ => rfl

theorem Kernel.Change.entry {t : Tid} (h : Kernel.Change c op lk lk') (ht : t < lk.nextTid) :
    (lk'.threads t).entry = (lk.threads t).entry := by
  rcases h.thread t with heq | hrecast
  · rw [heq]
  · generalize lk'.threads t = thread at hrecast ⊢
    cases hrecast with
    | requeued f hf => exact hf.entry _
    | created => exact absurd rfl ht.ne
    | _ => rfl

theorem Kernel.Change.entry_eq (h : Kernel.Change c op lk lk')
    (hop : ∀ priority entry, op ≠ .threadCreate priority entry) (t : Tid) :
    (lk'.threads t).entry = (lk.threads t).entry := by
  rcases h.thread t with heq | hrecast
  · rw [heq]
  · generalize lk'.threads t = thread at hrecast ⊢
    cases hrecast with
    | requeued f hf => exact hf.entry _
    | created priority entry thread hcreate => exact absurd hcreate (hop priority entry)
    | _ => rfl

theorem Kernel.Change.waits {q : Wq} {t : Tid} (h : Kernel.Change c op lk lk')
    (ht : lk'.Waits q t) : lk.Waits q t ∨ t = c ∧ op.waitsOn = some q := by
  rcases ht with hmem | ⟨hblocked, hqueue⟩
  · exact (h.mem_wait hmem).imp .inl id
  · rcases h.blocked hblocked with ⟨hb, hq⟩ | ⟨rfl, q', hq', hqueue'⟩
    · exact .inl (.inr ⟨hb, hq ▸ hqueue⟩)
    · rw [hqueue'] at hqueue
      cases hqueue
      exact .inr ⟨rfl, hq'⟩

end Frame

/-- The wait queue of the object something happened to. -/
def Happening.queue : Happening → Option Wq
  | .block q _ | .wake q _ _ => some q
  | .joined _ t _ => some (.retcode t)
  | .signal e _ | .unsignal e _ => some (.event e)
  | .call _ _ | .ret _ _ _ _ | .fnBegins _ | .timerFreed _ => none

/-- The operation, run by thread `c`, has nothing to do with the object of the queue. -/
structure Kernel.Spares (lk : Kernel) (c : Tid) (op : Op) (q : Wq) : Prop where
  on : op.on c ≠ some q
  unblock : ∀ t err, op = .threadUnblock t err → ¬ lk.Waits q t
  made : ∀ t, q = .retcode t → t < lk.nextTid

/-- The object of the queue is as it was, and nothing happened to it. -/
structure Kernel.Apart (q : Wq) (lk lk' : Kernel) : Prop where
  wait : lk'.wait q = lk.wait q
  sem : ∀ s, q = .sem s → lk'.sem s = lk.sem s
  mutex : ∀ m, q = .mutex m → lk'.mutex m = lk.mutex m
  event : ∀ e, q = .event e → lk'.event e = lk.event e
  log : ∃ l, lk'.log = lk.log ++ l ∧ ∀ h ∈ l, ∃ q', h.queue = some q' ∧ q' ≠ q

section Apart

variable {c : Tid} {op : Op} {q : Wq} {lk lk' lk'' : Kernel}

theorem Kernel.Spares.change (hs : lk.Spares c op q) (h : Kernel.Change c op lk lk') :
    lk'.Spares c op q where
  on := hs.on
  unblock t err hop hw := by
    rcases h.waits hw with hw | ⟨-, hq⟩
    · exact hs.unblock t err hop hw
    · exact hs.on (Op.on_of_waitsOn hq c)
  made t hq := (hs.made t hq).trans_le h.nextTid_le

theorem Kernel.Apart.refl (q : Wq) (lk : Kernel) : lk.Apart q lk := by
  constructor <;> simp

theorem Kernel.Apart.trans (h : Kernel.Apart q lk lk') (h' : Kernel.Apart q lk' lk'') :
    Kernel.Apart q lk lk'' where
  wait := h'.wait.trans h.wait
  sem s hs := (h'.sem s hs).trans (h.sem s hs)
  mutex m hm := (h'.mutex m hm).trans (h.mutex m hm)
  event e he := (h'.event e he).trans (h.event e he)
  log := by
    obtain ⟨l, hl, hq⟩ := h.log
    obtain ⟨l', hl', hq'⟩ := h'.log
    refine ⟨l ++ l', by rw [hl', hl, List.append_assoc], ?_⟩
    intro x hx
    exact (List.mem_append.mp hx).elim (hq x) (hq' x)

theorem Kernel.Spares.wait (hs : lk.Spares c op q) (h : Kernel.Change c op lk lk') :
    lk'.wait q = lk.wait q := by
  cases h with
  | pick => rw [Kernel.getTopThread_eq]; rfl
  | switch => rw [Kernel.setUpQuantum_eq]
  | useThread => rw [Kernel.useThread_eq]
  | useEvent => rw [Kernel.useEvent_eq]
  | enqueue q' hq =>
    refine Function.update_of_ne ?_ _ _
    rintro rfl
    exact hs.on (Op.on_of_waitsOn hq c)
  | dequeue q' rest t err ht hrest hq =>
    refine Function.update_of_ne ?_ _ _
    rintro rfl
    exact hq.elim hs.on fun hop => hs.unblock t err hop ht
  | magic q' b hq =>
    refine Function.update_of_ne ?_ _ _
    rintro rfl
    exact hs.on hq
  | create =>
    refine Function.update_of_ne ?_ _ _
    rintro rfl
    exact (hs.made _ rfl).ne rfl
  | _ => rfl

theorem Kernel.Change.log (h : Kernel.Change c op lk lk') :
    ∃ l, lk'.log = lk.log ++ l ∧ ∀ x ∈ l, ∃ q', x.queue = some q' ∧
      (op.on c = some q' ∨ ∃ t err, op = .threadUnblock t err ∧ lk.Waits q' t) := by
  have hnone : ∃ l, lk.log = lk.log ++ l ∧ ∀ x ∈ l, ∃ q', x.queue = some q' ∧
      (op.on c = some q' ∨ ∃ t err, op = .threadUnblock t err ∧ lk.Waits q' t) :=
    ⟨[], by simp, by simp⟩
  have hone : ∀ {x : Happening} {q' : Wq}, x.queue = some q' →
      (op.on c = some q' ∨ ∃ t err, op = .threadUnblock t err ∧ lk.Waits q' t) →
      ∃ l, lk.log ++ [x] = lk.log ++ l ∧ ∀ x ∈ l, ∃ q', x.queue = some q' ∧
        (op.on c = some q' ∨ ∃ t err, op = .threadUnblock t err ∧ lk.Waits q' t) := by
    intro x q' hx hq
    refine ⟨[x], rfl, fun y hy => ?_⟩
    rw [List.mem_singleton.mp hy]
    exact ⟨q', hx, hq⟩
  cases h with
  | pick => rw [Kernel.getTopThread_eq]; exact hnone
  | switch => rw [Kernel.setUpQuantum_eq]; exact hnone
  | useThread => rw [Kernel.useThread_eq]; exact hnone
  | useEvent => rw [Kernel.useEvent_eq]; exact hnone
  | enqueue q' hq => exact hone rfl (.inl (Op.on_of_waitsOn hq c))
  | dequeue q' rest t err ht hrest hq =>
    exact hone rfl (hq.imp id fun hop => ⟨t, err, hop, ht⟩)
  | joined t r hq => exact hone rfl (.inl hq)
  | signal e b hq => exact hone rfl (.inl hq)
  | _ => exact hnone

theorem Kernel.Spares.log (hs : lk.Spares c op q) (h : Kernel.Change c op lk lk') :
    ∃ l, lk'.log = lk.log ++ l ∧ ∀ x ∈ l, ∃ q', x.queue = some q' ∧ q' ≠ q := by
  obtain ⟨l, hl, hq⟩ := h.log
  refine ⟨l, hl, fun x hx => ?_⟩
  obtain ⟨q', hq', hcause⟩ := hq x hx
  refine ⟨q', hq', ?_⟩
  rintro rfl
  rcases hcause with hon | ⟨t, err, hop, hw⟩
  · exact hs.on hon
  · exact hs.unblock t err hop hw

theorem Kernel.Spares.apart (hs : lk.Spares c op q) (h : Kernel.Changes c op lk lk') :
    Kernel.Apart q lk lk' ∧ lk'.Spares c op q := by
  induction h with
  | refl => exact ⟨.refl q lk, hs⟩
  | tail _ h ih =>
    obtain ⟨hapart, hs⟩ := ih
    refine ⟨hapart.trans ⟨hs.wait h, ?_, ?_, ?_, hs.log h⟩, hs.change h⟩
    · rintro s rfl
      exact h.sem_eq hs.on
    · rintro m rfl
      exact h.mutex_eq hs.on
    · rintro e rfl
      exact h.event_eq hs.on

theorem Kernel.Changes.log (h : Kernel.Changes c op lk lk') :
    ∃ l, lk'.log = lk.log ++ l ∧ ∀ x ∈ l, x.queue ≠ none := by
  induction h with
  | refl => exact ⟨[], by simp, by simp⟩
  | tail _ h ih =>
    obtain ⟨l, hl, hq⟩ := ih
    obtain ⟨l', hl', hq'⟩ := h.log
    refine ⟨l ++ l', by rw [hl', hl, List.append_assoc], fun x hx => ?_⟩
    rcases List.mem_append.mp hx with hx | hx
    · exact hq x hx
    · obtain ⟨q', hxq, -⟩ := hq' x hx
      simp [hxq]

theorem Kernel.Changes.steady (h : Kernel.Changes c op lk lk') : lk.Steady lk' := by
  induction h with
  | refl => constructor <;> rfl
  | tail _ h ih =>
    have h := h.steady
    exact ⟨h.frames.trans ih.frames, h.doing.trans ih.doing, h.recursive.trans ih.recursive,
      h.ltimer.trans ih.ltimer,
      h.nextTimer.trans ih.nextTimer, h.structFrees.trans ih.structFrees,
      h.stackFrees.trans ih.stackFrees⟩

theorem Kernel.Changes.nextTid_le (h : Kernel.Changes c op lk lk') : lk.nextTid ≤ lk'.nextTid := by
  induction h with
  | refl => exact le_rfl
  | tail _ h ih => exact ih.trans h.nextTid_le

theorem Kernel.Changes.entry {t : Tid} (h : Kernel.Changes c op lk lk') (ht : t < lk.nextTid) :
    (lk'.threads t).entry = (lk.threads t).entry := by
  induction h with
  | refl => rfl
  | tail h h' ih => exact (h'.entry (ht.trans_le (Kernel.Changes.nextTid_le h))).trans ih

theorem Kernel.Changes.entry_eq (h : Kernel.Changes c op lk lk')
    (hop : ∀ priority entry, op ≠ .threadCreate priority entry) (t : Tid) :
    (lk'.threads t).entry = (lk.threads t).entry := by
  induction h with
  | refl => rfl
  | tail _ h' ih => exact (h'.entry_eq hop t).trans ih

theorem Kernel.Changes.waits {t : Tid} (h : Kernel.Changes c op lk lk') (ht : lk'.Waits q t) :
    lk.Waits q t ∨ t = c ∧ op.waitsOn = some q := by
  induction h with
  | refl => exact .inl ht
  | tail _ h ih => exact (h.waits ht).elim ih .inr

theorem Kernel.Changes.waitQueueBlockRet {t : Tid} (h : Kernel.Changes c op lk lk') (hc : t ≠ c)
    (ht : t < lk.nextTid)
    (hwoken : ∀ q, lk.Waits q t → op.on c ≠ some q ∧ ∀ err, op ≠ .threadUnblock t err) :
    (lk'.threads t).waitQueueBlockRet = (lk.threads t).waitQueueBlockRet := by
  induction h with
  | refl => rfl
  | tail h h' ih =>
    refine (h'.waitQueueBlockRet hc (ht.trans_le (Kernel.Changes.nextTid_le h)) fun q hw =>
      ?_).trans ih
    exact (Kernel.Changes.waits h hw).elim (hwoken q) fun hc' => absurd hc'.1 hc

end Apart

end UefiLkl.Lk
