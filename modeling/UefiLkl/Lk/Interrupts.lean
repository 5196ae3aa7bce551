import UefiLkl.Lk.Exits
set_option autoImplicit false

/-!
The thread lock and the interrupt flag across the switches. A thread that is gone on with gives
back what it found when it took the lock; one that begins gives up the lock only.
-/

namespace UefiLkl.Lk
open Coroutine

def Kernel.Locked (lk : Kernel) : Prop := lk.threadLock = true ∧ lk.ints = false

/-- The lock is free, and `b` tells whether interrupts are enabled. -/
def Kernel.Released (b : Bool) (lk : Kernel) : Prop := lk.threadLock = false ∧ lk.ints = b

/-- Run by thread `c`, the computation takes a kernel of `P` to one of `Q`, and holds the lock
whenever it switches. -/
def Guarded (c : Tid) (P : Kernel → Prop) {α : Type} (x : Section Kernel α) (Q : Kernel → Prop) :
    Prop :=
  x.Triple (fun lk => lk.currentThread = c) Kernel.Locked (fun lk => lk.currentThread = c ∧ P lk)
    fun _ lk => lk.currentThread = c ∧ Q lk

def Aloof (f : Kernel → Kernel) : Prop :=
  ∀ lk, (f lk).currentThread = lk.currentThread ∧ (f lk).threadLock = lk.threadLock ∧
    (f lk).ints = lk.ints

section Rules

variable {c : Tid} {α β : Type} {P Q R : Kernel → Prop} {b : Bool}

theorem Guarded.bind {x : Section Kernel α} {f : α → Section Kernel β} (hx : Guarded c P x R)
    (hf : ∀ a, Guarded c R (f a) Q) : Guarded c P (x >>= f) Q :=
  Section.Triple.bind hx hf

theorem Guarded.pure (a : α) : Guarded c P (Pure.pure a) P :=
  Section.Triple.pure fun _ h => h

theorem Guarded.read (f : Kernel → α) : Guarded c P (.read f) P :=
  Section.Triple.read fun _ h => h

theorem Guarded.ite {p : Prop} [Decidable p] {x y : Section Kernel α} (hx : Guarded c P x Q)
    (hy : Guarded c P y Q) : Guarded c P (if p then x else y) Q :=
  Section.Triple.ite hx hy

theorem Guarded.modify {f : Kernel → Kernel} (hf : Aloof f) :
    Guarded c Kernel.Locked (.modify f) Kernel.Locked := by
  refine Section.Triple.modify fun lk h => ?_
  obtain ⟨hcurrent, hlock, hints⟩ := hf lk
  exact ⟨hcurrent.trans h.1, hlock.trans h.2.1, hints.trans h.2.2⟩

theorem Guarded.lock {f : Bool → Section Kernel α} (hf : Guarded c Kernel.Locked (f b) Q) :
    Guarded c (Kernel.Released b) (lockThreads >>= f) Q := by
  intro lk h
  rw [Section.run_bind, lockThreads_run, Susp.done_bind, h.2.2]
  exact hf lk.lock ⟨h.1, rfl, rfl⟩

theorem unlockThreads_guarded : Guarded c Kernel.Locked (unlockThreads b) (Kernel.Released b) := by
  intro lk h
  refine ⟨h.1, rfl, ?_⟩
  simp [Kernel.unlock, h.2.2]

theorem unlock_guarded (a : α) :
    Guarded c Kernel.Locked (do unlockThreads b; Pure.pure a) (Kernel.Released b) :=
  unlockThreads_guarded.bind fun _ => .pure a

/-- Whoever is switched to finds the lock taken. -/
theorem threadResched_guarded : Guarded c Kernel.Locked threadResched Kernel.Locked := by
  intro lk h
  have hpick : (lk.getTopThread.2.setState lk.getTopThread.1 .running).currentThread = c ∧
      (lk.getTopThread.2.setState lk.getTopThread.1 .running).Locked := by
    rw [Kernel.getTopThread_eq]
    exact h
  simp only [threadResched]
  split
  · exact hpick
  · refine ⟨?_, fun lk' hc hl => ⟨hc, hl⟩⟩
    rw [Kernel.setUpQuantum_eq]
    exact hpick.2

end Rules

section Operations

variable {c : Tid} {b : Bool} {q : Wq}

theorem aloof_useThread (t : Tid) : Aloof fun lk => lk.useThread t := fun lk => by
  dsimp only
  rw [Kernel.useThread_eq]
  exact ⟨rfl, rfl, rfl⟩

theorem aloof_useEvent (e : EventId) : Aloof fun lk => lk.useEvent e := fun lk => by
  dsimp only
  rw [Kernel.useEvent_eq]
  exact ⟨rfl, rfl, rfl⟩

theorem aloof_popAll (q : Wq) (err : Status) (list : List Tid) :
    Aloof (Kernel.popAll q err list) := by
  induction list with
  | nil => exact fun lk => ⟨rfl, rfl, rfl⟩
  | cons t rest ih => exact fun lk => ih ((lk.dequeue q rest t err).insertInRunQueueHead t)

theorem resched_guarded : Guarded c Kernel.Locked (do threadResched; unlockThreads b)
    (Kernel.Released b) :=
  threadResched_guarded.bind fun _ => unlockThreads_guarded

theorem threadYield_guarded : Guarded c (Kernel.Released b) threadYield (Kernel.Released b) :=
  .bind (.read _) fun _ => .lock <| .bind (.modify fun _ => ⟨rfl, rfl, rfl⟩) fun _ =>
    .bind (.read _) fun _ =>
      .ite (.bind (.modify fun _ => ⟨rfl, rfl, rfl⟩) fun _ => resched_guarded) resched_guarded

theorem threadPreempt_guarded : Guarded c (Kernel.Released b) threadPreempt (Kernel.Released b) :=
  .bind (.read _) fun _ => .lock <| .bind (.modify fun _ => ⟨rfl, rfl, rfl⟩) fun _ =>
    .bind (.read _) fun _ =>
      .ite (.ite (.bind (.modify fun _ => ⟨rfl, rfl, rfl⟩) fun _ => resched_guarded)
        (.bind (.modify fun _ => ⟨rfl, rfl, rfl⟩) fun _ => resched_guarded)) resched_guarded

theorem threadSetPriority_guarded (priority : Int) :
    Guarded c (Kernel.Released b) (threadSetPriority priority) (Kernel.Released b) :=
  .bind (.read _) fun _ => .lock <| .bind (.modify fun _ => ⟨rfl, rfl, rfl⟩) fun _ =>
    .bind (.modify fun _ => ⟨rfl, rfl, rfl⟩) fun _ => resched_guarded

theorem threadResume_guarded (t : Tid) :
    Guarded c (Kernel.Released b) (threadResume t) (Kernel.Released b) :=
  .bind (.read _) fun _ => .lock <| .bind (.modify (aloof_useThread t)) fun _ =>
    .bind (.read _) fun _ =>
      .ite (.bind (.modify fun _ => ⟨rfl, rfl, rfl⟩) fun _ => unlock_guarded _) (unlock_guarded _)

theorem threadCreate_guarded (priority : Priority) (entry : Entry) :
    Guarded c (Kernel.Released b) (threadCreate priority entry) (Kernel.Released b) := by
  refine .bind (.read _) fun new => .bind ?_ fun _ => .lock <|
    .bind (.modify fun _ => ⟨rfl, rfl, rfl⟩) fun _ => unlock_guarded _
  exact Section.Triple.modify fun _ h => h

theorem waitQueueBlock_guarded (timeout : LkTime) :
    Guarded c Kernel.Locked (waitQueueBlock q timeout) Kernel.Locked := by
  have hend : ∀ t : Tid, Guarded c Kernel.Locked (do
      threadResched
      if timeout ≠ INFINITE_TIME then .modify fun lk => lk.arm t false
      .read fun lk => (lk.threads t).waitQueueBlockRet) Kernel.Locked := fun t =>
    threadResched_guarded.bind fun _ =>
      .ite (.bind (.modify fun _ => ⟨rfl, rfl, rfl⟩) fun _ => .read _) (.read _)
  exact .bind (.read _) fun t => .ite (.pure _) (.bind (.modify fun _ => ⟨rfl, rfl, rfl⟩) fun _ =>
    .ite (.bind (.modify fun _ => ⟨rfl, rfl, rfl⟩) fun _ => hend t) (hend t))

theorem waitQueueWakeOne_guarded (reschedule : Bool) (err : Status) :
    Guarded c Kernel.Locked (waitQueueWakeOne q reschedule err) Kernel.Locked := by
  refine .bind (.read _) fun current => .bind (.read _) fun list => ?_
  cases list with
  | nil => exact .pure _
  | cons t rest =>
    have hend : Guarded c Kernel.Locked (do
        .modify fun lk => lk.insertInRunQueueHead t
        if reschedule then threadResched
        pure (1 : Int)) Kernel.Locked :=
      .bind (.modify fun _ => ⟨rfl, rfl, rfl⟩) fun _ =>
        .ite (threadResched_guarded.bind fun _ => .pure _) (.pure _)
    exact .bind (.modify fun _ => ⟨rfl, rfl, rfl⟩) fun _ =>
      .ite (.bind (.modify fun _ => ⟨rfl, rfl, rfl⟩) fun _ => hend) hend

theorem waitQueueWakeAll_guarded (reschedule : Bool) (err : Status) :
    Guarded c Kernel.Locked (waitQueueWakeAll q reschedule err) Kernel.Locked := by
  have hend : Guarded c Kernel.Locked (do
      let list ← .read fun lk => (lk.wait q).list
      .modify (Kernel.popAll q err list)
      if list.length > 0 then
        if reschedule then threadResched
      pure (list.length : Int)) Kernel.Locked :=
    .bind (.read _) fun list => .bind (.modify (aloof_popAll q err list)) fun _ =>
      .ite (.ite (threadResched_guarded.bind fun _ => .pure _) (.pure _)) (.pure _)
  exact .bind (.read _) fun current => .bind (.read _) fun _ =>
    .ite (.bind (.modify fun _ => ⟨rfl, rfl, rfl⟩) fun _ => hend) hend

theorem waitQueueDestroy_guarded (reschedule : Bool) :
    Guarded c Kernel.Locked (waitQueueDestroy q reschedule) Kernel.Locked :=
  (waitQueueWakeAll_guarded reschedule _).bind fun _ => .modify fun _ => ⟨rfl, rfl, rfl⟩

theorem threadUnblock_guarded (t : Tid) (err : Status) :
    Guarded c Kernel.Locked (threadUnblockFromWaitQueue t err) Kernel.Locked := by
  refine .bind (.modify (aloof_useThread t)) fun _ =>
    .bind (.read _) fun thread => .ite (.pure _) ?_
  cases thread.blockingWaitQueue with
  | none => exact .pure _
  | some q => exact .bind (.modify fun _ => ⟨rfl, rfl, rfl⟩) fun _ => .pure _

theorem threadJoin_guarded (t : Tid) (timeout : LkTime) :
    Guarded c (Kernel.Released b) (threadJoin t timeout) (Kernel.Released b) :=
  .bind (.read _) fun _ => .lock <| .bind (.modify (aloof_useThread t)) fun _ =>
    .bind (.read _) fun _ => .ite (unlock_guarded _) <|
      .bind (.ite (waitQueueBlock_guarded timeout) (.pure _)) fun _ =>
        .ite (unlock_guarded _) <| .bind (.modify (aloof_useThread t)) fun _ =>
          .bind (.modify fun _ => ⟨rfl, rfl, rfl⟩) fun _ =>
            .bind (.modify fun _ => ⟨rfl, rfl, rfl⟩) fun _ => unlock_guarded _

theorem threadDetach_guarded (t : Tid) :
    Guarded c (Kernel.Released b) (threadDetach t) (Kernel.Released b) :=
  .lock <| .bind (.modify (aloof_useThread t)) fun _ =>
    (waitQueueWakeAll_guarded _ _).bind fun _ => .bind (.read _) fun _ =>
      .bind (.modify fun _ => ⟨rfl, rfl, rfl⟩) fun _ => unlock_guarded _

theorem threadExit_guarded (retcode : Int) :
    Guarded c (Kernel.Released b) (threadExit retcode) Kernel.Locked :=
  .bind (.read _) fun t => .lock <| .bind (.modify (aloof_useThread t)) fun _ =>
    .bind (.modify fun _ => ⟨rfl, rfl, rfl⟩) fun _ => .bind (.read _) fun _ =>
      .ite (.bind (.modify fun _ => ⟨rfl, rfl, rfl⟩) fun _ => threadResched_guarded)
        ((waitQueueWakeAll_guarded _ _).bind fun _ => threadResched_guarded)

theorem addCount_guarded (s : SemId) (n : Int) :
    Guarded c Kernel.Locked (addCount s n) Kernel.Locked :=
  .bind (.modify fun _ => ⟨rfl, rfl, rfl⟩) fun _ => .read _

theorem semPost_guarded (s : SemId) (resched : Bool) :
    Guarded c (Kernel.Released b) (semPost s resched) (Kernel.Released b) :=
  .lock <| (addCount_guarded s 1).bind fun _ =>
    .bind (.ite (waitQueueWakeOne_guarded _ _) (.pure _)) fun _ => unlock_guarded _

theorem semTimedwait_guarded (s : SemId) (timeout : LkTime) :
    Guarded c (Kernel.Released b) (semTimedwait s timeout) (Kernel.Released b) :=
  .lock <| (addCount_guarded s (-1)).bind fun _ =>
    .bind (.ite (waitQueueBlock_guarded _) (.pure _)) fun _ =>
      .ite ((addCount_guarded s 1).bind fun _ => unlock_guarded _) (unlock_guarded _)

theorem semWait_guarded (s : SemId) :
    Guarded c (Kernel.Released b) (semWait s) (Kernel.Released b) :=
  .lock <| (addCount_guarded s (-1)).bind fun _ =>
    .bind (.ite (waitQueueBlock_guarded _) (.pure _)) fun _ => unlock_guarded _

theorem semTrywait_guarded (s : SemId) :
    Guarded c (Kernel.Released b) (semTrywait s) (Kernel.Released b) :=
  .lock <| .bind (.read _) fun _ =>
    .ite (unlock_guarded _) ((addCount_guarded s (-1)).bind fun _ => unlock_guarded _)

theorem semDestroy_guarded (s : SemId) :
    Guarded c (Kernel.Released b) (semDestroy s) (Kernel.Released b) :=
  .lock <| .bind (.modify fun _ => ⟨rfl, rfl, rfl⟩) fun _ =>
    (waitQueueDestroy_guarded _).bind fun _ => unlockThreads_guarded

theorem mutexAcquire_guarded (m : Nat) (timeout : LkTime) :
    Guarded c (Kernel.Released b) (mutexAcquireTimeout m timeout) (Kernel.Released b) :=
  .bind (.read _) fun _ => .lock <| .bind (.modify fun _ => ⟨rfl, rfl, rfl⟩) fun _ =>
    .bind (.read _) fun _ => .bind (.ite (waitQueueBlock_guarded _) (.pure _)) fun _ =>
      .ite (.ite (.bind (.modify fun _ => ⟨rfl, rfl, rfl⟩) fun _ => unlock_guarded _)
        (unlock_guarded _)) (.bind (.modify fun _ => ⟨rfl, rfl, rfl⟩) fun _ => unlock_guarded _)

theorem mutexRelease_guarded (m : Nat) :
    Guarded c (Kernel.Released b) (mutexRelease m) (Kernel.Released b) :=
  .lock <| .bind (.modify fun _ => ⟨rfl, rfl, rfl⟩) fun _ => .bind (.read _) fun _ =>
    .ite ((waitQueueWakeOne_guarded _ _).bind fun _ => unlock_guarded _) (unlock_guarded _)

theorem mutexDestroy_guarded (m : Nat) :
    Guarded c (Kernel.Released b) (mutexDestroy m) (Kernel.Released b) :=
  .lock <| .bind (.modify fun _ => ⟨rfl, rfl, rfl⟩) fun _ =>
    (waitQueueDestroy_guarded _).bind fun _ => unlockThreads_guarded

theorem eventDestroy_guarded (e : EventId) :
    Guarded c (Kernel.Released b) (eventDestroy e) (Kernel.Released b) :=
  .lock <| .bind (.modify (aloof_useEvent e)) fun _ => .bind (.modify fun _ => ⟨rfl, rfl, rfl⟩)
    fun _ => (waitQueueWakeAll_guarded _ _).bind fun _ => .bind (.modify (aloof_useEvent e))
      fun _ => .bind (.modify fun _ => ⟨rfl, rfl, rfl⟩) fun _ => unlockThreads_guarded

theorem eventWait_guarded (e : EventId) (timeout : LkTime) :
    Guarded c (Kernel.Released b) (eventWaitTimeout e timeout) (Kernel.Released b) :=
  .lock <| .bind (.modify (aloof_useEvent e)) fun _ => .bind (.read _) fun _ =>
    .bind (.ite (.ite (.bind (.modify fun _ => ⟨rfl, rfl, rfl⟩) fun _ => .pure _) (.pure _))
      (waitQueueBlock_guarded timeout)) fun _ => unlock_guarded _

theorem eventSignal_guarded (e : EventId) (reschedule : Bool) :
    Guarded c (Kernel.Released b) (eventSignal e reschedule) (Kernel.Released b) := by
  refine .lock <| .bind (.modify (aloof_useEvent e)) fun _ => .bind (.read _) fun event =>
    .bind (.modify fun _ => ⟨rfl, rfl, rfl⟩) fun _ => .ite (.ite ?_ ?_) (unlock_guarded _)
  · exact (waitQueueWakeOne_guarded _ _).bind fun _ => .ite (.bind (.modify (aloof_useEvent e))
      fun _ => .bind (.modify fun _ => ⟨rfl, rfl, rfl⟩) fun _ => unlock_guarded _)
      (unlock_guarded _)
  · exact .bind (.modify fun _ => ⟨rfl, rfl, rfl⟩) fun _ =>
      (waitQueueWakeAll_guarded _ _).bind fun _ => unlock_guarded _

theorem locked_guarded {α : Type} {x : Section Kernel α}
    (hx : Guarded c Kernel.Locked x Kernel.Locked) :
    Guarded c (Kernel.Released b) (locked x) (Kernel.Released b) :=
  .lock <| hx.bind fun _ => unlock_guarded _

theorem returning_guarded {α : Type} {x : Section Kernel α} {P Q : Kernel → Prop}
    (hx : Guarded c P x Q) (f : α → Int) : Guarded c P (returning f x) Q :=
  hx.bind fun _ => .pure _

/-- But for `thread_exit`, an operation leaves the interrupts as it found them. -/
theorem perform_guarded {op : Op} (hop : ∀ r, op ≠ .threadExit r) :
    Guarded c (Kernel.Released b) (perform op) (Kernel.Released b) := by
  cases op with
  | threadCreate priority entry => exact returning_guarded (threadCreate_guarded priority entry) _
  | threadResume t => exact returning_guarded (threadResume_guarded t) _
  | threadYield => exact returning_guarded threadYield_guarded _
  | threadPreempt => exact returning_guarded threadPreempt_guarded _
  | threadSetPriority priority => exact returning_guarded (threadSetPriority_guarded priority) _
  | threadExit retcode => exact absurd rfl (hop retcode)
  | threadJoin t timeout => exact threadJoin_guarded t timeout
  | threadDetach t => exact returning_guarded (threadDetach_guarded t) _
  | waitQueueBlock w timeout => exact locked_guarded (waitQueueBlock_guarded timeout)
  | waitQueueWakeOne w r err => exact locked_guarded (waitQueueWakeOne_guarded r err)
  | waitQueueWakeAll w r err => exact locked_guarded (waitQueueWakeAll_guarded r err)
  | waitQueueDestroy w r => exact returning_guarded (locked_guarded (waitQueueDestroy_guarded r)) _
  | threadUnblock t err => exact locked_guarded (threadUnblock_guarded t err)
  | semPost s resched => exact semPost_guarded s resched
  | semWait s => exact semWait_guarded s
  | semTrywait s => exact semTrywait_guarded s
  | semTimedwait s timeout => exact semTimedwait_guarded s timeout
  | semDestroy s => exact returning_guarded (semDestroy_guarded s) _
  | mutexAcquire m timeout => exact mutexAcquire_guarded m timeout
  | mutexRelease m => exact mutexRelease_guarded m
  | mutexDestroy m => exact returning_guarded (mutexDestroy_guarded m) _
  | eventWait e timeout => exact eventWait_guarded e timeout
  | eventSignal e reschedule => exact eventSignal_guarded e reschedule
  | eventDestroy e => exact returning_guarded (eventDestroy_guarded e) _

end Operations

/-- Only the running thread is outside of the lock, which is then free; interrupts are enabled
for the thread that ran first. -/
structure Machine.Disciplined (m : Machine) : Prop where
  alone : ∀ t, m.code t = .outside → t = m.current
  locked : m.code m.current ≠ .outside → m.kernel.Locked
  released : m.code m.current = .outside → m.kernel.Released (m.current = bootstrapThread)
  begun : m.code bootstrapThread ≠ .fresh
  inside : ∀ t k, m.code t = .inside k → (∀ r, m.kernel.doing t ≠ some (.threadExit r)) →
    ∀ lk, lk.currentThread = t → lk.Locked → (k lk).Wp (fun lk => lk.currentThread = t)
      Kernel.Locked (fun _ _ lk => lk.currentThread = t ∧ lk.Released (t = bootstrapThread)) false

section Runs

variable {ok : Machine → Label → Prop} {objects : Objects} {m m' : Machine} {label : Label}
  {lk : Kernel}

theorem Frame.act_aloof {f : Frame} {g : Kernel → Kernel} {next : Kernel → List Frame}
    (hinstr : f.instr = .act g next) : Aloof g := by
  intro lk
  obtain ⟨event, ltimer, nextTimer, structFrees, stackFrees, faults, log, hg⟩ :=
    Frame.act_eq hinstr lk
  rw [hg]
  exact ⟨rfl, rfl, rfl⟩

theorem Machine.Aside.lock (h : m.Aside lk) (hcode : m.code m.current ≠ .fresh) :
    lk.threadLock = m.kernel.threadLock ∧ lk.ints = m.kernel.ints := by
  cases h with
  | fresh hfresh => exact absurd hfresh hcode
  | act hframes hinstr => exact (Frame.act_aloof hinstr m.kernel).2
  | call => exact ⟨rfl, rfl⟩
  | ret => exact ⟨rfl, rfl⟩
  | exit => exact ⟨rfl, rfl⟩
  | tick => rw [Kernel.threadTimerTick_eq]; exact ⟨rfl, rfl⟩

theorem Machine.Aside.current (h : m.Aside lk) : lk.currentThread = m.current := by
  rcases h.quiet with hq | ⟨e, -, hq⟩
  · exact hq.currentThread
  · rw [hq.currentThread, Kernel.eventUnsignal, Kernel.useEvent_eq]
    rfl

theorem Machine.Ground.lock (h : m.Ground lk) :
    lk.threadLock = m.kernel.threadLock ∧ lk.ints = m.kernel.ints := by
  cases h with
  | run => exact ⟨rfl, rfl⟩
  | interrupt hi =>
    cases hi with
    | tick => rw [Kernel.threadTimerTick_eq]; exact ⟨rfl, rfl⟩
    | _ => exact ⟨rfl, rfl⟩

theorem Machine.step_fresh (hcode : m.code m.current = .fresh) (hstep : m.step label = some m') :
    m' = m.aside ({ m.kernel with threadLock := false }.setFrames m.current
      (m.kernel.threads m.current).entry.frames) := by
  simp only [Machine.step, hcode] at hstep
  split at hstep
  · exact (Option.some.inj hstep).symm
  · cases hstep

theorem Machine.Disciplined.aside (h : m.Disciplined) (hcurrent : lk.currentThread = m.current)
    (hreleased : lk.Released (m.current = bootstrapThread))
    (hdoing : ∀ t, t ≠ m.current → lk.doing t = m.kernel.doing t) :
    Machine.Disciplined ⟨lk, Function.update m.code m.current .outside⟩ := by
  refine ⟨fun t ht => ?_, fun hout => ?_, fun _ => ?_, fun hfresh => ?_, fun t k ht => ?_⟩
  · by_cases hc : t = m.current
    · exact hc.trans hcurrent.symm
    · exact absurd (h.alone t (by simpa [hc] using ht)) hc
  · refine absurd ?_ hout
    change Function.update m.code m.current Code.outside lk.currentThread = .outside
    rw [hcurrent, Function.update_self]
  · rw [Machine.current, hcurrent]
    exact hreleased
  · by_cases hc : bootstrapThread = m.current
    · simp [hc] at hfresh
    · exact h.begun (by simpa [hc] using hfresh)
  · by_cases hc : t = m.current
    · simp [hc] at ht
    · dsimp only at ht ⊢
      rw [Function.update_of_ne hc] at ht
      rw [hdoing t hc]
      exact h.inside t k ht

theorem Machine.Disciplined.switch {k : Kernel → Susp Kernel Int} (h : m.Disciplined)
    (hlocked : lk.Locked) (hdoing : ∀ t, t ≠ m.current → lk.doing t = m.kernel.doing t)
    (hk : (∀ r, lk.doing m.current ≠ some (.threadExit r)) → ∀ lk', lk'.currentThread = m.current →
      lk'.Locked → (k lk').Wp (fun lk => lk.currentThread = m.current) Kernel.Locked
        (fun _ _ lk => lk.currentThread = m.current ∧ lk.Released (m.current = bootstrapThread))
        false) :
    Machine.Disciplined ⟨lk, Function.update m.code m.current (.inside k)⟩ := by
  have hother : ∀ t, Function.update m.code m.current (.inside k) t ≠ .outside := by
    intro t ht
    by_cases hc : t = m.current
    · simp [hc] at ht
    · exact hc (h.alone t (by simpa [hc] using ht))
  refine ⟨fun t ht => absurd ht (hother t), fun _ => hlocked, fun hout => absurd hout (hother _),
    fun hfresh => ?_, fun t k' ht => ?_⟩
  · by_cases hc : bootstrapThread = m.current
    · simp [hc] at hfresh
    · exact h.begun (by simpa [hc] using hfresh)
  · by_cases hc : t = m.current
    · subst hc
      simp only [Function.update_self, Code.inside.injEq] at ht
      subst ht
      exact hk
    · simp only [Function.update_of_ne hc] at ht ⊢
      rw [hdoing t hc]
      exact h.inside t k' ht

theorem Machine.Disciplined.settle {op : Op} {after : Int → List Frame} {b : Bool}
    {x : Susp Kernel Int} (h : m.Disciplined)
    (hx : x.Wp (fun lk => lk.currentThread = m.current) Kernel.Locked
      (fun _ _ lk => lk.currentThread = m.current ∧ lk.Released (m.current = bootstrapThread)) b)
    (hdoing : ∀ t, t ≠ m.current → x.state.doing t = m.kernel.doing t) :
    (m.settle m.current op after b x).Disciplined := by
  cases x with
  | done r lk =>
    have hends : ∀ t, t ≠ m.current →
        (lk.ends m.current op b r (after r)).doing t = m.kernel.doing t := by
      intro t hc
      rw [← hdoing t hc]
      simp [Kernel.ends, Susp.state, Kernel.setFrames, Kernel.note, hc]
    exact h.aside hx.1 hx.2 hends
  | switch lk k => exact h.switch hx.1 hdoing fun _ => hx.2

theorem Susp.Moves.doing {α : Type} {x : Susp Kernel α} {c : Tid} {op : Op}
    (h : x.Moves (fun lk => lk.currentThread = c) (Kernel.Changes c op) lk) :
    x.state.doing = lk.doing :=
  (Kernel.Changes.steady h.state).doing

theorem Machine.Disciplined.step (h : m.Disciplined) (hm : m.Keeping Kernel.Exited)
    (hstep : m.step label = some m') : m'.Disciplined := by
  by_cases hfresh : m.code m.current = .fresh
  · rw [Machine.step_fresh hfresh hstep]
    have hlocked := h.locked (by simp [hfresh])
    have hne : m.current ≠ bootstrapThread := fun hc => h.begun (hc ▸ hfresh)
    exact h.aside rfl ⟨rfl, hlocked.2.trans (decide_eq_false hne).symm⟩ fun _ _ => rfl
  cases Machine.step_cases hstep with
  | @aside lk hcode ha =>
    have hout : m.code m.current = .outside := by
      cases hc : m.code m.current with
      | fresh => exact absurd hc hfresh
      | inside k => exact absurd hc (hcode k)
      | outside => rfl
    obtain ⟨hlock, hints⟩ := ha.lock hfresh
    have hreleased := h.released hout
    exact h.aside ha.current ⟨hlock.trans hreleased.1, hints.trans hreleased.2⟩ fun _ _ => by
      rw [ha.doing]
  | @enter lk f stack op next hcode hg hframes hinstr hbegins =>
    have hopens := hm.opens hg hframes hinstr hbegins
    obtain ⟨hlock, hints⟩ := hg.lock
    have hreleased := h.released hcode
    have hbegun : (lk.begins m.current op).currentThread = m.current ∧
        (lk.begins m.current op).Released (m.current = bootstrapThread) :=
      ⟨hopens.current, hlock.trans hreleased.1, hints.trans hreleased.2⟩
    have hmoves := perform_changing m.current op (lk.begins m.current op) hopens.current
    have hdoing : ∀ t, t ≠ m.current →
        ((perform op).run (lk.begins m.current op)).state.doing t = m.kernel.doing t := by
      intro t hc
      rw [Susp.Moves.doing hmoves]
      simp only [Kernel.begins, Function.update_of_ne hc]
      exact congrFun hg.quiet.doing t
    by_cases hexit : ∃ r, op = .threadExit r
    · obtain ⟨r, rfl⟩ := hexit
      obtain ⟨lk', k, hrun, -, -⟩ := threadExit_switches hopens.begins.wf
        (hopens.current ▸ hopens.notIdle rfl) r
      have hguarded := threadExit_guarded (c := m.current) r _ hbegun
      have hself := congrFun (Susp.Moves.doing hmoves) m.current
      simp only [perform, returning, Section.run_bind, hrun, Susp.switch_bind]
        at hguarded hself hdoing ⊢
      refine h.switch hguarded.1 hdoing fun hno => absurd ?_ (hno r)
      exact hself.trans (by simp [Kernel.begins])
    · exact h.settle (perform_guarded (fun r hr => hexit ⟨r, hr⟩) _ hbegun) hdoing
  | @resume k f stack op next hcode hframes hinstr =>
    obtain ⟨f', stack', op', next', hframes', hinstr', hdoing, hmoves, -⟩ := hm.inside _ k hcode
    rw [hframes] at hframes'
    cases hframes'
    rw [hinstr] at hinstr'
    cases hinstr'
    have hlocked := h.locked (by simp [hcode])
    have hrunning := (hm.kernel.1.wf.running m.current (Set.notMem_empty _)).mpr rfl
    refine h.settle (h.inside _ k hcode (fun r hr => ?_) _ rfl hlocked) fun t _ => ?_
    · rw [hm.kernel.2 _ r hr] at hrunning
      cases hrunning
    · rw [Susp.Moves.doing (hmoves _ rfl)]

theorem Machine.boot_disciplined (objects : Objects) : (Machine.boot objects).Disciplined := by
  obtain ⟨threads, runQueue, runQueueBitmap, hrun, -, -⟩ := lklThreadInit_run objects
  have hkernel : (Machine.boot objects).kernel = { Kernel.idleStart objects with
      threads := threads
      runQueue := runQueue
      runQueueBitmap := runQueueBitmap } := by
    simp only [Machine.boot, hrun, Susp.state]
  have hcurrent : (Machine.boot objects).current = bootstrapThread := by
    rw [Machine.current, hkernel]
    rfl
  refine ⟨fun t ht => ?_, fun hin => ?_, fun _ => ?_, by simp [Machine.boot], fun t k ht => ?_⟩
  · by_contra hne
    rw [hcurrent] at hne
    simp [Machine.boot, hne] at ht
  · refine absurd ?_ hin
    rw [hcurrent]
    simp [Machine.boot]
  · rw [hcurrent, hkernel]
    exact ⟨rfl, rfl⟩
  · by_cases hb : t = bootstrapThread <;> simp [Machine.boot, hb] at ht

theorem Machine.Run.disciplined (hrun : Machine.Run ok (.boot objects) m) : m.Disciplined := by
  generalize hboot : Machine.boot objects = m₀ at hrun
  induction hrun with
  | nil => exact hboot ▸ Machine.boot_disciplined objects
  | snoc hrun _ hstep ih => exact ih.step (hboot ▸ hrun).exited hstep

def Code.isOutside : Code → Bool
  | .outside => true
  | _ => false

theorem Code.isOutside_iff {code : Code} : code.isOutside = true ↔ code = .outside := by
  cases code <;> simp [Code.isOutside]

def Machine.Open (m : Machine) : Prop := m.kernel.threadLock = false ∧ m.kernel.ints = true

theorem Machine.Step.code_of_ne {t : Tid} (h : m.Step label m') (ht : t ≠ m.current) :
    m'.code t = m.code t := by
  have hsettle : ∀ op after b x, (m.settle m.current op after b x).code t = m.code t := by
    intro op after b x
    cases x <;> exact Function.update_of_ne ht _ _
  cases h with
  | aside => exact Function.update_of_ne ht _ _
  | enter => exact hsettle ..
  | resume => exact hsettle ..

/-- While no thread begins, only the one that ran at the start has. -/
theorem Machine.Run.unbegun (hrun : Machine.Run ok (.boot objects) m)
    (hok : ∀ m label, ok m label → m.code m.current ≠ .fresh) (t : Tid)
    (ht : t ≠ bootstrapThread) : m.code t = .fresh := by
  generalize hboot : Machine.boot objects = m₀ at hrun
  induction hrun with
  | nil => simp [← hboot, Machine.boot, ht]
  | @snoc m₁ m₂ label hrun hm hstep ih =>
    have hne : t ≠ m₁.current := fun hc => hok m₁ label hm (hc ▸ ih)
    rw [Machine.Step.code_of_ne (Machine.step_cases hstep) hne]
    exact ih

/-- Outside of the lock it is free, always; interrupts are enabled for the thread that ran at the
start, and for no other. So they are enabled in every state while no other thread begins. -/
theorem outside_open_iff (hrun : Machine.Run ok (.boot objects) m)
    (hout : m.code m.current = .outside) :
    m.kernel.threadLock = false ∧ (m.Open ↔ m.current = bootstrapThread) ∧
      ((∀ m label, ok m label → m.code m.current ≠ .fresh) → m.Open) := by
  obtain ⟨hlock, hints⟩ := hrun.disciplined.released hout
  have hopen : m.current = bootstrapThread → m.Open := fun hc =>
    ⟨hlock, hints.trans (decide_eq_true hc)⟩
  refine ⟨hlock, ⟨fun h => ?_, hopen⟩, fun hok => hopen ?_⟩
  · exact of_decide_eq_true (hints.symm.trans h.2)
  · by_contra hc
    have hfresh := hrun.unbegun hok m.current hc
    rw [hout] at hfresh
    cases hfresh

/-- The bootstrap thread goes on after the thread that it made has yielded. -/
theorem outside_open_iff_resumed : ∃ m, Machine.Run (fun _ _ => True) (.boot .assorted) m ∧
    m.current = bootstrapThread ∧ m.Open := by
  have hresult : ((Machine.boot .assorted).after (fun _ _ => True)
      [.call .lklThreadCreate, .run, .run, .run, .run, .call (.op .threadYield), .run, .run]).map
      (fun m => (m.code m.current).isOutside && decide (m.current = bootstrapThread)) =
      some true := by decide +kernel
  obtain ⟨m, hm, hresult⟩ := Option.map_eq_some_iff.mp hresult
  rw [Bool.and_eq_true, decide_eq_true_iff] at hresult
  have hrun : Machine.Run (fun _ _ => True) (.boot .assorted) m := (Machine.Run.nil _).after hm
  have hout := Code.isOutside_iff.mp hresult.1
  exact ⟨m, hrun, hresult.2, (outside_open_iff hrun hout).2.1.mpr hresult.2⟩

/-- A thread that the bootstrap thread made has begun, with the lock free and interrupts
disabled. -/
theorem outside_not_open : ∃ m, Machine.Run (fun _ _ => True) (.boot .assorted) m ∧
    m.code m.current = .outside ∧ m.kernel.threadLock = false ∧ ¬ m.Open := by
  have hresult : ((Machine.boot .assorted).after (fun _ _ => True)
      [.call .lklThreadCreate, .run, .run, .run, .run]).map
      (fun m => ((m.code m.current).isOutside, m.kernel.threadLock, m.kernel.ints)) =
      some (true, false, false) := by decide +kernel
  obtain ⟨m, hm, hresult⟩ := Option.map_eq_some_iff.mp hresult
  simp only [Prod.mk.injEq] at hresult
  obtain ⟨hout, hlock, hints⟩ := hresult
  refine ⟨m, (Machine.Run.nil _).after hm, Code.isOutside_iff.mp hout, hlock, fun hopen => ?_⟩
  exact absurd hopen.2 (by simp [hints])

end Runs

end UefiLkl.Lk
