import UefiLkl.Lk.Changes
set_option autoImplicit false

/-!
What a step of the machine is, what holds in every state it comes to, and the rule for what
else does.
-/

namespace UefiLkl.Lk
open Coroutine

def Frame.op? (f : Frame) : Option Op :=
  match f.instr with
  | .section o _ => some o
  | _ => none

def Machine.begins (m : Machine) (label : Label) : Option Op :=
  match m.code m.current with
  | .outside =>
    match label with
    | .run => (m.kernel.frames m.current).head?.bind Frame.op?
    | .tick => if m.kernel.threadTimerTick.2 then some .threadPreempt else none
    | .preempt => some .threadPreempt
    | .lTimer τ => some (.eventSignal (.timer τ) true)
    | .expire t => some (.threadUnblock t ERR_TIMED_OUT)
    | _ => none
  | _ => none

/-- The operations that are done on top of what the thread is in. -/
inductive Machine.Interrupt (m : Machine) : Kernel → Op → Prop where
  | tick : Interrupt m m.kernel.threadTimerTick.1 .threadPreempt
  | preempt : Interrupt m m.kernel .threadPreempt
  | lTimer (τ : Nat) (hnew : τ < m.kernel.nextTimer)
    (hclosed : (m.kernel.ltimer τ).closed = false) :
    Interrupt m m.kernel (.eventSignal (.timer τ) true)
  | expire (t : Tid) (harmed : m.kernel.armed t = true) :
    Interrupt m (m.kernel.arm t false) (.threadUnblock t ERR_TIMED_OUT)

/-- The kernel in which an operation begins. -/
inductive Machine.Ground (m : Machine) : Kernel → Prop where
  | run : Ground m m.kernel
  | interrupt {lk : Kernel} {op : Op} (h : m.Interrupt lk op) :
    Ground m (lk.setFrames m.current (.op op :: lk.frames m.current))

/-- What a step outside of the lock does. -/
inductive Machine.Aside (m : Machine) : Kernel → Prop where
  | fresh (hcode : m.code m.current = .fresh) :
    Aside m ({ m.kernel with threadLock := false }.setFrames m.current
      (m.kernel.threads m.current).entry.frames)
  | act {f : Frame} {stack : List Frame} {g : Kernel → Kernel} {next : Kernel → List Frame}
    (hframes : m.kernel.frames m.current = f :: stack) (hinstr : f.instr = .act g next) :
    Aside m ((g m.kernel).setFrames m.current (next m.kernel ++ stack))
  | call {f : Frame} {stack : List Frame} (hframes : m.kernel.frames m.current = .user :: stack)
    (hf : f.callable = true) : Aside m (m.kernel.setFrames m.current (f :: .user :: stack))
  | ret {stack : List Frame} (hframes : m.kernel.frames m.current = .user :: stack) :
    Aside m (m.kernel.setFrames m.current stack)
  | exit {r : Int} (hframes : m.kernel.frames m.current = [.user]) :
    Aside m (m.kernel.setFrames m.current [.exit r])
  | tick : Aside m m.kernel.threadTimerTick.1

inductive Machine.Step (m : Machine) (label : Label) : Machine → Prop where
  | aside {lk : Kernel} (hcode : ∀ k, m.code m.current ≠ .inside k) (h : m.Aside lk) :
    Step m label (m.aside lk)
  | enter {lk : Kernel} {f : Frame} {stack : List Frame} {op : Op} {next : Int → List Frame}
    (hcode : m.code m.current = .outside) (h : m.Ground lk)
    (hframes : lk.frames m.current = f :: stack) (hinstr : f.instr = .section op next)
    (hbegins : m.begins label = some op) :
    Step m label (m.settle m.current op (fun r => next r ++ stack) true
      ((perform op).run (lk.begins m.current op)))
  | resume {k : Kernel → Susp Kernel Int} {f : Frame} {stack : List Frame} {op : Op}
    {next : Int → List Frame} (hcode : m.code m.current = .inside k)
    (hframes : m.kernel.frames m.current = f :: stack) (hinstr : f.instr = .section op next) :
    Step m label (m.settle m.current op (fun r => next r ++ stack) false (k m.kernel))

/-- The same, by the label. -/
inductive Machine.Acts (m : Machine) : Label → Kernel → Prop where
  | fresh (hcode : m.code m.current = .fresh) :
    Acts m .run ({ m.kernel with threadLock := false }.setFrames m.current
      (m.kernel.threads m.current).entry.frames)
  | act {f : Frame} {stack : List Frame} {g : Kernel → Kernel} {next : Kernel → List Frame}
    (hframes : m.kernel.frames m.current = f :: stack) (hinstr : f.instr = .act g next) :
    Acts m .run ((g m.kernel).setFrames m.current (next m.kernel ++ stack))
  | call {f : Frame} {stack : List Frame} (hframes : m.kernel.frames m.current = .user :: stack)
    (hf : f.callable = true) : Acts m (.call f) (m.kernel.setFrames m.current (f :: .user :: stack))
  | ret {r : Int} {stack : List Frame} (hframes : m.kernel.frames m.current = .user :: stack) :
    Acts m (.ret r) (m.kernel.setFrames m.current stack)
  | exit {r : Int} (hframes : m.kernel.frames m.current = [.user]) :
    Acts m (.ret r) (m.kernel.setFrames m.current [.exit r])
  | tick : Acts m .tick m.kernel.threadTimerTick.1

inductive Machine.Does (m : Machine) (label : Label) : Machine → Prop where
  | aside {lk : Kernel} (hcode : ∀ k, m.code m.current ≠ .inside k) (h : m.Acts label lk) :
    Does m label (m.aside lk)
  | enter {lk : Kernel} {f : Frame} {stack : List Frame} {op : Op} {next : Int → List Frame}
    (hcode : m.code m.current = .outside) (h : m.Ground lk)
    (hframes : lk.frames m.current = f :: stack) (hinstr : f.instr = .section op next)
    (hbegins : m.begins label = some op) :
    Does m label (m.settle m.current op (fun r => next r ++ stack) true
      ((perform op).run (lk.begins m.current op)))
  | resume {k : Kernel → Susp Kernel Int} {f : Frame} {stack : List Frame} {op : Op}
    {next : Int → List Frame} (hcode : m.code m.current = .inside k)
    (hframes : m.kernel.frames m.current = f :: stack) (hinstr : f.instr = .section op next) :
    Does m label (m.settle m.current op (fun r => next r ++ stack) false (k m.kernel))

theorem Kernel.threadTimerTick_eq (lk : Kernel) :
    lk.threadTimerTick.1 = { lk with threads := lk.threadTimerTick.1.threads } := by
  unfold Kernel.threadTimerTick
  dsimp only
  split <;> rfl

section Steps

variable {m m' : Machine} {label : Label}

theorem Machine.interrupt_eq {lk : Kernel} (op : Op) (hcurrent : lk.currentThread = m.current) :
    m.interrupt lk op = some (m.settle m.current op (fun _ => [] ++ lk.frames m.current) true
      ((perform op).run ((lk.setFrames m.current (.op op :: lk.frames m.current)).begins
        m.current op))) := by
  simp only [Machine.interrupt, Machine.exec, Machine.current, Kernel.setFrames, hcurrent,
    Function.update_self, Frame.instr, Option.some.injEq]
  simp only [Machine.enter, Machine.current, Machine.settle]

theorem Machine.interrupt_cases {lk : Kernel} {op : Op} (hcode : m.code m.current = .outside)
    (hcurrent : lk.currentThread = m.current) (hbegins : m.begins label = some op)
    (hi : m.Interrupt lk op) (h : m.interrupt lk op = some m') : m.Does label m' := by
  rw [Machine.interrupt_eq op hcurrent, Option.some.injEq] at h
  rw [← h]
  exact .enter (f := .op op) hcode (.interrupt hi) (by simp [Kernel.setFrames]) rfl hbegins

theorem Machine.exec_cases (hcode : m.code m.current = .outside) (h : m.exec = some m') :
    m.Does .run m' := by
  unfold Machine.exec at h
  cases hframes : m.kernel.frames m.current with
  | nil => simp [hframes] at h
  | cons f stack =>
    simp only [hframes] at h
    cases hinstr : f.instr with
    | «section» op next =>
      simp only [hinstr, Option.some.injEq] at h
      rw [← h]
      exact .enter hcode .run hframes hinstr
        (by simp [Machine.begins, hcode, hframes, Frame.op?, hinstr])
    | act g next =>
      simp only [hinstr, Option.some.injEq] at h
      rw [← h]
      exact .aside (by simp [hcode]) (.act hframes hinstr)
    | user => simp [hinstr] at h

theorem Machine.step_does (h : m.step label = some m') : m.Does label m' := by
  unfold Machine.step at h
  cases hcode : m.code m.current with
  | fresh =>
    simp only [hcode] at h
    split at h
    · next hlabel =>
      subst hlabel
      simp only [Option.some.injEq] at h
      rw [← h]
      exact .aside (by simp [hcode]) (.fresh hcode)
    · cases h
  | inside k =>
    simp only [hcode] at h
    split at h
    · unfold Machine.resume at h
      cases hframes : m.kernel.frames m.current with
      | nil => simp [hframes] at h
      | cons f stack =>
        simp only [hframes] at h
        cases hinstr : f.instr with
        | «section» op next =>
          simp only [hinstr, Option.some.injEq] at h
          rw [← h]
          exact .resume hcode hframes hinstr
        | act g next => simp [hinstr] at h
        | user => simp [hinstr] at h
    · cases h
  | outside =>
    simp only [hcode] at h
    cases label with
    | run => exact Machine.exec_cases hcode h
    | call f =>
      cases hframes : m.kernel.frames m.current with
      | nil => simp [hframes] at h
      | cons f' stack =>
        simp only [hframes, List.head?_cons, Option.some.injEq] at h
        split at h
        · next hf =>
          obtain ⟨rfl, hf⟩ := hf
          simp only [Option.some.injEq] at h
          rw [← h]
          exact .aside (by simp [hcode]) (.call hframes hf)
        · cases h
    | ret r =>
      dsimp only at h
      split at h
      · next hframes =>
        simp only [Option.some.injEq] at h
        rw [← h]
        exact .aside (by simp [hcode]) (.exit hframes)
      · next stack _ hframes =>
        simp only [Option.some.injEq] at h
        rw [← h]
        exact .aside (by simp [hcode]) (.ret hframes)
      · cases h
    | tick =>
      dsimp only at h
      split at h
      · next htick =>
        refine Machine.interrupt_cases hcode ?_ (by simp [Machine.begins, hcode, htick]) .tick h
        rw [Kernel.threadTimerTick_eq]
        rfl
      · simp only [Option.some.injEq] at h
        rw [← h]
        exact .aside (by simp [hcode]) .tick
    | preempt =>
      exact Machine.interrupt_cases hcode rfl (by simp [Machine.begins, hcode]) .preempt h
    | lTimer τ =>
      dsimp only at h
      split at h
      · next hτ =>
        exact Machine.interrupt_cases hcode rfl (by simp [Machine.begins, hcode])
          (.lTimer τ hτ.1 hτ.2) h
      · cases h
    | expire t =>
      dsimp only at h
      split at h
      · next ht =>
        exact Machine.interrupt_cases hcode
          (rfl : (m.kernel.arm t false).currentThread = _) (by simp [Machine.begins, hcode])
            (.expire t ht) h
      · cases h

theorem Machine.Acts.aside {lk : Kernel} (h : m.Acts label lk) : m.Aside lk := by
  cases h with
  | fresh hcode => exact .fresh hcode
  | act hframes hinstr => exact .act hframes hinstr
  | call hframes hf => exact .call hframes hf
  | ret hframes => exact .ret hframes
  | exit hframes => exact .exit hframes
  | tick => exact .tick

theorem Machine.step_cases (h : m.step label = some m') : m.Step label m' := by
  cases Machine.step_does h with
  | aside hcode ha => exact .aside hcode ha.aside
  | enter hcode hg hframes hinstr hbegins => exact .enter hcode hg hframes hinstr hbegins
  | resume hcode hframes hinstr => exact .resume hcode hframes hinstr

end Steps

/-- Thread `c` is to go on with the operation. -/
structure Turn (c : Tid) (op : Op) (frames : List Frame) (lk : Kernel) : Prop where
  current : lk.currentThread = c
  doing : lk.doing c = some op
  frames : lk.frames c = frames

/-- `J` holds, and goes on to hold when a thread goes on with what it is in. -/
structure Machine.Holds (J : Kernel → Prop) (m : Machine) : Prop where
  kernel : J m.kernel
  fresh : ∀ t, m.code t = .fresh → m.kernel.doing t = none ∧ m.kernel.frames t = []
  outside : ∀ t, m.code t = .outside → m.kernel.doing t = none
  inside : ∀ t k, m.code t = .inside k → ∃ f stack op next,
    m.kernel.frames t = f :: stack ∧ f.instr = .section op next ∧ m.kernel.doing t = some op ∧
      (∀ lk, lk.currentThread = t →
        (k lk).Moves (fun lk => lk.currentThread = t) (Kernel.Changes t op) lk) ∧
      ∀ lk, Turn t op (f :: stack) lk → J lk → (k lk).Wp (Turn t op (f :: stack)) J
        (fun b r lk' => J (lk'.ends t op b r (next r ++ stack))) false

section Holds

variable {J : Kernel → Prop} {m m' : Machine}

theorem Machine.Holds.replace {lk : Kernel} (h : m.Holds J) (hJ : J lk)
    (hdoing : ∀ t, t ≠ m.current → lk.doing t = m.kernel.doing t)
    (hframes : ∀ t, t ≠ m.current → lk.frames t = m.kernel.frames t)
    (hself : lk.doing m.current = none) :
    Machine.Holds J ⟨lk, Function.update m.code m.current .outside⟩ := by
  refine ⟨hJ, fun t ht => ?_, fun t ht => ?_, fun t k ht => ?_⟩
  · by_cases hc : t = m.current
    · simp [hc] at ht
    · dsimp only at ht ⊢
      rw [Function.update_of_ne hc] at ht
      rw [hdoing t hc, hframes t hc]
      exact h.fresh t ht
  · by_cases hc : t = m.current
    · rw [hc]
      exact hself
    · dsimp only at ht ⊢
      rw [Function.update_of_ne hc] at ht
      rw [hdoing t hc]
      exact h.outside t ht
  · by_cases hc : t = m.current
    · simp [hc] at ht
    · dsimp only at ht ⊢
      rw [Function.update_of_ne hc] at ht
      rw [hdoing t hc, hframes t hc]
      exact h.inside t k ht

theorem Machine.Holds.settle {lk : Kernel} {x : Susp Kernel Int} {f : Frame} {stack : List Frame}
    {op : Op} {next : Int → List Frame} {b : Bool} (h : m.Holds J)
    (hlk : Turn m.current op (f :: stack) lk)
    (hdoing : ∀ t, t ≠ m.current → lk.doing t = m.kernel.doing t)
    (hframes : ∀ t, t ≠ m.current → lk.frames t = m.kernel.frames t)
    (hinstr : f.instr = .section op next)
    (hmoves : x.Moves (fun lk => lk.currentThread = m.current) (Kernel.Changes m.current op) lk)
    (hwp : x.Wp (Turn m.current op (f :: stack)) J
      (fun b r lk' => J (lk'.ends m.current op b r (next r ++ stack))) b) :
    (m.settle m.current op (fun r => next r ++ stack) b x).Holds J := by
  cases x with
  | done r lk' =>
    have hsteady := Kernel.Changes.steady hmoves.1
    refine h.replace hwp (fun t ht => ?_) (fun t ht => ?_) (by simp [Kernel.ends])
    · simp only [Kernel.ends, Function.update_of_ne ht, hsteady.doing, hdoing t ht]
    · simp only [Kernel.ends, Kernel.setFrames, Kernel.note, Function.update_of_ne ht,
        hsteady.frames, hframes t ht]
  | switch lk' k =>
    have hsteady := Kernel.Changes.steady hmoves.1
    refine ⟨hwp.1, fun t ht => ?_, fun t ht => ?_, fun t k' ht => ?_⟩
    · by_cases hc : t = m.current
      · simp [hc, Machine.settle] at ht
      · simp only [Machine.settle, Function.update_of_ne hc] at ht ⊢
        rw [hsteady.doing, hsteady.frames, hdoing t hc, hframes t hc]
        exact h.fresh t ht
    · by_cases hc : t = m.current
      · simp [hc, Machine.settle] at ht
      · simp only [Machine.settle, Function.update_of_ne hc] at ht ⊢
        rw [hsteady.doing, hdoing t hc]
        exact h.outside t ht
    · by_cases hc : t = m.current
      · subst hc
        simp only [Machine.settle, Function.update_self, Code.inside.injEq] at ht ⊢
        subst ht
        exact ⟨f, stack, op, next, by rw [hsteady.frames, hlk.frames], hinstr,
          by rw [hsteady.doing, hlk.doing], hmoves.2, hwp.2⟩
      · simp only [Machine.settle, Function.update_of_ne hc] at ht ⊢
        rw [hsteady.doing, hsteady.frames, hdoing t hc, hframes t hc]
        exact h.inside t k' ht

end Holds

/-- What is left of the kernel when the timers, the frees and the frames are set aside is the
same, but for quanta and timeouts. -/
structure Kernel.Quiet (lk lk' : Kernel) : Prop where
  threads : ∀ t, ∃ n, lk'.threads t = { lk.threads t with remainingQuantum := n }
  nextTid : lk'.nextTid = lk.nextTid
  runQueue : lk'.runQueue = lk.runQueue
  runQueueBitmap : lk'.runQueueBitmap = lk.runQueueBitmap
  currentThread : lk'.currentThread = lk.currentThread
  wait : lk'.wait = lk.wait
  sem : lk'.sem = lk.sem
  mutex : lk'.mutex = lk.mutex
  event : lk'.event = lk.event
  recursive : lk'.recursive = lk.recursive
  doing : lk'.doing = lk.doing
  armed : ∀ t, lk'.armed t = true → lk.armed t = true
  log : ∃ l, lk'.log = lk.log ++ l ∧ ∀ h ∈ l, ∃ τ, h = .fnBegins τ ∨ h = .timerFreed τ

section Quiet

variable {lk lk' lk'' : Kernel}

theorem Kernel.Quiet.refl (lk : Kernel) : lk.Quiet lk := by
  constructor <;> first | exact fun t => ⟨_, rfl⟩ | rfl | exact fun _ => id |
    exact ⟨[], by simp, by simp⟩

theorem Kernel.Quiet.trans (h : lk.Quiet lk') (h' : lk'.Quiet lk'') : lk.Quiet lk'' where
  threads t := by
    obtain ⟨n, hn⟩ := h.threads t
    obtain ⟨n', hn'⟩ := h'.threads t
    exact ⟨n', by rw [hn', hn]⟩
  nextTid := h'.nextTid.trans h.nextTid
  runQueue := h'.runQueue.trans h.runQueue
  runQueueBitmap := h'.runQueueBitmap.trans h.runQueueBitmap
  currentThread := h'.currentThread.trans h.currentThread
  wait := h'.wait.trans h.wait
  sem := h'.sem.trans h.sem
  mutex := h'.mutex.trans h.mutex
  event := h'.event.trans h.event
  recursive := h'.recursive.trans h.recursive
  doing := h'.doing.trans h.doing
  armed t ht := h.armed t (h'.armed t ht)
  log := by
    obtain ⟨l, hl, hq⟩ := h.log
    obtain ⟨l', hl', hq'⟩ := h'.log
    refine ⟨l ++ l', by rw [hl', hl, List.append_assoc], ?_⟩
    intro x hx
    exact (List.mem_append.mp hx).elim (hq x) (hq' x)

theorem Kernel.Quiet.of_eq {frames : Tid → List Frame} {ltimer : Nat → LTimer} {nextTimer : Nat}
    {structFrees stackFrees : Tid → Nat} {faults : List Fault} {threadLock : Bool}
    (h : lk' = { lk with
      frames := frames
      ltimer := ltimer
      nextTimer := nextTimer
      structFrees := structFrees
      stackFrees := stackFrees
      faults := faults
      threadLock := threadLock }) : lk.Quiet lk' := by
  subst h
  constructor <;> first | exact fun t => ⟨_, rfl⟩ | rfl | exact fun _ => id |
    exact ⟨[], by simp, by simp⟩

theorem Kernel.Quiet.note (lk : Kernel) {h : Happening}
    (hh : ∃ τ, h = .fnBegins τ ∨ h = .timerFreed τ) : lk.Quiet (lk.note h) := by
  constructor <;> first | exact fun t => ⟨_, rfl⟩ | rfl | exact fun _ => id |
    exact ⟨[h], rfl, by simpa using hh⟩

theorem Kernel.Quiet.setFrames (lk : Kernel) (t : Tid) (frames : List Frame) :
    lk.Quiet (lk.setFrames t frames) :=
  .of_eq rfl

theorem Kernel.Quiet.disarm (lk : Kernel) (t : Tid) : lk.Quiet (lk.arm t false) := by
  constructor <;> first | exact fun t => ⟨_, rfl⟩ | rfl |
    exact ⟨[], by simp [Kernel.arm], by simp⟩ | skip
  intro u hu
  by_cases hut : u = t
  · simp [Kernel.arm, hut] at hu
  · simpa [Kernel.arm, hut] using hu

theorem Kernel.Quiet.tick (lk : Kernel) : lk.Quiet lk.threadTimerTick.1 := by
  have hthreads : ∀ t, ∃ n, lk.threadTimerTick.1.threads t =
      { lk.threads t with remainingQuantum := n } := by
    intro t
    unfold Kernel.threadTimerTick
    dsimp only
    split
    · exact ⟨_, rfl⟩
    · by_cases ht : t = lk.currentThread
      · subst ht
        exact ⟨(lk.threads lk.currentThread).remainingQuantum - 1, Function.update_self _ _ _⟩
      · exact ⟨(lk.threads t).remainingQuantum, Function.update_of_ne ht _ _⟩
  rw [Kernel.threadTimerTick_eq]
  constructor <;> first | exact hthreads | rfl | exact fun _ => id | exact ⟨[], by simp, by simp⟩

theorem Frame.act_quiet {f : Frame} {g : Kernel → Kernel} {next : Kernel → List Frame}
    (hinstr : f.instr = .act g next) (lk : Kernel) :
    lk.Quiet (g lk) ∨ ∃ e, f = .eventUnsignal e ∧ g lk = lk.eventUnsignal e := by
  cases f with
  | freeStack t =>
    cases hinstr
    refine .inl ?_
    dsimp only
    rw [Kernel.useThread_eq]
    split
    · exact .of_eq rfl
    · exact .of_eq rfl
  | freeStruct t =>
    cases hinstr
    refine .inl ?_
    dsimp only
    rw [Kernel.useThread_eq]
    split
    · exact .of_eq rfl
    · exact .of_eq rfl
  | eventUnsignal e =>
    cases hinstr
    exact .inr ⟨e, rfl, rfl⟩
  | mutexLock m => cases hinstr; exact .inl (.refl lk)
  | mutexUnlock m => cases hinstr; exact .inl (.refl lk)
  | lklThreadDetach => cases hinstr; exact .inl (.refl lk)
  | timerAlloc => cases hinstr; exact .inl (.of_eq rfl)
  | timerSetOneshot τ => cases hinstr; exact .inl (.of_eq (Kernel.useEvent_eq lk _))
  | timerFree τ =>
    cases hinstr
    dsimp only
    rw [Kernel.useTimer, Kernel.useEvent_eq]
    exact .inl (.of_eq rfl)
  | timerFreeStop τ =>
    cases hinstr
    dsimp only
    rw [Kernel.useTimer, Kernel.useEvent_eq]
    exact .inl (.of_eq rfl)
  | timerFreeReturn τ => cases hinstr; exact .inl (.note lk ⟨τ, .inr rfl⟩)
  | timerThread τ => cases hinstr; exact .inl (.of_eq (Kernel.useEvent_eq lk _))
  | timerCheck τ => cases hinstr; exact .inl (.of_eq (Kernel.useEvent_eq lk _))
  | timerCall τ =>
    cases hinstr
    exact .inl (.trans (.of_eq (Kernel.useEvent_eq lk _)) (.note _ ⟨τ, .inl rfl⟩))
  | timerFreePool τ =>
    cases hinstr
    dsimp only
    rw [Kernel.useTimer, Kernel.useEvent_eq]
    exact .inl (.of_eq rfl)
  | _ => cases hinstr

theorem Machine.Aside.quiet {m : Machine} (h : m.Aside lk') :
    m.kernel.Quiet lk' ∨ ∃ e, .eventUnsignal e ∈ m.kernel.frames m.current ∧
      (m.kernel.eventUnsignal e).Quiet lk' := by
  cases h with
  | fresh => exact .inl (.of_eq rfl)
  | act hframes hinstr =>
    rcases Frame.act_quiet hinstr m.kernel with hg | ⟨e, rfl, hg⟩
    · exact .inl (hg.trans (.setFrames _ _ _))
    · rw [hg]
      exact .inr ⟨e, by simp [hframes], .setFrames _ _ _⟩
  | call => exact .inl (.setFrames _ _ _)
  | ret => exact .inl (.setFrames _ _ _)
  | exit => exact .inl (.setFrames _ _ _)
  | tick => exact .inl (.tick _)

theorem Machine.Interrupt.quiet {m : Machine} {op : Op} (h : m.Interrupt lk op) :
    m.kernel.Quiet lk := by
  cases h with
  | tick => exact .tick _
  | preempt => exact .refl _
  | lTimer => exact .refl _
  | expire t => exact .disarm _ t

theorem Machine.Ground.quiet {m : Machine} (h : m.Ground lk) : m.kernel.Quiet lk := by
  cases h with
  | run => exact .refl _
  | interrupt h => exact h.quiet.trans (.setFrames _ _ _)

end Quiet

/-- The frames the idle thread may be in. -/
def Frame.ofIdle : Frame → Bool
  | .idle => true
  | .op o => o.forIdle
  | _ => false

/-- Who is on a wait queue is inside an operation on its object; who is inside an operation has
not exited; and the idle thread idles. -/
structure Kernel.Tracked (lk : Kernel) : Prop where
  queued : ∀ q t, t ∈ (lk.wait q).list → ∃ op, lk.doing t = some op ∧ op.waitsOn = some q
  alive : ∀ t op, lk.doing t = some op → t < lk.nextTid ∧ ((∀ r, op ≠ .threadExit r) →
    (lk.threads t).state = .ready ∨ (lk.threads t).state = .running ∨
      (lk.threads t).state = .blocked)
  idle : ∀ f ∈ lk.frames idleThread, f.ofIdle = true
  entry : (lk.threads idleThread).entry = .idle
  made : idleThread < lk.nextTid

structure Kernel.Sound (lk : Kernel) : Prop where
  wf : lk.Wf
  tracked : lk.Tracked

section Sound

variable {lk lk' : Kernel} {c : Tid} {op : Op}

theorem Kernel.Sound.current_lt (h : lk.Sound) : lk.currentThread < lk.nextTid := by
  have hrun := (h.wf.running lk.currentThread (Set.notMem_empty _)).mpr rfl
  exact Queues.lt_nextTid h.wf (by rw [hrun]; decide)

theorem Kernel.Tracked.change (h : lk.Tracked) (hdoing : lk.doing c = some op)
    (hchange : Kernel.Change c op lk lk') : lk'.Tracked where
  queued q t ht := by
    rw [hchange.steady.doing]
    rcases hchange.mem_wait ht with ht | ⟨rfl, hq⟩
    · exact h.queued q t ht
    · exact ⟨op, hdoing, hq⟩
  alive t op' ht := by
    rw [hchange.steady.doing] at ht
    obtain ⟨hborn, hstate⟩ := h.alive t op' ht
    refine ⟨hborn.trans_le hchange.nextTid_le, fun hexit => ?_⟩
    rcases hchange.thread t with heq | hrecast
    · rw [heq]
      exact hstate hexit
    · generalize lk'.threads t = thread at hrecast ⊢
      cases hrecast with
      | requeued f hf => exact .inl (hf.state _)
      | running => exact .inr (.inl rfl)
      | quantum => exact hstate hexit
      | blocked => exact .inr (.inr rfl)
      | woken => exact .inl rfl
      | created => exact absurd rfl hborn.ne
      | resumed => exact .inl rfl
      | unlinked => exact hstate hexit
      | detached => exact hstate hexit
      | dead r hop =>
        rw [hdoing] at ht
        cases ht
        exact absurd hop (hexit r)
  idle := by
    rw [hchange.steady.frames]
    exact h.idle
  entry := (hchange.entry h.made).trans h.entry
  made := h.made.trans_le hchange.nextTid_le

theorem Kernel.Tracked.changes (h : lk.Tracked) (hdoing : lk.doing c = some op)
    (hchanges : Kernel.Changes c op lk lk') : lk'.Tracked := by
  induction hchanges with
  | refl => exact h
  | tail h' hchange ih =>
    refine ih.change ?_ hchange
    rw [(Kernel.Changes.steady h').doing]
    exact hdoing

theorem Kernel.Quiet.wf (h : lk.Quiet lk') (hwf : lk.Wf) : lk'.Wf := by
  unfold Kernel.Wf Kernel.Placed
  rw [h.runQueue, h.runQueueBitmap, h.wait, h.nextTid, h.currentThread]
  apply Queues.of_threads hwf <;>
    · intro t
      obtain ⟨n, hn⟩ := h.threads t
      rw [hn]

theorem Kernel.Quiet.tracked (h : lk.Quiet lk') (htracked : lk.Tracked)
    (hidle : ∀ f ∈ lk'.frames idleThread, f.ofIdle = true) : lk'.Tracked where
  queued q t ht := by
    rw [h.wait] at ht
    rw [h.doing]
    exact htracked.queued q t ht
  alive t op ht := by
    obtain ⟨n, hn⟩ := h.threads t
    rw [h.doing] at ht
    rw [h.nextTid, hn]
    exact htracked.alive t op ht
  idle := hidle
  entry := by
    obtain ⟨n, hn⟩ := h.threads idleThread
    rw [hn]
    exact htracked.entry
  made := by
    rw [h.nextTid]
    exact htracked.made

theorem Kernel.eventUnsignal_sound (e : EventId) (h : lk.Sound) : (lk.eventUnsignal e).Sound := by
  unfold Kernel.eventUnsignal
  rw [Kernel.useEvent_eq]
  exact ⟨h.wf, ⟨h.tracked.queued, h.tracked.alive, h.tracked.idle, h.tracked.entry, h.tracked.made⟩⟩

theorem Kernel.Sound.begins (h : lk.Sound) (op : Op) (hc : lk.currentThread = c)
    (hdoing : lk.doing c = none) : (lk.begins c op).Sound := by
  refine ⟨h.wf, ⟨fun q t ht => ?_, fun t op' ht => ?_, h.tracked.idle, h.tracked.entry,
    h.tracked.made⟩⟩
  · obtain ⟨op', hop, hq⟩ := h.tracked.queued q t ht
    have hne : t ≠ c := by
      rintro rfl
      rw [hdoing] at hop
      cases hop
    exact ⟨op', by simpa [Kernel.begins, hne] using hop, hq⟩
  · by_cases hne : t = c
    · have hrun : (lk.threads t).state = .running := by
        rw [hne, ← hc]
        exact (h.wf.running _ (Set.notMem_empty _)).mpr rfl
      exact ⟨Queues.lt_nextTid h.wf (by rw [hrun]; decide), fun _ => .inr (.inl hrun)⟩
    · exact h.tracked.alive t op' (by simpa [Kernel.begins, hne] using ht)

theorem Kernel.Sound.ends {b : Bool} {r : Int} {frames : List Frame} (h : lk.Sound)
    (hc : lk.currentThread = c)
    (hidle : c = idleThread → ∀ f ∈ frames, f.ofIdle = true) :
    (lk.ends c op b r frames).Sound := by
  refine ⟨h.wf, ⟨fun q t ht => ?_, fun t op' ht => ?_, fun f hf => ?_, h.tracked.entry,
    h.tracked.made⟩⟩
  · obtain ⟨op', hop, hq⟩ := h.tracked.queued q t ht
    have hne : c ≠ t := hc ▸ h.wf.run_ne_of_blocked ht
    exact ⟨op', by simpa [Kernel.ends, hne.symm] using hop, hq⟩
  · by_cases hne : t = c
    · simp [Kernel.ends, hne] at ht
    · exact h.tracked.alive t op' (by simpa [Kernel.ends, hne] using ht)
  · by_cases hne : idleThread = c
    · exact hidle hne.symm f (by simpa [Kernel.ends, Kernel.setFrames, hne] using hf)
    · exact h.tracked.idle f (by simpa [Kernel.ends, Kernel.setFrames, Kernel.note, hne] using hf)

theorem Frame.ofIdle_section {f : Frame} {op : Op} {next : Int → List Frame}
    (hf : f.ofIdle = true) (hinstr : f.instr = .section op next) :
    op.forIdle = true ∧ ∀ r, ∀ f' ∈ next r, f'.ofIdle = true := by
  cases f with
  | idle =>
    cases hinstr
    exact ⟨rfl, by simp [Frame.ofIdle]⟩
  | op o =>
    cases hinstr
    exact ⟨hf, by simp⟩
  | _ => cases hf

theorem Frame.act_eq {f : Frame} {g : Kernel → Kernel} {next : Kernel → List Frame}
    (hinstr : f.instr = .act g next) (lk : Kernel) :
    ∃ event ltimer nextTimer structFrees stackFrees faults log, g lk = { lk with
      event := event
      ltimer := ltimer
      nextTimer := nextTimer
      structFrees := structFrees
      stackFrees := stackFrees
      faults := faults
      log := log } := by
  have huse : ∀ τ, lk.useTimer τ = { lk with faults := (lk.useTimer τ).faults } := fun τ =>
    Kernel.useEvent_eq lk _
  cases f with
  | freeStack t =>
    cases hinstr
    dsimp only
    rw [Kernel.useThread_eq]
    split <;> exact ⟨_, _, _, _, _, _, _, rfl⟩
  | freeStruct t =>
    cases hinstr
    dsimp only
    rw [Kernel.useThread_eq]
    split <;> exact ⟨_, _, _, _, _, _, _, rfl⟩
  | eventUnsignal e =>
    cases hinstr
    dsimp only
    rw [Kernel.eventUnsignal, Kernel.useEvent_eq]
    exact ⟨_, _, _, _, _, _, _, rfl⟩
  | timerSetOneshot τ | timerFree τ | timerFreeStop τ | timerThread τ | timerCheck τ
  | timerCall τ | timerFreePool τ =>
    cases hinstr
    dsimp only
    rw [huse]
    exact ⟨_, _, _, _, _, _, _, rfl⟩
  | _ => cases hinstr <;> exact ⟨_, _, _, _, _, _, _, rfl⟩

theorem Frame.act_frames {f : Frame} {g : Kernel → Kernel} {next : Kernel → List Frame}
    (hinstr : f.instr = .act g next) (lk : Kernel) : (g lk).frames = lk.frames := by
  obtain ⟨event, ltimer, nextTimer, structFrees, stackFrees, faults, log, hg⟩ :=
    Frame.act_eq hinstr lk
  rw [hg]

theorem Frame.act_not_ofIdle {f : Frame} {g : Kernel → Kernel} {next : Kernel → List Frame}
    (hinstr : f.instr = .act g next) : f.ofIdle = false := by
  cases f <;> first | rfl | cases hinstr

theorem Machine.Aside.frames {m : Machine} {t : Tid} (h : m.Aside lk) (ht : t ≠ m.current) :
    lk.frames t = m.kernel.frames t := by
  cases h with
  | fresh => exact Function.update_of_ne ht _ _
  | act hframes hinstr =>
    rw [← Frame.act_frames hinstr m.kernel]
    exact Function.update_of_ne ht _ _
  | call => exact Function.update_of_ne ht _ _
  | ret => exact Function.update_of_ne ht _ _
  | exit => exact Function.update_of_ne ht _ _
  | tick => rw [Kernel.threadTimerTick_eq]

theorem Machine.Aside.doing {m : Machine} (h : m.Aside lk) : lk.doing = m.kernel.doing := by
  rcases h.quiet with hq | ⟨e, -, hq⟩
  · exact hq.doing
  · rw [hq.doing, Kernel.eventUnsignal, Kernel.useEvent_eq]
    rfl

theorem Machine.Aside.idle {m : Machine} (h : m.Aside lk) (hsound : m.kernel.Sound) :
    ∀ f ∈ lk.frames idleThread, f.ofIdle = true := by
  have hidle := hsound.tracked.idle
  by_cases hc : idleThread = m.current
  · rw [hc] at hidle ⊢
    cases h with
    | fresh hcode =>
      rw [← hc, hsound.tracked.entry]
      simp [Kernel.setFrames, Entry.frames, Frame.ofIdle]
    | act hframes hinstr =>
      have hf := hidle _ (by rw [hframes]; exact List.mem_cons_self)
      rw [Frame.act_not_ofIdle hinstr] at hf
      cases hf
    | call hframes =>
      have hf := hidle _ (by rw [hframes]; exact List.mem_cons_self)
      cases hf
    | ret hframes =>
      have hf := hidle _ (by rw [hframes]; exact List.mem_cons_self)
      cases hf
    | exit hframes =>
      have hf := hidle _ (by rw [hframes]; exact List.mem_cons_self)
      cases hf
    | tick =>
      rw [Kernel.threadTimerTick_eq]
      exact hidle
  · rw [h.frames hc]
    exact hidle

theorem Machine.Aside.sound {m : Machine} (h : m.Aside lk) (hsound : m.kernel.Sound) :
    lk.Sound := by
  rcases h.quiet with hq | ⟨e, -, hq⟩
  · exact ⟨hq.wf hsound.wf, hq.tracked hsound.tracked (h.idle hsound)⟩
  · have hsound' := Kernel.eventUnsignal_sound e hsound
    exact ⟨hq.wf hsound'.wf, hq.tracked hsound'.tracked (h.idle hsound)⟩

theorem Machine.Interrupt.frames {m : Machine} {op : Op} (h : m.Interrupt lk op) :
    lk.frames = m.kernel.frames := by
  cases h with
  | tick => rw [Kernel.threadTimerTick_eq]
  | _ => rfl

theorem Machine.Ground.frames {m : Machine} {t : Tid} (h : m.Ground lk) (ht : t ≠ m.current) :
    lk.frames t = m.kernel.frames t := by
  cases h with
  | run => rfl
  | interrupt hi =>
    rw [← hi.frames]
    exact Function.update_of_ne ht _ _

theorem Machine.Ground.sound {m : Machine} (h : m.Ground lk) (hsound : m.kernel.Sound) :
    lk.Sound := by
  refine ⟨h.quiet.wf hsound.wf, h.quiet.tracked hsound.tracked ?_⟩
  cases h with
  | run => exact hsound.tracked.idle
  | @interrupt lk op hi =>
    have hop : (Frame.op op).ofIdle = true := by cases hi <;> rfl
    by_cases hc : idleThread = m.current
    · simp only [Kernel.setFrames, hc, Function.update_self, List.forall_mem_cons, hi.frames]
      exact ⟨hop, hc ▸ hsound.tracked.idle⟩
    · simp only [Kernel.setFrames, Function.update_of_ne hc, hi.frames]
      exact hsound.tracked.idle

/-- Every segment of an operation comes to a sound kernel again. -/
theorem perform_sound {lk : Kernel} {op : Op} {f : Frame} {stack : List Frame}
    {next : Int → List Frame} (h : lk.Sound) (hturn : Turn c op (f :: stack) lk)
    (hinstr : f.instr = .section op next) :
    ((perform op).run lk).Wp (Turn c op (f :: stack)) Kernel.Sound
      (fun b r lk' => (lk'.ends c op b r (next r ++ stack)).Sound) true := by
  have hidle : c = idleThread → f.ofIdle = true ∧ ∀ f' ∈ stack, f'.ofIdle = true := by
    rintro rfl
    have hframes := h.tracked.idle
    rw [hturn.frames] at hframes
    simpa using hframes
  have hkeeps := perform_keeps (fun hc => (Frame.ofIdle_section (hidle hc).1 hinstr).1) lk
    hturn.current h.wf
  have hmoves := perform_changing c op lk hturn.current
  have htracked : ∀ s s', Kernel.Changes c op s s' → Turn c op (f :: stack) s → s.Tracked →
      s'.Tracked := fun s s' hs ht hj => hj.changes ht.doing hs
  have hwf := Susp.Wp.weaken hkeeps fun s (hs : Turn c op (f :: stack) s) => hs.current
  have htr := (hmoves.wp (fun s hs => hs.current) htracked hturn h.tracked true).weaken
    fun s (hs : Turn c op (f :: stack) s ∧ s.Wf) => hs.1
  refine ((hwf.and htr).congr fun s => ⟨fun hs => ⟨hs.1, hs.2⟩, fun hs => ⟨hs.1, hs.2⟩⟩).mono ?_
  intro b r lk' hq
  refine Kernel.Sound.ends ⟨hq.1.2, hq.2⟩ hq.1.1 fun hc f' hf' => ?_
  rcases List.mem_append.mp hf' with hf' | hf'
  · exact (Frame.ofIdle_section (hidle hc).1 hinstr).2 r f' hf'
  · exact (hidle hc).2 f' hf'

end Sound

section Rule

variable {ok : Machine → Label → Prop} {J : Kernel → Prop} {m m' : Machine} {label : Label}

/-- A sound kernel, and `J`. -/
abbrev Machine.Keeping (J : Kernel → Prop) : Machine → Prop :=
  Machine.Holds fun lk => lk.Sound ∧ J lk

theorem Machine.Holds.not_doing (h : m.Holds J) (hcode : ∀ k, m.code m.current ≠ .inside k) :
    m.kernel.doing m.current = none := by
  cases hc : m.code m.current with
  | fresh => exact (h.fresh _ hc).1
  | inside k => exact absurd hc (hcode k)
  | outside => exact h.outside _ hc

/-- `J` is kept by a step that keeps it outside of the lock, and through every segment of the
operation it begins. -/
theorem Machine.Keeping.does (h : m.Keeping J) (hstep : m.step label = some m')
    (hacts : ∀ lk, m.Acts label lk → J lk)
    (henter : ∀ lk f stack op next, m.Ground lk → lk.frames m.current = f :: stack →
      f.instr = .section op next → m.begins label = some op →
      ((perform op).run (lk.begins m.current op)).Wp
        (fun s => Turn m.current op (f :: stack) s ∧ s.Sound) J
        (fun b r lk' => J (lk'.ends m.current op b r (next r ++ stack))) true) :
    m'.Keeping J := by
  cases Machine.step_does hstep with
  | @aside lk hcode hact =>
    have ha := hact.aside
    refine Machine.Holds.replace h ⟨ha.sound h.kernel.1, hacts lk hact⟩
      (fun t _ => by rw [ha.doing]) (fun t ht => ha.frames ht) ?_
    rw [ha.doing]
    exact h.not_doing hcode
  | @enter lk f stack op next hcode hg hframes hinstr hbegins =>
    have hnone : lk.doing m.current = none := by
      rw [hg.quiet.doing]
      exact h.outside _ hcode
    have hcurrent : lk.currentThread = m.current := hg.quiet.currentThread
    have hsound : (lk.begins m.current op).Sound := (hg.sound h.kernel.1).begins op hcurrent hnone
    have hturn : Turn m.current op (f :: stack) (lk.begins m.current op) :=
      ⟨hcurrent, by simp [Kernel.begins], hframes⟩
    refine Machine.Holds.settle h hturn (fun t ht => ?_) (fun t ht => hg.frames ht) hinstr
      (perform_changing _ _ _ hcurrent)
      ((perform_sound hsound hturn hinstr).and
        (henter lk f stack op next hg hframes hinstr hbegins))
    simp only [Kernel.begins, Function.update_of_ne ht]
    exact congrFun hg.quiet.doing t
  | @resume k f stack op next hcode hframes hinstr =>
    obtain ⟨f', stack', op', next', hframes', hinstr', hdoing, hmoves, hwp⟩ := h.inside _ k hcode
    rw [hframes] at hframes'
    cases hframes'
    rw [hinstr] at hinstr'
    cases hinstr'
    have hturn : Turn m.current op (f :: stack) m.kernel := ⟨rfl, hdoing, hframes⟩
    exact Machine.Holds.settle h hturn (fun _ _ => rfl) (fun _ _ => rfl) hinstr (hmoves _ rfl)
      (hwp _ hturn h.kernel)

theorem Machine.Run.acting (hrun : Machine.Run ok m m') (h : m.Keeping J)
    (hacts : ∀ m label lk, ok m label → m.Keeping J → m.Acts label lk → J lk)
    (henter : ∀ m label lk f stack op next, ok m label → m.Keeping J → m.Ground lk →
      lk.frames m.current = f :: stack → f.instr = .section op next → m.begins label = some op →
      ((perform op).run (lk.begins m.current op)).Wp
        (fun s => Turn m.current op (f :: stack) s ∧ s.Sound) J
        (fun b r lk' => J (lk'.ends m.current op b r (next r ++ stack))) true) :
    m'.Keeping J := by
  induction hrun with
  | nil => exact h
  | snoc _ hok hstep ih =>
    exact ih.does hstep (fun lk ha => hacts _ _ lk hok ih ha)
      fun lk f stack op next hg hf hi hb => henter _ _ lk f stack op next hok ih hg hf hi hb

theorem Machine.Run.keeping (hrun : Machine.Run ok m m') (h : m.Keeping J)
    (haside : ∀ m label lk, ok m label → m.Keeping J → m.Aside lk → J lk)
    (henter : ∀ m label lk f stack op next, ok m label → m.Keeping J → m.Ground lk →
      lk.frames m.current = f :: stack → f.instr = .section op next → m.begins label = some op →
      ((perform op).run (lk.begins m.current op)).Wp
        (fun s => Turn m.current op (f :: stack) s ∧ s.Sound) J
        (fun b r lk' => J (lk'.ends m.current op b r (next r ++ stack))) true) :
    m'.Keeping J :=
  hrun.acting h (fun m label lk hok hm ha => haside m label lk hok hm ha.aside) henter

end Rule

section Start

variable {objects : Objects}

/-- The threads before the priority of the first is set. -/
def startThreads : Tid → Thread :=
  Function.update (Function.update (fun _ => Thread.zero) bootstrapThread
    { Thread.zero with
      magic := true
      priority := HIGHEST_PRIORITY
      state := .running
      detached := true }) idleThread
    { Thread.zero with
      magic := true
      priority := IDLE_PRIORITY
      state := .suspended
      freeStack := true
      detached := true
      entry := .idle }

def Kernel.idleStart (objects : Objects) : Kernel :=
  { Kernel.start objects with
    threads := startThreads
    threadList := [idleThread, bootstrapThread] }

theorem threadCreateIdle_run (objects : Objects) :
    threadCreateIdle.run (Kernel.start objects).threadInitEarly =
      .done () (Kernel.idleStart objects) := by
  simp [threadCreateIdle, threadCreateEtc, threadDetach, waitQueueWakeAll_run,
    Kernel.threadInitEarly, Kernel.start, Kernel.addThread, Kernel.lock, Kernel.unlock,
    Kernel.useThread, Kernel.setThread, Kernel.idleStart, startThreads, waitQueueInit,
      Kernel.popAll]
  rfl

theorem Kernel.idleStart_wf (objects : Objects) : (Kernel.idleStart objects).Wf := by
  have hstate : ∀ t, (startThreads t).state =
      if t = idleThread then .suspended else if t = bootstrapThread then .running else .death := by
    intro t
    simp only [startThreads, Function.update_apply]
    split
    · rfl
    · split <;> rfl
  have hborn : ∀ t : Tid, bootstrapThread + 1 ≤ t → t ≠ idleThread ∧ t ≠ bootstrapThread := by
    intro t ht
    exact ⟨(Nat.zero_lt_of_lt ht).ne', (Nat.lt_of_succ_le ht).ne'⟩
  constructor
  · intro t _
    simp only [Kernel.idleStart, Kernel.start, hstate]
    by_cases hi : t = idleThread
    · simp [hi, idleThread, bootstrapThread]
    · by_cases hb : t = bootstrapThread
      · simp [hb, idleThread, bootstrapThread]
      · simp [hi, hb, Ne.symm hb]
  · intro p t
    simp only [Kernel.idleStart, Kernel.start, hstate, List.not_mem_nil, false_iff]
    rintro ⟨-, hready, -⟩
    split at hready
    · cases hready
    · split at hready <;> cases hready
  · intro p
    exact List.nodup_nil
  · intro p
    simp [Kernel.idleStart, Kernel.start]
  · intro q t
    simp only [Kernel.idleStart, Kernel.start, waitQueueInit, hstate, List.not_mem_nil, false_iff]
    rintro ⟨-, hblocked, -⟩
    split at hblocked
    · cases hblocked
    · split at hblocked <;> cases hblocked
  · intro q
    exact List.nodup_nil
  · intro q
    rfl
  · exact .inl rfl
  · intro t ht
    simp [Kernel.idleStart, Kernel.start, waitQueueInit, hstate, hborn t ht]
  · intro t
    simp only [Kernel.idleStart, startThreads, Function.update_apply]
    split
    · rfl
    · split <;> rfl

theorem threadResched_alone {lk : Kernel} {p : Priority} (hwf : lk.Placed none ∅)
    (hself : lk.runQueue p = [lk.currentThread]) (hother : ∀ p', p' ≠ p → lk.runQueue p' = []) :
    threadResched.run lk = .done () { lk with
      threads := (lk.getTopThread.2.setState lk.currentThread .running).threads
      runQueue := lk.getTopThread.2.runQueue
      runQueueBitmap := lk.getTopThread.2.runQueueBitmap } := by
  have htop : lk.getTopThread.1 = lk.currentThread := by
    unfold Kernel.getTopThread
    rcases lk.scan_spec (List.finRange 32).reverse with ⟨heq, hempty⟩ | ⟨p', ts, hq, -, -⟩
    · have hbit : lk.runQueueBitmap.getLsbD p = true := by simp [hwf.bitmap p, hself]
      have hnil := hempty p (by simp) hbit
      rw [hself] at hnil
      cases hnil
    · by_cases hp : p' = p
      · rw [hp, hself] at hq
        exact (List.cons.inj hq).1.symm
      · rw [hother p' hp] at hq
        cases hq
  have hcurrent : (lk.getTopThread.2.setState lk.currentThread .running).currentThread =
      lk.currentThread := by
    rw [Kernel.getTopThread_eq]
    rfl
  simp only [threadResched, htop, hcurrent, if_true]
  congr 1
  rw [Kernel.getTopThread_eq]
  rfl

theorem threadSetPriority_alone {lk : Kernel} (hwf : lk.Wf) (hempty : ∀ p, lk.runQueue p = [])
    (priority : Int) : ∃ threads runQueue runQueueBitmap,
      (threadSetPriority priority).run lk = .done () { lk with
        threads := threads
        runQueue := runQueue
        runQueueBitmap := runQueueBitmap
        threadLock := false
        ints := false || lk.ints } := by
  have hl : lk.lock.Wf := hwf
  have hresched : ∀ f : Thread → Thread, (∀ thread, (f thread).state = .ready) →
      (∀ thread, (f thread).idle = thread.idle) → ∃ threads runQueue runQueueBitmap,
      ((threadResched.run ((lk.lock.setThread lk.currentThread f).insertInRunQueueHead
        lk.currentThread)).bind fun _ => (unlockThreads lk.ints).run) = .done () { lk with
          threads := threads
          runQueue := runQueue
          runQueueBitmap := runQueueBitmap
          threadLock := false
          ints := false || lk.ints } := by
    intro f hstate hflag
    have halone := threadResched_alone (p := (f (lk.threads lk.currentThread)).priority)
      (hl.requeue (hstate _) (hflag _)).1
      (by simp [Kernel.insertInRunQueueHead, Kernel.setThread, Kernel.lock, hempty])
      (fun p hp => by simp [Kernel.insertInRunQueueHead, Kernel.setThread, Kernel.lock, hempty, hp])
    exact ⟨_, _, _, congrArg (fun x : Susp Kernel Unit => x.bind fun _ =>
      (unlockThreads lk.ints).run) halone⟩
  simp only [threadSetPriority, Section.run_bind, getCurrentThread_run, lockThreads_run,
    Section.run_modify, Susp.done_bind]
  exact hresched _ (fun _ => rfl) fun _ => rfl

/-- The machine starts in a sound kernel, in which nothing was done with the objects. -/
theorem lklThreadInit_run (objects : Objects) : ∃ threads runQueue runQueueBitmap,
    lklThreadInit.run (.start objects) = .done () { Kernel.idleStart objects with
      threads := threads
      runQueue := runQueue
      runQueueBitmap := runQueueBitmap } ∧
    Kernel.Sound { Kernel.idleStart objects with
      threads := threads
      runQueue := runQueue
      runQueueBitmap := runQueueBitmap } ∧
    Kernel.Changes bootstrapThread (.threadSetPriority DEFAULT_PRIORITY.val)
      (Kernel.idleStart objects) { Kernel.idleStart objects with
        threads := threads
        runQueue := runQueue
        runQueueBitmap := runQueueBitmap } := by
  have hwf := Kernel.idleStart_wf objects
  have hsteps : Changing bootstrapThread (.threadSetPriority DEFAULT_PRIORITY.val)
      (threadSetPriority DEFAULT_PRIORITY.val) := threadSetPriority_changing _
  have hkeeps := threadSetPriority_keeps bootstrapThread DEFAULT_PRIORITY.val _ rfl hwf
  have hchanges := hsteps (Kernel.idleStart objects) rfl
  obtain ⟨threads, runQueue, runQueueBitmap, hrun⟩ :=
    threadSetPriority_alone hwf (fun _ => rfl) DEFAULT_PRIORITY.val
  rw [hrun] at hkeeps hchanges
  refine ⟨threads, runQueue, runQueueBitmap, ?_, ⟨hkeeps.2, ?_⟩, hchanges.1⟩
  · simp only [lklThreadInit, Section.run_bind, Section.run_modify, Susp.done_bind,
      threadCreateIdle_run, hrun]
    rfl
  · refine ⟨fun q t ht => ?_, fun t op ht => ?_, fun f hf => ?_, ?_, ?_⟩
    · simp [Kernel.idleStart, Kernel.start, waitQueueInit] at ht
    · simp [Kernel.idleStart, Kernel.start] at ht
    · simp [Kernel.idleStart, Kernel.start, idleThread, bootstrapThread] at hf
    · exact Kernel.Changes.entry hchanges.1 (t := idleThread) (Nat.succ_pos _)
    · exact Nat.succ_pos _

theorem Machine.boot_keeping {J : Kernel → Prop} (objects : Objects)
    (hJ : ∀ threads runQueue runQueueBitmap,
      Kernel.Changes bootstrapThread (.threadSetPriority DEFAULT_PRIORITY.val)
        (Kernel.idleStart objects) { Kernel.idleStart objects with
          threads := threads
          runQueue := runQueue
          runQueueBitmap := runQueueBitmap } →
      J { Kernel.idleStart objects with
        threads := threads
        runQueue := runQueue
        runQueueBitmap := runQueueBitmap }) : (Machine.boot objects).Keeping J := by
  obtain ⟨threads, runQueue, runQueueBitmap, hrun, hsound, hchanges⟩ := lklThreadInit_run objects
  have hkernel : (Machine.boot objects).kernel = { Kernel.idleStart objects with
      threads := threads
      runQueue := runQueue
      runQueueBitmap := runQueueBitmap } := by
    simp only [Machine.boot, hrun, Susp.state]
  refine ⟨by rw [hkernel]; exact ⟨hsound, hJ _ _ _ hchanges⟩, fun t ht => ?_, fun t _ => ?_,
    fun t k ht => ?_⟩
  · have hne : t ≠ bootstrapThread := by
      rintro rfl
      simp [Machine.boot] at ht
    rw [hkernel]
    simp [Kernel.idleStart, Kernel.start, hne]
  · rw [hkernel]
    rfl
  · by_cases hb : t = bootstrapThread <;> simp [Machine.boot, hb] at ht

end Start

section Runs

variable {ok : Machine → Label → Prop} {objects : Objects} {m m' : Machine}

theorem Machine.Run.sound (hrun : Machine.Run ok (.boot objects) m) : m.kernel.Sound := by
  refine (hrun.keeping (J := fun _ => True) (Machine.boot_keeping objects fun _ _ _ _ => trivial)
    (fun _ _ _ _ _ _ => trivial) ?_).kernel.1
  intro m label lk f stack op next _ _ hg _ _ _
  have hmoves := perform_changing m.current op (lk.begins m.current op) hg.quiet.currentThread
  refine (hmoves.wp (S := fun s => s.currentThread = m.current) (J := fun _ => True)
    (fun _ hs => hs) (fun _ _ _ _ _ => trivial) hg.quiet.currentThread trivial true).weaken ?_
  exact fun s hs => hs.1.current

/-- A blocked thread says on which queue. -/
def Kernel.Queued (lk : Kernel) : Prop :=
  ∀ t, (lk.threads t).state = .blocked → ∃ q, (lk.threads t).blockingWaitQueue = some q

theorem Kernel.Queued.changes {c : Tid} {op : Op} {lk lk' : Kernel} (h : lk.Queued)
    (hchanges : Kernel.Changes c op lk lk') : lk'.Queued := by
  induction hchanges with
  | refl => exact h
  | tail _ hchange ih =>
    intro t hblocked
    rcases hchange.blocked hblocked with ⟨hold, hqueue⟩ | ⟨-, q, -, hqueue⟩
    · rw [hqueue]
      exact ih t hold
    · exact ⟨q, hqueue⟩

theorem Kernel.Quiet.queued {lk lk' : Kernel} (hq : lk.Quiet lk') (h : lk.Queued) : lk'.Queued := by
  intro t hblocked
  obtain ⟨n, hn⟩ := hq.threads t
  rw [hn] at hblocked ⊢
  exact h t hblocked

theorem Machine.Run.queued (hrun : Machine.Run ok (.boot objects) m) : m.Keeping Kernel.Queued := by
  refine hrun.keeping (Machine.boot_keeping objects fun _ _ _ hchanges => ?_)
    (fun m label lk _ hm ha => ?_) fun m label lk f stack op next _ hm hg _ _ _ => ?_
  · refine Kernel.Queued.changes (fun t hblocked => ?_) hchanges
    simp only [Kernel.idleStart, startThreads, Function.update_apply] at hblocked
    split at hblocked
    · cases hblocked
    · split at hblocked <;> cases hblocked
  · rcases ha.quiet with hquiet | ⟨e, -, hquiet⟩
    · exact hquiet.queued hm.kernel.2
    · refine hquiet.queued ?_
      rw [Kernel.eventUnsignal, Kernel.useEvent_eq]
      exact hm.kernel.2
  · have hmoves := perform_changing m.current op (lk.begins m.current op) hg.quiet.currentThread
    refine (hmoves.wp (S := fun s => s.currentThread = m.current) (fun _ hs => hs)
      (fun _ _ hs _ hj => Kernel.Queued.changes hj hs) hg.quiet.currentThread
      (hg.quiet.queued hm.kernel.2) true).weaken ?_
    exact fun s hs => hs.1.current

/-- The places of the threads say the same as their states, in every state that is come to. -/
theorem run_scheduled (hrun : Machine.Run ok (.boot objects) m) :
    (∀ t, (m.kernel.threads t).state = .running ↔ t = m.kernel.currentThread) ∧
    (∀ p t, t ∈ m.kernel.runQueue p ↔
      (m.kernel.threads t).state = .ready ∧ (m.kernel.threads t).priority = p) ∧
    (∀ p, (m.kernel.runQueue p).Nodup) ∧
    (∀ p : Priority, m.kernel.runQueueBitmap.getLsbD p = true ↔ m.kernel.runQueue p ≠ []) ∧
    (∀ q t, t ∈ (m.kernel.wait q).list ↔ (m.kernel.threads t).state = .blocked ∧
      (m.kernel.threads t).blockingWaitQueue = some q) ∧
    (∀ q, (m.kernel.wait q).list.Nodup) ∧
    ∀ q, (m.kernel.wait q).count = (m.kernel.wait q).list.length := by
  have hwf := hrun.sound.wf
  refine ⟨fun t => ?_, fun p t => ?_, hwf.once, fun p => ?_, fun q t => ?_, hwf.waitOnce, hwf.count⟩
  · rw [hwf.running t (Set.notMem_empty t), Option.some.injEq]
    exact eq_comm
  · simpa using hwf.ready p t
  · rw [hwf.bitmap p]
    simp
  · simpa using hwf.blocked q t

theorem Machine.Run.trans {m₀ m' : Machine} (h : Machine.Run ok m₀ m) (h' : Machine.Run ok m m') :
    Machine.Run ok m₀ m' := by
  induction h' with
  | nil => exact h
  | snoc _ hok hstep ih => exact .snoc ih hok hstep

theorem Machine.Run.weaken {ok' : Machine → Label → Prop} (hrun : Machine.Run ok m m')
    (hok : ∀ m label, ok m label → ok' m label) : Machine.Run ok' m m' := by
  induction hrun with
  | nil => exact .nil _
  | snoc _ hm hstep ih => exact .snoc ih (hok _ _ hm) hstep

theorem Machine.Run.through {m₀ : Machine} {P : Machine → Prop} (hrun : Machine.Run ok m₀ m)
    (hP : ∀ m₁, Machine.Run ok m₀ m₁ → Machine.Run ok m₁ m → P m₁) :
    Machine.Run (fun m label => ok m label ∧ P m) m₀ m := by
  induction hrun with
  | nil => exact .nil _
  | snoc hrun hok hstep ih =>
    exact .snoc (ih fun m₁ h h' => hP m₁ h (.snoc h' hok hstep))
      ⟨hok, hP _ hrun (.snoc (.nil _) hok hstep)⟩ hstep

def Machine.after (ok : Machine → Label → Prop) [∀ m label, Decidable (ok m label)] (m : Machine) :
    List Label → Option Machine
  | [] => some m
  | label :: labels =>
    if ok m label then (m.step label).bind fun m' => m'.after ok labels else none

theorem Machine.Run.after [∀ m label, Decidable (ok m label)] {m₀ : Machine}
    {labels : List Label} (hrun : Machine.Run ok m₀ m) (h : m.after ok labels = some m') :
    Machine.Run ok m₀ m' := by
  induction labels generalizing m with
  | nil =>
    cases h
    exact hrun
  | cons label labels ih =>
    unfold Machine.after at h
    split at h
    · next hok =>
      cases hstep : m.step label with
      | none => simp [hstep] at h
      | some m₁ =>
        rw [hstep] at h
        exact ih (.snoc hrun hok hstep) h
    · cases h

def Label.interrupts : Label → Bool
  | .tick | .preempt | .lTimer _ | .expire _ => true
  | .run | .call _ | .ret _ => false

/-- Interrupts arrive only while they are enabled. -/
def Machine.Enabled (m : Machine) (label : Label) : Prop :=
  label.interrupts = true → m.kernel.ints = true

instance (m : Machine) (label : Label) : Decidable (m.Enabled label) :=
  inferInstanceAs (Decidable (_ → _))

/-- Semaphores with any number of tokens, and both kinds of mutexes and events. -/
def Objects.assorted : Objects where
  sem s := s
  recursive m := m % 2 = 1
  event e := (false, e % 2 = 1)

/-- The bootstrap thread makes another, which waits for a token there is not. -/
def waitingRun : List Label :=
  [.call .lklThreadCreate, .run, .run, .run, .run, .call (.semDown (.host 0)), .run, .run,
    .call (.op .threadYield), .run, .run, .run]

theorem run_scheduled_waiting : ∃ m, Machine.Run (fun _ _ => True) (.boot .assorted) m ∧
    (m.kernel.wait (.sem (.host 0))).list = [2] ∧
    (∀ t, (m.kernel.threads t).state = .running ↔ t = bootstrapThread) ∧
    ∀ q, (m.kernel.wait q).count = (m.kernel.wait q).list.length := by
  have hresult : ((Machine.boot .assorted).after (fun _ _ => True) waitingRun).map
      (fun m => ((m.kernel.wait (.sem (.host 0))).list, m.kernel.currentThread)) =
      some ([2], bootstrapThread) := by decide +kernel
  obtain ⟨m, hm, hresult⟩ := Option.map_eq_some_iff.mp hresult
  obtain ⟨hlist, hcurrent⟩ := Prod.mk.inj hresult
  have hrun : Machine.Run (fun _ _ => True) (.boot .assorted) m := (Machine.Run.nil _).after hm
  obtain ⟨hrunning, -, -, -, -, -, hcount⟩ := run_scheduled hrun
  exact ⟨m, hrun, hlist, hcurrent ▸ hrunning, hcount⟩

end Runs

end UefiLkl.Lk
