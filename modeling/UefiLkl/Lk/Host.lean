import UefiLkl.Lk.Sync
set_option autoImplicit false

/-!
The host functions of `UefiHost.c`, as programs whose steps may be interrupted, and the
machine that runs one thread at a time.
-/

namespace UefiLkl.Lk
open Coroutine

/-- An operation under the lock, or a step outside of it, and where it goes on. -/
inductive Instr where
  | «section» (op : Op) (next : Int → List Frame)
  | act (f : Kernel → Kernel) (next : Kernel → List Frame)
  | user

def Kernel.useTimer (lk : Kernel) (τ : Nat) : Kernel := lk.useEvent (.timer τ)

def Kernel.setTimer (lk : Kernel) (τ : Nat) (f : LTimer → LTimer) : Kernel :=
  { lk with ltimer := Function.update lk.ltimer τ (f (lk.ltimer τ)) }

/-- `AllocatePool` hands out the next structure; it is there from the start as `timer_alloc`
initialises it. -/
def Kernel.allocTimer (lk : Kernel) : Kernel := { lk with nextTimer := lk.nextTimer + 1 }

def Frame.instr : Frame → Instr
  | .user => .user
  | .idle => .section .threadPreempt fun _ => [.idle]
  | .exit retcode => .section (.threadExit retcode) fun _ => []
  | .op o => .section o fun _ => []
  | .threadResume t =>
    .section (.threadResume t) fun resched => if resched = 1 then [.op .threadYield] else []
  | .threadJoin t timeout =>
    .section (.threadJoin t timeout) fun err => if err = NO_ERROR then [.freeStack t] else []
  | .freeStack t => .act (fun lk =>
      let lk := lk.useThread t
      if (lk.threads t).freeStack then
        { lk with stackFrees := Function.update lk.stackFrees t (lk.stackFrees t + 1) }
      else lk) fun _ => [.freeStruct t]
  | .freeStruct t => .act (fun lk =>
      let lk := lk.useThread t
      if (lk.threads t).freeStruct then
        { lk with structFrees := Function.update lk.structFrees t (lk.structFrees t + 1) }
      else lk) fun _ => []
  | .threadDetach t => .section (.threadDetach t) fun dead =>
      if dead = 1 then [.threadJoin t 0] else []
  | .threadDetachAndResume t => .section (.threadDetach t) fun dead =>
      (if dead = 1 then [.threadJoin t 0] else []) ++ [.threadResume t]
  | .eventUnsignal e => .act (fun lk => lk.eventUnsignal e) fun _ => []
  | .semUp s => .section (.semPost (.host s) true) fun _ => []
  | .semDown s => .section .threadYield fun _ => [.semDownWait s]
  | .semDownWait s => .section (.semWait s) fun err => if err < 0 then [.semDown s] else []
  | .mutexLock m => .act id fun lk =>
      if lk.recursive m then [.op (.mutexAcquire m INFINITE_TIME)] else [.semDown (.mutex m)]
  | .mutexUnlock m => .act id fun lk =>
      if lk.recursive m then [.op (.mutexRelease m)] else [.op (.semPost (.mutex m) true)]
  | .lklThreadCreate =>
    .section (.threadCreate DEFAULT_PRIORITY .user) fun t => [.threadResume t.toNat]
  | .lklThreadDetach => .act id fun lk => [.threadDetach lk.currentThread]
  | .timerAlloc => .act Kernel.allocTimer fun lk => [.timerAllocThread lk.nextTimer]
  | .timerAllocThread τ =>
    .section (.threadCreate DEFAULT_PRIORITY (.timer τ)) fun t => [.threadDetachAndResume t.toNat]
  | .timerSetOneshot τ => .act (fun lk => lk.useTimer τ) fun _ => []
  | .timerFree τ => .act (fun lk => (lk.useTimer τ).setTimer τ fun timer =>
      { timer with closed := true }) fun _ => [.timerFreeStop τ]
  | .timerFreeStop τ => .act (fun lk => (lk.useTimer τ).setTimer τ fun timer =>
      { timer with requestStop := true }) fun _ => [.timerFreeSignal τ]
  | .timerFreeSignal τ => .section (.eventSignal (.timer τ) true) fun _ => [.timerFreeReturn τ]
  | .timerFreeReturn τ => .act (fun lk => lk.note (.timerFreed τ)) fun _ => []
  | .timerThread τ => .act (fun lk => lk.useTimer τ) fun lk =>
      if (lk.ltimer τ).requestStop then [.timerDestroy τ] else [.timerWait τ]
  | .timerWait τ => .section (.eventWait (.timer τ) INFINITE_TIME) fun _ => [.timerCheck τ]
  | .timerCheck τ => .act (fun lk => lk.useTimer τ) fun lk =>
      if (lk.ltimer τ).requestStop then [.timerDestroy τ] else [.timerCall τ]
  | .timerCall τ => .act (fun lk => (lk.useTimer τ).note (.fnBegins τ)) fun _ =>
      [.user, .timerThread τ]
  | .timerDestroy τ => .section (.eventDestroy (.timer τ)) fun _ => [.timerFreePool τ]
  | .timerFreePool τ => .act (fun lk => (lk.useTimer τ).setTimer τ fun timer =>
      { timer with frees := timer.frees + 1 }) fun _ => [.exit 0]

/-- What the caller's code may call. -/
def Frame.callable : Frame → Bool
  | .exit _ | .threadResume _ | .threadJoin _ _ | .threadDetach _ | .threadDetachAndResume _ => true
  | .semUp _ | .mutexLock _ | .mutexUnlock _ => true
  | .semDown (.host _) | .eventUnsignal (.host _) => true
  | .lklThreadCreate | .lklThreadDetach => true
  | .timerAlloc | .timerSetOneshot _ | .timerFree _ => true
  | .op (.threadExit _) | .op (.threadJoin _ _) | .op (.threadDetach _) | .op (.threadResume _) =>
      false
  | .op (.threadCreate _ entry) => entry = .user
  | .op (.eventWait (.timer _) _) | .op (.eventSignal (.timer _) _) => false
  | .op (.eventDestroy (.timer _)) => false
  | .op _ => true
  | _ => false

def Entry.frames : Entry → List Frame
  | .user => [.user]
  | .timer τ => [.timerThread τ]
  | .idle => [.idle]

/-- A thread has not begun, or waits inside an operation to be switched to, or is outside of
the lock. -/
inductive Code where
  | fresh
  | inside (k : Kernel → Susp Kernel Int)
  | outside

structure Machine where
  kernel : Kernel
  code : Tid → Code

/-- The thread goes on, its code makes a call or returns, or there is an interrupt: a tick,
the end of another that asks to reschedule, a host timer, or a timeout. The flag `ints` does not
keep them from it. -/
inductive Label where
  | run
  | call (f : Frame)
  | ret (r : Int)
  | tick
  | preempt
  | lTimer (τ : Nat)
  | expire (t : Tid)
  deriving DecidableEq, Repr

def Machine.current (m : Machine) : Tid := m.kernel.currentThread

def Machine.aside (m : Machine) (lk : Kernel) : Machine :=
  ⟨lk, Function.update m.code m.current .outside⟩

/-- Thread `c` was in the operation, and has come to its end or to a switch. -/
def Machine.settle (m : Machine) (c : Tid) (op : Op) (after : Int → List Frame) (atOnce : Bool) :
    Susp Kernel Int → Machine
  | .done r lk => ⟨lk.ends c op atOnce r (after r), Function.update m.code c .outside⟩
  | .switch lk k => ⟨lk, Function.update m.code c (.inside k)⟩

def Machine.enter (m : Machine) (op : Op) (after : Int → List Frame) : Machine :=
  m.settle m.current op after true ((perform op).run (m.kernel.begins m.current op))

def Machine.exec (m : Machine) : Option Machine :=
  match m.kernel.frames m.current with
  | [] => none
  | f :: stack =>
    match f.instr with
    | .section op next => some (m.enter op fun r => next r ++ stack)
    | .act g next => some (m.aside ((g m.kernel).setFrames m.current (next m.kernel ++ stack)))
    | .user => none

def Machine.interrupt (m : Machine) (lk : Kernel) (op : Op) : Option Machine :=
  Machine.exec ⟨lk.setFrames m.current (.op op :: lk.frames m.current), m.code⟩

def Machine.resume (m : Machine) (k : Kernel → Susp Kernel Int) : Option Machine :=
  match m.kernel.frames m.current with
  | [] => none
  | f :: stack =>
    match f.instr with
    | .section op next =>
      some (m.settle m.current op (fun r => next r ++ stack) false (k m.kernel))
    | _ => none

def Machine.step (m : Machine) (label : Label) : Option Machine :=
  let lk := m.kernel
  let frames := lk.frames m.current
  match m.code m.current with
  | .fresh =>
    -- `initial_thread_func` gives up the lock, and nothing else
    if label = .run then
      some (m.aside ({ lk with threadLock := false }.setFrames m.current
        (lk.threads m.current).entry.frames))
    else none
  | .inside k => if label = .run then m.resume k else none
  | .outside =>
    match label with
    | .run => m.exec
    | .call f =>
      if frames.head? = some .user ∧ f.callable then
        some (m.aside (lk.setFrames m.current (f :: frames)))
      else none
    | .ret r =>
      match frames with
      | [.user] => some (m.aside (lk.setFrames m.current [.exit r]))
      | .user :: stack => some (m.aside (lk.setFrames m.current stack))
      | _ => none
    | .tick =>
      if lk.threadTimerTick.2 then m.interrupt lk.threadTimerTick.1 .threadPreempt
      else some (m.aside lk.threadTimerTick.1)
    | .preempt => m.interrupt lk .threadPreempt
    | .lTimer τ =>
      if τ < lk.nextTimer ∧ (lk.ltimer τ).closed = false then
        m.interrupt lk (.eventSignal (.timer τ) true)
      else none
    | .expire t =>
      if lk.armed t then m.interrupt (lk.arm t false) (.threadUnblock t ERR_TIMED_OUT) else none

/-- Steps that are all `ok`. -/
inductive Machine.Run (ok : Machine → Label → Prop) : Machine → Machine → Prop where
  | nil (m : Machine) : Run ok m m
  | snoc {m m' m'' : Machine} {label : Label} (hrun : Run ok m m') (hok : ok m' label)
      (hstep : m'.step label = some m'') : Run ok m m''

/-- The objects there are, as `sem_alloc`, `mutex_alloc` and `event_init` leave them: the counts
of the semaphores, which mutexes are recursive, and the events. -/
structure Objects where
  sem : Nat → Nat
  recursive : Nat → Bool
  event : Nat → Bool × Bool

def Kernel.start (objects : Objects) : Kernel where
  threads _ := Thread.zero
  threadList := []
  nextTid := bootstrapThread + 1
  runQueue _ := []
  runQueueBitmap := 0
  currentThread := bootstrapThread
  wait _ := waitQueueInit
  sem
    | .host s => objects.sem s
    | .mutex _ => 1
  mutex _ := mutexInit
  event
    | .host e => eventInit (objects.event e).1 (objects.event e).2
    | .timer _ => eventInit false true
  recursive := objects.recursive
  ltimer _ := ⟨false, false, 0⟩
  nextTimer := 0
  armed _ := false
  frames t := if t = bootstrapThread then [.user] else []
  doing _ := none
  ints := true
  threadLock := false
  structFrees _ := 0
  stackFrees _ := 0
  unlinks _ := 0
  faults := []
  log := []

def Machine.boot (objects : Objects) : Machine where
  kernel := (lklThreadInit.run (.start objects)).state
  code t := if t = bootstrapThread then .outside else .fresh

end UefiLkl.Lk
