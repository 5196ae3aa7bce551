import Mathlib.Algebra.GroupWithZero.Nat
import Mathlib.Data.List.FinRange
import UefiLkl.Lib.Coroutine
set_option autoImplicit false

/-!
The threads of the little kernel: its data, the run queue, the wait queues, and the
functions of `thread.c` that run with the thread lock held. `LK_DEBUGLEVEL` is 0, so
no assertion is compiled in, and there is one processor.
-/

namespace UefiLkl.Lk
open Coroutine

abbrev Tid := Nat
abbrev Status := Int
abbrev LkTime := UInt32

def NO_ERROR : Status := 0
def ERR_NOT_READY : Status := -3
def ERR_OBJECT_DESTROYED : Status := -11
def ERR_NOT_BLOCKED : Status := -12
def ERR_TIMED_OUT : Status := -13
def ERR_THREAD_DETACHED : Status := -34

def INFINITE_TIME : LkTime := 0xffffffff

abbrev Priority := Fin 32

instance neZeroPriority : NeZero 32 := ⟨by decide⟩

def HIGHEST_PRIORITY : Priority := 31
def DEFAULT_PRIORITY : Priority := 16
def IDLE_PRIORITY : Priority := 0

/-- A semaphore of its own, or the one in a host mutex. -/
inductive SemId where
  | host (s : Nat)
  | mutex (m : Nat)
  deriving DecidableEq, Repr

/-- An event of its own, or the one in a host timer. -/
inductive EventId where
  | host (e : Nat)
  | timer (τ : Nat)
  deriving DecidableEq, Repr

inductive Wq where
  | sem (s : SemId)
  | mutex (m : Nat)
  | event (e : EventId)
  | retcode (t : Tid)
  | other (w : Nat)
  deriving DecidableEq, Repr

inductive Entry where
  | user
  | timer (τ : Nat)
  | idle
  deriving DecidableEq, Repr

/-- The functions that take the thread lock. -/
inductive Op where
  | threadCreate (priority : Priority) (entry : Entry)
  | threadResume (t : Tid)
  | threadYield
  | threadPreempt
  | threadSetPriority (priority : Int)
  | threadExit (retcode : Int)
  | threadJoin (t : Tid) (timeout : LkTime)
  | threadDetach (t : Tid)
  | waitQueueBlock (w : Nat) (timeout : LkTime)
  | waitQueueWakeOne (w : Nat) (reschedule : Bool) (waitQueueError : Status)
  | waitQueueWakeAll (w : Nat) (reschedule : Bool) (waitQueueError : Status)
  | waitQueueDestroy (w : Nat) (reschedule : Bool)
  | threadUnblock (t : Tid) (waitQueueError : Status)
  | semPost (s : SemId) (resched : Bool)
  | semWait (s : SemId)
  | semTrywait (s : SemId)
  | semTimedwait (s : SemId) (timeout : LkTime)
  | semDestroy (s : SemId)
  | mutexAcquire (m : Nat) (timeout : LkTime)
  | mutexRelease (m : Nat)
  | mutexDestroy (m : Nat)
  | eventWait (e : EventId) (timeout : LkTime)
  | eventSignal (e : EventId) (reschedule : Bool)
  | eventDestroy (e : EventId)
  deriving DecidableEq, Repr

/-- Where a thread is in a function; `user` is code of the caller's, of any kind. -/
inductive Frame where
  | user
  | idle
  | exit (retcode : Int)
  | op (op : Op)
  | threadResume (t : Tid)
  | threadJoin (t : Tid) (timeout : LkTime)
  | freeStack (t : Tid)
  | freeStruct (t : Tid)
  | threadDetach (t : Tid)
  | threadDetachAndResume (t : Tid)
  | eventUnsignal (e : EventId)
  | semUp (s : Nat)
  | semDown (s : SemId)
  | semDownWait (s : SemId)
  | mutexLock (m : Nat)
  | mutexUnlock (m : Nat)
  | lklThreadCreate
  | lklThreadDetach
  | timerAlloc
  | timerAllocThread (τ : Nat)
  | timerSetOneshot (τ : Nat)
  | timerFree (τ : Nat)
  | timerFreeStop (τ : Nat)
  | timerFreeSignal (τ : Nat)
  | timerFreeReturn (τ : Nat)
  | timerThread (τ : Nat)
  | timerWait (τ : Nat)
  | timerCheck (τ : Nat)
  | timerCall (τ : Nat)
  | timerDestroy (τ : Nat)
  | timerFreePool (τ : Nat)
  deriving DecidableEq, Repr

inductive ThreadState where
  | suspended
  | ready
  | running
  | blocked
  | sleeping
  | death
  deriving DecidableEq, Repr

structure Thread where
  magic : Bool
  priority : Priority
  state : ThreadState
  remainingQuantum : Int
  detached : Bool
  freeStack : Bool
  freeStruct : Bool
  realTime : Bool
  idle : Bool
  blockingWaitQueue : Option Wq
  waitQueueBlockRet : Status
  entry : Entry
  retcode : Int
  deriving DecidableEq, Repr

/-- What `init_thread_struct` leaves; a thread that was never made is dead. -/
def Thread.zero : Thread where
  magic := false
  priority := 0
  state := .death
  remainingQuantum := 0
  detached := false
  freeStack := false
  freeStruct := false
  realTime := false
  idle := false
  blockingWaitQueue := none
  waitQueueBlockRet := NO_ERROR
  entry := .user
  retcode := 0

structure WaitQueue where
  magic : Bool
  list : List Tid
  count : Int
  deriving DecidableEq, Repr

def waitQueueInit : WaitQueue := ⟨true, [], 0⟩

structure Mutex where
  magic : Bool
  holder : Option Tid
  count : Int
  deriving DecidableEq, Repr

structure Event where
  magic : Bool
  signaled : Bool
  autounsignal : Bool
  deriving DecidableEq, Repr

structure LTimer where
  requestStop : Bool
  closed : Bool
  frees : Nat
  deriving DecidableEq, Repr

/-- What happened, for the statements about runs. -/
inductive Happening where
  | call (t : Tid) (op : Op)
  | ret (t : Tid) (op : Op) (atOnce : Bool) (r : Int)
  | block (q : Wq) (t : Tid)
  | wake (q : Wq) (t : Tid) (waitQueueError : Status)
  | joined (c t : Tid) (retcode : Int)
  | signal (e : EventId) (signaled : Bool)
  | unsignal (e : EventId) (signaled : Bool)
  | fnBegins (τ : Nat)
  | timerFreed (τ : Nat)
  deriving DecidableEq, Repr

/-- A freed structure that was used. -/
inductive Fault where
  | thread (t : Tid)
  | timer (τ : Nat)
  deriving DecidableEq, Repr

/-- `armed` are the threads whose timer is set, and `frames` is where each thread is. What it is
`doing` under the lock, the frees, `unlinks`, `faults` and the `log` are kept for the statements
only. -/
structure Kernel where
  threads : Tid → Thread
  threadList : List Tid
  nextTid : Tid
  runQueue : Priority → List Tid
  runQueueBitmap : BitVec 32
  currentThread : Tid
  wait : Wq → WaitQueue
  sem : SemId → Int
  mutex : Nat → Mutex
  event : EventId → Event
  recursive : Nat → Bool
  ltimer : Nat → LTimer
  nextTimer : Nat
  armed : Tid → Bool
  frames : Tid → List Frame
  doing : Tid → Option Op
  ints : Bool
  threadLock : Bool
  structFrees : Tid → Nat
  stackFrees : Tid → Nat
  unlinks : Tid → Nat
  faults : List Fault
  log : List Happening

def idleThread : Tid := 0

def Kernel.setThread (lk : Kernel) (t : Tid) (f : Thread → Thread) : Kernel :=
  { lk with threads := Function.update lk.threads t (f (lk.threads t)) }

def Kernel.setState (lk : Kernel) (t : Tid) (state : ThreadState) : Kernel :=
  lk.setThread t fun thread => { thread with state := state }

def Kernel.note (lk : Kernel) (h : Happening) : Kernel := { lk with log := lk.log ++ [h] }

def Kernel.begins (lk : Kernel) (t : Tid) (op : Op) : Kernel :=
  { lk.note (.call t op) with doing := Function.update lk.doing t (some op) }

def Kernel.setFrames (lk : Kernel) (t : Tid) (frames : List Frame) : Kernel :=
  { lk with frames := Function.update lk.frames t frames }

def Kernel.ends (lk : Kernel) (t : Tid) (op : Op) (atOnce : Bool) (r : Int)
    (frames : List Frame) : Kernel :=
  { (lk.note (.ret t op atOnce r)).setFrames t frames with
    doing := Function.update lk.doing t none }

/-- Reading or writing the structure of a thread. -/
def Kernel.useThread (lk : Kernel) (t : Tid) : Kernel :=
  if lk.structFrees t = 0 then lk else { lk with faults := lk.faults ++ [.thread t] }

theorem Kernel.useThread_eq (lk : Kernel) (t : Tid) :
    lk.useThread t = { lk with faults := (lk.useThread t).faults } := by
  unfold Kernel.useThread
  split <;> rfl

def Kernel.lock (lk : Kernel) : Kernel := { lk with ints := false, threadLock := true }

def Kernel.unlock (lk : Kernel) (state : Bool) : Kernel :=
  { lk with threadLock := false, ints := lk.ints || state }

/-- `THREAD_LOCK` -/
def lockThreads : Section Kernel Bool where
  run lk := .done lk.ints lk.lock

/-- `THREAD_UNLOCK` -/
def unlockThreads (state : Bool) : Section Kernel Unit :=
  .modify fun lk => lk.unlock state

@[simp] theorem lockThreads_run (lk : Kernel) : lockThreads.run lk = .done lk.ints lk.lock := rfl

@[simp] theorem unlockThreads_run (state : Bool) (lk : Kernel) :
    (unlockThreads state).run lk = .done () (lk.unlock state) := rfl

def getCurrentThread : Section Kernel Tid := .read Kernel.currentThread

@[simp] theorem getCurrentThread_run (lk : Kernel) :
    getCurrentThread.run lk = .done lk.currentThread lk := rfl

def Kernel.insertInRunQueueHead (lk : Kernel) (t : Tid) : Kernel :=
  let p := (lk.threads t).priority
  { lk with
    runQueue := Function.update lk.runQueue p (t :: lk.runQueue p)
    runQueueBitmap := lk.runQueueBitmap ||| (1#32 <<< p.val) }

def Kernel.insertInRunQueueTail (lk : Kernel) (t : Tid) : Kernel :=
  let p := (lk.threads t).priority
  { lk with
    runQueue := Function.update lk.runQueue p (lk.runQueue p ++ [t])
    runQueueBitmap := lk.runQueueBitmap ||| (1#32 <<< p.val) }

/-- The first thread of the highest queue whose bit is set and that is not empty. -/
def Kernel.getTopThread (lk : Kernel) : Tid × Kernel :=
  scan (List.finRange 32).reverse
where
  scan : List Priority → Tid × Kernel
  | [] => (idleThread, lk)
  | p :: rest =>
    if lk.runQueueBitmap.getLsbD p then
      match lk.runQueue p with
      | [] => scan rest
      | t :: ts =>
        (t, { lk with
          runQueue := Function.update lk.runQueue p ts
          runQueueBitmap :=
            if ts.isEmpty then lk.runQueueBitmap &&& ~~~(1#32 <<< p.val) else lk.runQueueBitmap })
    else scan rest

/-- A new quantum, if the last was consumed. -/
def Kernel.setUpQuantum (lk : Kernel) (t : Tid) : Kernel :=
  if (lk.threads t).remainingQuantum ≤ 0 then
    lk.setThread t fun thread => { thread with remainingQuantum := 5 }
  else lk

/-- The new thread goes on where it switched, or begins. -/
def threadResched : Section Kernel Unit where
  run lk :=
    let newthread := lk.getTopThread.1
    let lk := lk.getTopThread.2.setState newthread .running
    if newthread = lk.currentThread then .done () lk
    else .switch { lk.setUpQuantum newthread with currentThread := newthread }
      fun lk => .done () lk

def threadYield : Section Kernel Unit := do
  let t ← getCurrentThread
  let state ← lockThreads
  .modify fun lk => lk.setThread t fun thread =>
    { thread with state := .ready, remainingQuantum := 0 }
  if !(← .read fun lk => (lk.threads t).idle) then .modify fun lk => lk.insertInRunQueueTail t
  threadResched
  unlockThreads state

def threadPreempt : Section Kernel Unit := do
  let t ← getCurrentThread
  let state ← lockThreads
  .modify fun lk => lk.setState t .ready
  let thread ← .read fun lk => lk.threads t
  if !thread.idle then
    if thread.remainingQuantum > 0 then .modify fun lk => lk.insertInRunQueueHead t
    else .modify fun lk => lk.insertInRunQueueTail t
  threadResched
  unlockThreads state

/-- The second part says whether to reschedule. -/
def Kernel.threadTimerTick (lk : Kernel) : Kernel × Bool :=
  let thread := lk.threads lk.currentThread
  if thread.realTime || thread.idle then (lk, false)
  else
    (lk.setThread lk.currentThread fun thread =>
      { thread with remainingQuantum := thread.remainingQuantum - 1 },
      thread.remainingQuantum - 1 ≤ 0)

def threadSetPriority (priority : Int) : Section Kernel Unit := do
  let t ← getCurrentThread
  let state ← lockThreads
  let priority : Int := if priority ≤ IDLE_PRIORITY.val then IDLE_PRIORITY.val + 1 else priority
  let priority : Int := if priority > HIGHEST_PRIORITY.val then HIGHEST_PRIORITY.val else priority
  .modify fun lk => lk.setThread t fun thread =>
    { thread with priority := Fin.ofNat 32 priority.toNat, state := .ready }
  .modify fun lk => lk.insertInRunQueueHead t
  threadResched
  unlockThreads state

def Kernel.setWait (lk : Kernel) (q : Wq) (f : WaitQueue → WaitQueue) : Kernel :=
  { lk with wait := Function.update lk.wait q (f (lk.wait q)) }

def Kernel.arm (lk : Kernel) (t : Tid) (b : Bool) : Kernel :=
  { lk with armed := Function.update lk.armed t b }

def Kernel.enqueue (lk : Kernel) (q : Wq) (t : Tid) : Kernel :=
  ((lk.setWait q fun wait => { wait with list := wait.list ++ [t], count := wait.count + 1 }
    ).setThread t fun thread =>
      { thread with
        state := .blocked
        blockingWaitQueue := some q
        waitQueueBlockRet := NO_ERROR }).note (.block q t)

def waitQueueBlock (q : Wq) (timeout : LkTime) : Section Kernel Status := do
  let t ← getCurrentThread
  if timeout = 0 then pure ERR_TIMED_OUT
  else
    .modify fun lk => lk.enqueue q t
    if timeout ≠ INFINITE_TIME then .modify fun lk => lk.arm t true
    threadResched
    if timeout ≠ INFINITE_TIME then .modify fun lk => lk.arm t false
    .read fun lk => (lk.threads t).waitQueueBlockRet

/-- `t` leaves the queue, of which `rest` is left, and is ready. -/
def Kernel.dequeue (lk : Kernel) (q : Wq) (rest : List Tid) (t : Tid) (waitQueueError : Status) :
    Kernel :=
  ((lk.setWait q fun wait => { wait with list := rest, count := wait.count - 1 }).setThread t
    fun thread =>
      { thread with
        state := .ready
        waitQueueBlockRet := waitQueueError
        blockingWaitQueue := none }).note (.wake q t waitQueueError)

def waitQueueWakeOne (q : Wq) (reschedule : Bool) (waitQueueError : Status) :
    Section Kernel Int := do
  let current ← getCurrentThread
  match ← .read fun lk => (lk.wait q).list with
  | [] => pure 0
  | t :: rest =>
    .modify fun lk => lk.dequeue q rest t waitQueueError
    if reschedule then
      .modify fun lk => (lk.setState current .ready).insertInRunQueueHead current
    .modify fun lk => lk.insertInRunQueueHead t
    if reschedule then threadResched
    pure 1

def Kernel.popAll (q : Wq) (waitQueueError : Status) : List Tid → Kernel → Kernel
  | [], lk => lk
  | t :: rest, lk =>
    popAll q waitQueueError rest ((lk.dequeue q rest t waitQueueError).insertInRunQueueHead t)

def waitQueueWakeAll (q : Wq) (reschedule : Bool) (waitQueueError : Status) :
    Section Kernel Int := do
  let current ← getCurrentThread
  if reschedule ∧ (← .read fun lk => (lk.wait q).count) > 0 then
    .modify fun lk => (lk.setState current .ready).insertInRunQueueHead current
  let list ← .read fun lk => (lk.wait q).list
  .modify (Kernel.popAll q waitQueueError list)
  if list.length > 0 then
    if reschedule then threadResched
  pure list.length

def waitQueueDestroy (q : Wq) (reschedule : Bool) : Section Kernel Unit := do
  let _ ← waitQueueWakeAll q reschedule ERR_OBJECT_DESTROYED
  .modify fun lk => lk.setWait q fun wait => { wait with magic := false }

def threadUnblockFromWaitQueue (t : Tid) (waitQueueError : Status) : Section Kernel Status := do
  .modify fun lk => lk.useThread t
  let thread ← .read fun lk => lk.threads t
  if thread.state ≠ .blocked then pure ERR_NOT_BLOCKED
  else
    match thread.blockingWaitQueue with
    | none => pure ERR_NOT_BLOCKED -- a blocked thread has a queue
    | some q =>
      .modify fun lk => (lk.dequeue q ((lk.wait q).list.erase t) t waitQueueError
        ).insertInRunQueueHead t
      pure NO_ERROR

def Kernel.addThread (lk : Kernel) (t : Option Tid) (new : Tid) (priority : Priority)
    (entry : Entry) : Kernel :=
  { lk with
    nextTid := if t.isNone then lk.nextTid + 1 else lk.nextTid
    threads := Function.update lk.threads new
      { Thread.zero with
        magic := true
        priority := priority
        state := .suspended
        freeStack := true
        freeStruct := t.isNone
        entry := entry }
    wait := Function.update lk.wait (.retcode new) waitQueueInit }

/-- Without a structure of the caller's one is allocated; the allocations succeed. -/
def threadCreateEtc (t : Option Tid) (priority : Priority) (entry : Entry) :
    Section Kernel Tid := do
  let new ← .read fun lk => t.getD lk.nextTid
  .modify fun lk => lk.addThread t new priority entry
  let state ← lockThreads
  .modify fun lk => { lk with threadList := new :: lk.threadList }
  unlockThreads state
  pure new

def threadCreate (priority : Priority) (entry : Entry) : Section Kernel Tid :=
  threadCreateEtc none priority entry

/-- The part of `thread_resume` before its `thread_yield`, and whether it comes to that. -/
def threadResume (t : Tid) : Section Kernel Bool := do
  let intsDisabled ← .read fun lk => !lk.ints
  let state ← lockThreads
  .modify fun lk => lk.useThread t
  if (← .read fun lk => (lk.threads t).state) = .suspended then
    .modify fun lk => (lk.setState t .ready).insertInRunQueueHead t
    unlockThreads state
    pure (!intsDisabled)
  else
    unlockThreads state
    pure false

def Kernel.unlink (lk : Kernel) (t : Tid) : Kernel :=
  { lk.setThread t (fun thread => { thread with magic := false }) with
    threadList := lk.threadList.erase t
    unlinks := Function.update lk.unlinks t (lk.unlinks t + 1) }

/-- With `NO_ERROR` the thread is no longer listed, and its memory is to be freed. -/
def threadJoin (t : Tid) (timeout : LkTime) : Section Kernel Status := do
  let current ← getCurrentThread
  let state ← lockThreads
  .modify fun lk => lk.useThread t
  let thread ← .read fun lk => lk.threads t
  if thread.detached then
    unlockThreads state
    pure ERR_THREAD_DETACHED
  else
    let err ← (if thread.state ≠ .death then waitQueueBlock (.retcode t) timeout
      else pure NO_ERROR)
    if err < 0 then
      unlockThreads state
      pure err
    else
      .modify fun lk => lk.useThread t
      .modify fun lk => lk.note (.joined current t (lk.threads t).retcode)
      .modify fun lk => lk.unlink t
      unlockThreads state
      pure NO_ERROR

/-- Whether the thread is dead already, and to be joined. -/
def threadDetach (t : Tid) : Section Kernel Bool := do
  let state ← lockThreads
  .modify fun lk => lk.useThread t
  let _ ← waitQueueWakeAll (.retcode t) false ERR_THREAD_DETACHED
  let dead ← .read fun lk => decide ((lk.threads t).state = .death)
  .modify fun lk => lk.setThread t fun thread => { thread with detached := !dead }
  unlockThreads state
  pure dead

/-- `heap_delayed_free` has no body. -/
def threadExit (retcode : Int) : Section Kernel Unit := do
  let t ← getCurrentThread
  let _ ← lockThreads
  .modify fun lk => lk.useThread t
  .modify fun lk => lk.setThread t fun thread => { thread with state := .death, retcode := retcode }
  if ← .read fun lk => (lk.threads t).detached then
    .modify fun lk => lk.unlink t
  else
    let _ ← waitQueueWakeAll (.retcode t) false 0
  threadResched

/-- The thread that is running already. -/
def bootstrapThread : Tid := 1

def Kernel.threadInitEarly (lk : Kernel) : Kernel :=
  { lk with
    runQueue := fun _ => []
    threadList := [bootstrapThread]
    threads := Function.update lk.threads bootstrapThread
      { Thread.zero with
        magic := true
        priority := HIGHEST_PRIORITY
        state := .running
        detached := true }
    wait := Function.update lk.wait (.retcode bootstrapThread) waitQueueInit
    currentThread := bootstrapThread }

def threadCreateIdle : Section Kernel Unit := do
  let t ← threadCreateEtc (some idleThread) IDLE_PRIORITY .idle
  let _ ← threadDetach t

/-- `lkl_thread_init`, without the timer event. -/
def lklThreadInit : Section Kernel Unit := do
  .modify Kernel.threadInitEarly
  threadCreateIdle
  threadSetPriority DEFAULT_PRIORITY.val

end UefiLkl.Lk
