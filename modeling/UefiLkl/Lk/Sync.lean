import UefiLkl.Lk.Thread
set_option autoImplicit false

/-!
Semaphores, mutexes and events, and the operations as computations of one type.
-/

namespace UefiLkl.Lk
open Coroutine

/-- `++sem->count` or `--sem->count`: the new count. -/
def addCount (s : SemId) (n : Int) : Section Kernel Int := do
  .modify fun lk => { lk with sem := Function.update lk.sem s (lk.sem s + n) }
  .read fun lk => lk.sem s

def semPost (s : SemId) (resched : Bool) : Section Kernel Int := do
  let state ← lockThreads
  let count ← addCount s 1
  let ret ← (if count ≤ 0 then waitQueueWakeOne (.sem s) resched NO_ERROR else pure 0)
  unlockThreads state
  pure ret

def semWait (s : SemId) : Section Kernel Status := do
  let state ← lockThreads
  let count ← addCount s (-1)
  let ret ← (if count < 0 then waitQueueBlock (.sem s) INFINITE_TIME else pure NO_ERROR)
  unlockThreads state
  pure ret

def semTrywait (s : SemId) : Section Kernel Status := do
  let state ← lockThreads
  if (← .read fun lk => lk.sem s) ≤ 0 then
    unlockThreads state
    pure ERR_NOT_READY
  else
    let _ ← addCount s (-1)
    unlockThreads state
    pure NO_ERROR

def semTimedwait (s : SemId) (timeout : LkTime) : Section Kernel Status := do
  let state ← lockThreads
  let count ← addCount s (-1)
  let ret ← (if count < 0 then waitQueueBlock (.sem s) timeout else pure NO_ERROR)
  if count < 0 ∧ ret = ERR_TIMED_OUT then
    let _ ← addCount s 1
  unlockThreads state
  pure ret

def semDestroy (s : SemId) : Section Kernel Unit := do
  let state ← lockThreads
  .modify fun lk => { lk with sem := Function.update lk.sem s 0 }
  waitQueueDestroy (.sem s) true
  unlockThreads state

def mutexInit : Mutex := ⟨true, none, 0⟩

def Kernel.setMutex (lk : Kernel) (m : Nat) (f : Mutex → Mutex) : Kernel :=
  { lk with mutex := Function.update lk.mutex m (f (lk.mutex m)) }

def mutexDestroy (m : Nat) : Section Kernel Unit := do
  let state ← lockThreads
  .modify fun lk => lk.setMutex m fun mutex => { mutex with magic := false, count := 0 }
  waitQueueDestroy (.mutex m) true
  unlockThreads state

/-- Who owns the mutex already is not looked at. -/
def mutexAcquireTimeout (m : Nat) (timeout : LkTime) : Section Kernel Status := do
  let t ← getCurrentThread
  let state ← lockThreads
  .modify fun lk => lk.setMutex m fun mutex => { mutex with count := mutex.count + 1 }
  let count ← .read fun lk => (lk.mutex m).count
  let ret ← (if count > 1 then waitQueueBlock (.mutex m) timeout else pure NO_ERROR)
  if ret < NO_ERROR then
    if ret = ERR_TIMED_OUT then
      .modify fun lk => lk.setMutex m fun mutex => { mutex with count := mutex.count - 1 }
    unlockThreads state
    pure ret
  else
    .modify fun lk => lk.setMutex m fun mutex => { mutex with holder := some t }
    unlockThreads state
    pure ret

def mutexRelease (m : Nat) : Section Kernel Status := do
  let state ← lockThreads
  .modify fun lk => lk.setMutex m fun mutex =>
    { mutex with holder := none, count := mutex.count - 1 }
  if (← .read fun lk => (lk.mutex m).count) ≥ 1 then
    let _ ← waitQueueWakeOne (.mutex m) true NO_ERROR
  unlockThreads state
  pure NO_ERROR

def eventInit (initial autounsignal : Bool) : Event := ⟨true, initial, autounsignal⟩

def Kernel.setEvent (lk : Kernel) (e : EventId) (f : Event → Event) : Kernel :=
  { lk with event := Function.update lk.event e (f (lk.event e)) }

/-- Reading or writing the event; one in a timer is gone with its timer. -/
def Kernel.useEvent (lk : Kernel) : EventId → Kernel
  | .host _ => lk
  | .timer τ =>
    if (lk.ltimer τ).frees = 0 then lk else { lk with faults := lk.faults ++ [.timer τ] }

def eventDestroy (e : EventId) : Section Kernel Unit := do
  let state ← lockThreads
  .modify fun lk => lk.useEvent e
  .modify fun lk => lk.setEvent e fun _ => ⟨false, false, false⟩
  let _ ← waitQueueWakeAll (.event e) true ERR_OBJECT_DESTROYED
  .modify fun lk => lk.useEvent e
  .modify fun lk => lk.setWait (.event e) fun wait => { wait with magic := false }
  unlockThreads state

def eventWaitTimeout (e : EventId) (timeout : LkTime) : Section Kernel Status := do
  let state ← lockThreads
  .modify fun lk => lk.useEvent e
  let event ← .read fun lk => lk.event e
  let ret ← (if event.signaled then do
      if event.autounsignal then
        .modify fun lk => lk.setEvent e fun event => { event with signaled := false }
      pure NO_ERROR
    else waitQueueBlock (.event e) timeout)
  unlockThreads state
  pure ret

def eventSignal (e : EventId) (reschedule : Bool) : Section Kernel Status := do
  let state ← lockThreads
  .modify fun lk => lk.useEvent e
  let event ← .read fun lk => lk.event e
  .modify fun lk => lk.note (.signal e event.signaled)
  if !event.signaled then
    if event.autounsignal then
      if (← waitQueueWakeOne (.event e) reschedule NO_ERROR) ≤ 0 then
        .modify fun lk => lk.useEvent e
        .modify fun lk => lk.setEvent e fun event => { event with signaled := true }
    else
      .modify fun lk => lk.setEvent e fun event => { event with signaled := true }
      let _ ← waitQueueWakeAll (.event e) reschedule NO_ERROR
  unlockThreads state
  pure NO_ERROR

/-- The lock is not taken. -/
def Kernel.eventUnsignal (lk : Kernel) (e : EventId) : Kernel :=
  ((lk.useEvent e).note (.unsignal e (lk.event e).signaled)).setEvent e fun event =>
    { event with signaled := false }

/-- An operation on a queue of the caller's own, inside a section of the caller. -/
def locked {α : Type} (x : Section Kernel α) : Section Kernel α := do
  let state ← lockThreads
  let a ← x
  unlockThreads state
  pure a

def returning {α : Type} (f : α → Int) (x : Section Kernel α) : Section Kernel Int := do
  let a ← x
  pure (f a)

/-- What the operation does; its result is a number, or whether there is more to do. -/
def perform : Op → Section Kernel Int
  | .threadCreate priority entry => returning Int.ofNat (threadCreate priority entry)
  | .threadResume t => returning (fun b => b.toNat) (threadResume t)
  | .threadYield => returning (fun _ => 0) threadYield
  | .threadPreempt => returning (fun _ => 0) threadPreempt
  | .threadSetPriority priority => returning (fun _ => 0) (threadSetPriority priority)
  | .threadExit retcode => returning (fun _ => 0) (threadExit retcode)
  | .threadJoin t timeout => threadJoin t timeout
  | .threadDetach t => returning (fun b => b.toNat) (threadDetach t)
  | .waitQueueBlock w timeout => locked (waitQueueBlock (.other w) timeout)
  | .waitQueueWakeOne w reschedule err => locked (waitQueueWakeOne (.other w) reschedule err)
  | .waitQueueWakeAll w reschedule err => locked (waitQueueWakeAll (.other w) reschedule err)
  | .waitQueueDestroy w reschedule =>
    returning (fun _ => 0) (locked (waitQueueDestroy (.other w) reschedule))
  | .threadUnblock t err => locked (threadUnblockFromWaitQueue t err)
  | .semPost s resched => semPost s resched
  | .semWait s => semWait s
  | .semTrywait s => semTrywait s
  | .semTimedwait s timeout => semTimedwait s timeout
  | .semDestroy s => returning (fun _ => 0) (semDestroy s)
  | .mutexAcquire m timeout => mutexAcquireTimeout m timeout
  | .mutexRelease m => mutexRelease m
  | .mutexDestroy m => returning (fun _ => 0) (mutexDestroy m)
  | .eventWait e timeout => eventWaitTimeout e timeout
  | .eventSignal e reschedule => eventSignal e reschedule
  | .eventDestroy e => returning (fun _ => 0) (eventDestroy e)

end UefiLkl.Lk
