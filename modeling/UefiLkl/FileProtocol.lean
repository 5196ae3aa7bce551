import UefiLkl.Info
set_option autoImplicit false

/-!
The rest of the file protocol, and the calls that come in through its table.
-/

namespace UefiLkl
open Interaction

def lklGetPosition (f : LklIfile) : Lkl (EfiStatus × Option Int) := do
  let newPosition ← lklSysLseek f.fd 0 SEEK_CUR
  if newPosition < 0 then pure (lklError2EfiError newPosition, none)
  else pure (.success, some newPosition)

def lklSetPosition (f : LklIfile) (position : UInt64) : Lkl (EfiStatus × LklIfile) := do
  if isDirMode f.statBuf.mode then
    if position = 0 then
      match f.dir with
      | some dir => do
        lklRewinddir dir
        pure (.success, { f with dirEnt := none })
      | none => pure (.success, { f with dirEnt := none })
    else pure (.unsupported, f)
  else
    let newPosition ← if position = 0xffffffffffffffff then lklSysLseek f.fd 0 SEEK_END
      else lklSysLseek f.fd position.toInt64.toInt SEEK_SET
    if newPosition < 0 then pure (lklError2EfiError newPosition, f) else pure (.success, f)

def openDir (f : LklIfile) : Lkl (Except EfiStatus Ptr) := do
  match f.dir with
  | some dir => pure (.ok dir)
  | none => match ← lklFdopendir f.fd with
    | (some dir, _) => pure (.ok dir)
    | (none, rc) => pure (.error (lklError2EfiError rc))

/-- The entry becomes known as far as it can be opened. -/
def entryInfo (w : Nat) (f : LklIfile) (resultSize : Nat) (name : Bytes) : Lkl EfiFileInfo := do
  let info := newFileInfo resultSize name
  let fd ← lklSysOpenat f.fd name O_RDONLY 0o644
  if fd ≥ 0 then
    let (_, info) ← lklFillFileInfo w fd info
    let _ ← lklSysClose fd
    pure info
  else pure info

/-- An entry that did not fit is kept for the next call. -/
def lklIFileReadDir (w : Nat) (f : LklIfile) (bufferSize : Nat) :
    Lkl (EfiStatus × Nat × Option EfiFileInfo × LklIfile) := do
  match ← openDir f with
  | .error status => pure (status, bufferSize, none, f)
  | .ok dir =>
    let f := { f with dir := some dir }
    match ← (match f.dirEnt with
      | none => lklReaddir dir
      | some name => pure (some name)) with
    | none =>
      let err ← lklErrdir dir
      if err ≠ 0 then pure (.deviceError, 0, none, f)
      else pure (.success, 0, none, { f with dirEnt := none })
    | some name =>
      let resultSize := SIZE_OF_EFI_FILE_INFO + unicodeSize name
      if resultSize > bufferSize then
        pure (.bufferTooSmall, resultSize, none, { f with dirEnt := some name })
      else
        let info ← entryInfo w f resultSize name
        pure (.success, bufferSize, some info, { f with dirEnt := none })

inductive IoMode where
  | readData | writeData
  deriving DecidableEq, Repr

inductive IoData where
  | none
  | bytes (data : Bytes)
  | entry (info : Option EfiFileInfo)
  deriving DecidableEq, Repr

/-- `buffer` is what a write finds in the buffer. -/
def lklIFileAccess (w : Nat) (f : LklIfile) (ioMode : IoMode) (bufferSize : Nat)
    (buffer : Bytes) : Lkl (EfiStatus × Nat × IoData × LklIfile) := do
  if isDirMode f.statBuf.mode ∧ ioMode = .writeData then
    pure (.unsupported, bufferSize, .none, f)
  else if ioMode = .writeData ∧ f.volume.readOnly then
    pure (.writeProtected, bufferSize, .none, f)
  else if isDirMode f.statBuf.mode then
    let (status, size, info, f) ← lklIFileReadDir w f bufferSize
    pure (status, size, .entry info, f)
  else if ioMode = .writeData then
    let rc ← lklSysWrite f.fd buffer
    if rc < 0 then pure (lklError2EfiError rc, bufferSize, .none, f)
    else pure (.success, rc.toNat, .none, f)
  else
    match ← lklSysRead f.fd bufferSize with
    | .error rc => pure (lklError2EfiError rc, bufferSize, .none, f)
    | .ok data => pure (.success, data.length, .bytes data, f)

def lklRead (w : Nat) (f : LklIfile) (bufferSize : Nat) :
    Lkl (EfiStatus × Nat × IoData × LklIfile) :=
  lklIFileAccess w f .readData bufferSize []

def lklWrite (w : Nat) (f : LklIfile) (buffer : Bytes) :
    Lkl (EfiStatus × Nat × IoData × LklIfile) :=
  lklIFileAccess w f .writeData buffer.length buffer

def lklReadEx (_ : LklIfile) : Lkl EfiStatus := pure .unsupported

def lklWriteEx (_ : LklIfile) : Lkl EfiStatus := pure .unsupported

def lklFlush (f : LklIfile) : Lkl EfiStatus := do
  let rc ← lklSysFsync f.fd
  pure (lklError2EfiError rc)

def lklFlushEx (_ : LklIfile) : Lkl EfiStatus := pure .deviceError

def lklClose (f : LklIfile) : Lkl EfiStatus := do
  let _ ← lklIFileClose f
  pure .success

/-- The volume is not looked at. -/
def lklDelete (f : LklIfile) : Lkl EfiStatus := do
  let path := ifilePath f.volume f
  let filePath ← allocatePool (path.length + 1)
  let _ ← lklIFileClose f
  match filePath with
  | none => pure .warnDeleteFailure
  | some ptr =>
    let rc ← lklSysUnlink path
    freePool ptr
    pure (if rc = 0 then .success else .warnDeleteFailure)

inductive Request where
  | open (fileName : Option (List UInt16)) (openMode attributes : UInt64)
  | close
  | delete
  | read (bufferSize : Nat)
  | write (buffer : Bytes)
  | getPosition
  | setPosition (position : UInt64)
  | getInfo (type : EfiGuid) (bufferSize : Nat)
  | setInfo (type : EfiGuid) (bufferSize : Nat) (info : EfiFileInfo)
  | flush
  | openEx (fileName : Option (List UInt16)) (openMode attributes : UInt64)
  | readEx
  | writeEx
  | flushEx
  deriving DecidableEq, Repr

inductive HandleChange where
  | kept (f : LklIfile)
  | closed
  | opened (f : LklIfile)
  deriving DecidableEq

def Request.serve (w : Nat) (f : LklIfile) : Request → Lkl (EfiStatus × HandleChange)
  | .open fileName openMode attributes => do
    match ← lklOpen f fileName openMode attributes with
    | (status, some new) => pure (status, .opened new)
    | (status, none) => pure (status, .kept f)
  | .close => do pure (← lklClose f, .closed)
  | .delete => do pure (← lklDelete f, .closed)
  | .read bufferSize => do
    let (status, _, _, f) ← lklRead w f bufferSize
    pure (status, .kept f)
  | .write buffer => do
    let (status, _, _, f) ← lklWrite w f buffer
    pure (status, .kept f)
  | .getPosition => do pure ((← lklGetPosition f).1, .kept f)
  | .setPosition position => do
    let (status, f) ← lklSetPosition f position
    pure (status, .kept f)
  | .getInfo type bufferSize => do pure ((← lklGetInfo w f type bufferSize).1, .kept f)
  | .setInfo type bufferSize info => do pure (← lklSetInfo w f type bufferSize info, .kept f)
  | .flush => do pure (← lklFlush f, .kept f)
  | .openEx fileName openMode attributes => do
    pure ((← lklOpenEx f fileName openMode attributes).1, .kept f)
  | .readEx => do pure (← lklReadEx f, .kept f)
  | .writeEx => do pure (← lklWriteEx f, .kept f)
  | .flushEx => do pure (← lklFlushEx f, .kept f)

abbrev Session := Ptr → Option LklIfile

def Session.add (s : Session) : Option LklIfile → Session
  | some f => Function.update s f.ptr (some f)
  | none => s

theorem Session.add_self (s : Session) (f : LklIfile) : s.add (some f) f.ptr = some f := by
  change Function.update s f.ptr (some f) f.ptr = some f
  rw [Function.update_self]

def Session.change (s : Session) (h : Ptr) : HandleChange → Session
  | .kept f => Function.update s h (some f)
  | .closed => Function.update s h none
  | .opened f => s.add (some f)

abbrev Trace := List (Event Call Call.Ans)

inductive Session.Step (w : Nat) (volume : LklVolume) :
    Session → Option Request → Trace → Session → Prop where
  | openVolume {s : Session} {t : Trace} {status : EfiStatus} {f : Option LklIfile}
      (h : (lklOpenVolume volume).Exec t (status, f)) :
      Step w volume s none t (s.add f)
  | call {s : Session} {h : Ptr} {f : LklIfile} {r : Request} {t : Trace} {status : EfiStatus}
      {c : HandleChange} (hf : s h = some f) (hr : (r.serve w f).Exec t (status, c)) :
      Step w volume s (some r) t (s.change h c)

inductive Session.Run (w : Nat) (volume : LklVolume) :
    Session → List (Option Request × Trace) → Session → Prop where
  | nil (s : Session) : Run w volume s [] s
  | cons {s s' s'' : Session} {r : Option Request} {t : Trace}
      {run : List (Option Request × Trace)} (hstep : Session.Step w volume s r t s')
      (hrun : Run w volume s' run s'') : Run w volume s ((r, t) :: run) s''

end UefiLkl
