import UefiLkl.Open
import UefiLkl.Time
set_option autoImplicit false

/-!
Reading and changing what is known about a file or a volume.
-/

namespace UefiLkl
open Interaction

structure EfiFileInfo where
  size : Nat
  fileSize : Nat
  physicalSize : Nat
  createTime : EfiTime
  lastAccessTime : EfiTime
  modificationTime : EfiTime
  attr : UInt64
  fileName : List UInt16
  deriving DecidableEq, Repr

structure EfiFileSystemInfo where
  size : Nat
  readOnly : Bool
  volumeSize : Nat
  freeSpace : Nat
  blockSize : Nat
  volumeLabel : List UInt16
  deriving DecidableEq, Repr

inductive EfiGuid where
  | fileInfo | fileSystemInfo | other
  deriving DecidableEq, Repr

inductive EfiInfo where
  | file (info : EfiFileInfo)
  | fileSystem (info : EfiFileSystemInfo)
  deriving DecidableEq, Repr

def SIZE_OF_EFI_FILE_INFO : Nat := 80
def SIZE_OF_EFI_FILE_SYSTEM_INFO : Nat := 36

/-- `AsciiStrSize (s) * sizeof (CHAR16)` -/
def unicodeSize (s : Bytes) : Nat := (s.length + 1) * 2

def asciiStrToUnicodeStr (s : Bytes) : List UInt16 := s.map UInt8.toUInt16

/-- `ZeroMem (FileInfo, SIZE_OF_EFI_FILE_INFO)`, the size and the name written. -/
def newFileInfo (size : Nat) (name : Bytes) : EfiFileInfo :=
  ⟨size, 0, 0, zeroTime, zeroTime, zeroTime, 0, asciiStrToUnicodeStr name⟩

def statAttribute (st : Stat) : UInt64 :=
  (if st.mode &&& S_IWUSR = 0 then EFI_FILE_READ_ONLY else 0) |||
    (if isDirMode st.mode then EFI_FILE_DIRECTORY else 0)

/-- There is no time of creation, so the time of modification stands for it. -/
def fillFileInfo (w : Nat) (st : Stat) (info : EfiFileInfo) : EfiFileInfo :=
  { info with
    fileSize := st.size
    physicalSize := st.blocks * 512
    lastAccessTime := epochToEfiTime w (BitVec.ofNat w st.atime) info.lastAccessTime
    modificationTime := epochToEfiTime w (BitVec.ofNat w st.mtime) info.modificationTime
    createTime := epochToEfiTime w (BitVec.ofNat w st.mtime) info.createTime
    attr := statAttribute st }

def lklFillFileInfo (w : Nat) (fd : Int) (info : EfiFileInfo) : Lkl (EfiStatus × EfiFileInfo) := do
  let (rc, st) ← lklSysFstat fd
  if rc ≠ 0 then pure (.deviceError, info)
  else pure (.success, fillFileInfo w st info)

def ifileName (f : LklIfile) : Bytes := f.filePath.val.drop (getBasenamePtr f.filePath)

def handleAttribute (f : LklIfile) (attr : UInt64) : UInt64 :=
  let attr := if f.linuxOpenFlags &&& O_RDONLY = 0 then attr ||| EFI_FILE_READ_ONLY else attr
  if isDirMode f.statBuf.mode then attr ||| EFI_FILE_DIRECTORY else attr

/-- The status of the fill is not looked at. -/
def lklGetFileInfo (w : Nat) (f : LklIfile) (bufferSize : Nat) :
    Lkl (EfiStatus × Nat × Option EfiInfo) := do
  let name := ifileName f
  let resultSize := SIZE_OF_EFI_FILE_INFO + unicodeSize name
  if resultSize > bufferSize then pure (.bufferTooSmall, resultSize, none)
  else
    let (_, info) ← lklFillFileInfo w f.fd (newFileInfo resultSize name)
    pure (.success, bufferSize, some (.file { info with attr := handleAttribute f info.attr }))

/-- The products are computed in words of `w` bits. -/
def lklGetVolumeInfo (w : Nat) (volume : LklVolume) (bufferSize : Nat) :
    Lkl (EfiStatus × Nat × Option EfiInfo) := do
  let (rc, st) ← lklSysStatfs volume.lklMountPoint
  if rc ≠ 0 then pure (.unsupported, bufferSize, none)
  else
    let resultSize := SIZE_OF_EFI_FILE_SYSTEM_INFO + unicodeSize volume.fsType
    if bufferSize ≥ resultSize then
      let blockSize := st.bsize % 2 ^ 32
      pure (.success, resultSize, some (.fileSystem
        { size := resultSize
          readOnly := volume.readOnly
          blockSize := blockSize
          volumeSize := (BitVec.ofNat w st.blocks * BitVec.ofNat w blockSize).toNat
          freeSpace := (BitVec.ofNat w st.bfree * BitVec.ofNat w blockSize).toNat
          volumeLabel := asciiStrToUnicodeStr volume.fsType }))
    else pure (.bufferTooSmall, resultSize, none)

/-- A zero time preserves the original one. The result is the time to store, and
whether it is a new one. -/
def newModtime (w : Nat) (readOnly : Bool) (t : EfiTime) (modtime : Nat × Bool) :
    Except EfiStatus (Nat × Bool) :=
  if t = zeroTime then .ok modtime
  else if !efiTimeIsValid t then .error .invalidParameter
  else if readOnly then .ok modtime
  else
    let newTime := (efiTimeToEpoch w t).toNat % 2 ^ 32
    if modtime.1 ≠ newTime then .ok (newTime, true) else .ok modtime

/-- The time of creation comes first, and the time of modification wins. -/
def newTimes (w : Nat) (readOnly : Bool) (info : EfiFileInfo) (mtime : Nat) :
    Except EfiStatus (Nat × Bool) := do
  let modtime ← newModtime w readOnly info.createTime (mtime, false)
  newModtime w readOnly info.modificationTime modtime

/-- `%a/%a` of the mount point and the path of the handle. -/
def ifilePath (volume : LklVolume) (f : LklIfile) : Bytes :=
  volume.lklMountPoint.val ++ slash :: f.filePath.val

/-- The path is freed, and passed on, even when there was no memory for it. -/
def applyTime (volume : LklVolume) (f : LklIfile) (actime modtime : Nat) : Lkl Int := do
  let path := ifilePath volume f
  let ptr ← allocatePool (path.length + 1)
  let rc ← lklSysUtime (ptr.map fun _ => path) actime modtime
  freePool (ptr.getD 0)
  pure rc

def newMode (newAttribute : UInt8) (mode : Nat) : Nat :=
  if newAttribute &&& EFI_FILE_READ_ONLY.toUInt8 ≠ 0 then mode &&& (0xffffffff ^^^ S_IWUSR)
  else mode ||| S_IWUSR

def applySize (f : LklIfile) (st : Stat) (readOnly isDirectory : UInt8) (info : EfiFileInfo) :
    Lkl EfiStatus := do
  if info.fileSize ≠ st.size then
    if isDirectory ≠ 0 ∨ readOnly ≠ 0 then pure .accessDenied
    else
      let rc ← lklSysFtruncate f.fd info.fileSize
      if rc ≠ 0 then pure (lklError2EfiError rc) else pure .success
  else pure .success

/-- What follows once the times are set; truth values are bytes here. -/
def applyAttributes (f : LklIfile) (st : Stat) (readOnly isDirectory : UInt8)
    (info : EfiFileInfo) : Lkl EfiStatus := do
  if info.attr &&& ~~~EFI_FILE_VALID_ATTR ≠ 0 then pure .invalidParameter
  else
    let newAttribute := info.attr.toUInt8
    if newAttribute &&& EFI_FILE_DIRECTORY.toUInt8 ≠ isDirectory then pure .accessDenied
    else
      let rc ← if newAttribute &&& EFI_FILE_READ_ONLY.toUInt8 ≠ readOnly then
          lklSysChmod f.filePath (newMode newAttribute st.mode)
        else pure 0
      if rc ≠ 0 then pure (lklError2EfiError rc)
      else applySize f st readOnly isDirectory info

def lklSetFileInfo (w : Nat) (volume : LklVolume) (f : LklIfile) (bufferSize : Nat)
    (info : EfiFileInfo) : Lkl EfiStatus := do
  if f.filePath.val = [] then pure .accessDenied
  else if bufferSize < SIZE_OF_EFI_FILE_INFO + 2 ∨ info.size > bufferSize then
    pure .badBufferSize
  else
    let (rc, st) ← lklSysFstat f.fd
    if rc ≠ 0 then pure (lklError2EfiError rc)
    else
      let readOnly : UInt8 := (f.linuxOpenFlags &&& O_RDONLY).toUInt8
      let isDirectory : UInt8 := if isDirMode st.mode then 1 else 0
      match newTimes w (readOnly ≠ 0) info st.mtime with
      | .error status => pure status
      | .ok (modtime, timeChanged) =>
        let rc ← if readOnly = 0 ∧ timeChanged then applyTime volume f st.atime modtime
          else pure 0
        if rc ≠ 0 then pure (lklError2EfiError rc)
        else applyAttributes f st readOnly isDirectory info

def lklGetInfo (w : Nat) (f : LklIfile) (type : EfiGuid) (bufferSize : Nat) :
    Lkl (EfiStatus × Nat × Option EfiInfo) :=
  match type with
  | .fileInfo => lklGetFileInfo w f bufferSize
  | .fileSystemInfo => lklGetVolumeInfo w f.volume bufferSize
  | .other => pure (.unsupported, bufferSize, none)

def lklSetInfo (w : Nat) (f : LklIfile) (type : EfiGuid) (bufferSize : Nat)
    (info : EfiFileInfo) : Lkl EfiStatus :=
  match type with
  | .fileInfo =>
    if f.volume.readOnly then pure .writeProtected
    else lklSetFileInfo w f.volume f bufferSize info
  | _ => pure .unsupported

end UefiLkl
