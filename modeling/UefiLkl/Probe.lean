import UefiLkl.Driver
set_option autoImplicit false

/-!
Telling the file system on a device by the magic bytes of its superblock.
-/

namespace UefiLkl
open Interaction

structure FsIdMag where
  magic : Bytes
  len : Nat
  kboff : Nat
  sboff : Nat
  deriving DecidableEq, Repr

structure FsIdInfo where
  name : Bytes
  magics : List FsIdMag
  deriving DecidableEq, Repr

def idInfoExt : FsIdInfo where
  name := asciiString "ext4"
  magics := [⟨[0o123, 0o357], 2, 1, 0x38⟩]

def idInfoNtfs : FsIdInfo where
  name := asciiString "ntfs"
  magics := [⟨asciiString "NTFS    ", 8, 0, 3⟩]

def idInfoF2fs : FsIdInfo where
  name := asciiString "f2fs"
  magics := [⟨[0x10, 0x20, 0xf5, 0xf2], 4, 1, 0⟩]

def fsIdInfos : List FsIdInfo := [idInfoExt, idInfoNtfs, idInfoF2fs]

def FsIdMag.offset (m : FsIdMag) : Nat := (m.kboff + m.sboff / 1024) * 1024

def FsIdMag.found (m : FsIdMag) (block : Bytes) : Bool :=
  (block.drop (m.sboff &&& 0x3ff)).take m.len = m.magic.take m.len

def probeSize : Nat := 1024

/-- The two loops over the table, for one way of reading a kilobyte. -/
def probeLoop (readBlock : Nat → Firmware (Option Bytes)) :
    List (Bytes × FsIdMag) → Firmware (Option Bytes)
  | [] => pure none
  | (name, m) :: rest => do
    match ← readBlock m.offset with
    | none => probeLoop readBlock rest
    | some block => if m.found block then pure (some name) else probeLoop readBlock rest

def FsIdInfo.entries (i : FsIdInfo) : List (Bytes × FsIdMag) := i.magics.map fun m => (i.name, m)

def fsEntries : List (Bytes × FsIdMag) := fsIdInfos.flatMap FsIdInfo.entries

def readDiskBlock (c : Controller) (mediaId offset : Nat) : Firmware (Option Bytes) := do
  match ← Prog.ask (DriverCall.readDisk c mediaId offset probeSize) with
  | .error _ => pure none
  | .ok block => pure (some block)

def readFileBlock (fd : Int) (offset : Nat) : Firmware (Option Bytes) := do
  let rc ← Prog.ask (DriverCall.sysLseek fd offset)
  if rc < 0 then pure none
  else match ← Prog.ask (DriverCall.sysRead fd probeSize) with
    | .error _ => pure none
    | .ok block => pure (some block)

def getFsType (c : Controller) (mediaId : Nat) : Firmware (Except EfiStatus Bytes) := do
  match ← probeLoop (readDiskBlock c mediaId) fsEntries with
  | some name => pure (.ok name)
  | none => pure (.error .notFound)

def getFsTypeLkl (path : Bytes) : Firmware (Except EfiStatus Bytes) := do
  let fd ← Prog.ask (DriverCall.sysOpen path O_RDONLY 0)
  if fd < 0 then pure (.error (lklError2EfiError fd))
  else
    let found ← probeLoop (readFileBlock fd) fsEntries
    let _ ← Prog.ask (DriverCall.sysClose fd)
    match found with
    | some name => pure (.ok name)
    | none => pure (.error .notFound)

end UefiLkl
