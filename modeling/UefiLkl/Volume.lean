import Mathlib.Algebra.Group.Nat.Defs
import UefiLkl.Probe
import UefiLkl.DmCrypt
set_option autoImplicit false

/-!
Starting and abandoning a volume: the key of an encrypted partition, the disk, and the
mount.
-/

namespace UefiLkl
open Interaction

def MEDIA_DEVICE_PATH : UInt8 := 0x04
def MEDIA_HARDDRIVE_DP : UInt8 := 0x01
def SIGNATURE_TYPE_GUID : UInt8 := 0x02

def wideString (s : String) : List UInt16 := s.toList.map fun c => c.toNat.toUInt16

def widen (s : Bytes) : List UInt16 := s.map UInt8.toUInt16

def unicodeToLower (s : List UInt16) : List UInt16 :=
  s.map fun c => if 0x41 ≤ c ∧ c ≤ 0x46 then c - 0x41 + 0x61 else c

def byteAt (s : List UInt8) (i : Nat) : Nat := (s[i]?.getD 0).toNat

/-- The little-endian number of `n` bytes from byte `i` on. -/
def readUnaligned (s : List UInt8) (i : Nat) : Nat → Nat
  | 0 => 0
  | n+1 => byteAt s i + 256 * readUnaligned s (i + 1) n

def keyPath (guid : List UInt8) : List UInt16 :=
  unicodeToLower (wideString "\\misc\\vold\\expand_" ++
    widen (hexDigits 8 (readUnaligned guid 0 4) ++ hexDigits 4 (readUnaligned guid 4 2) ++
      hexDigits 4 (readUnaligned guid 6 2) ++
      (List.range 8).flatMap fun i => hexDigits 2 (byteAt guid (8 + i))) ++
    wideString ".key")

def isHardDrive (n : DevicePathNode) : Bool :=
  n.type = MEDIA_DEVICE_PATH ∧ n.subType = MEDIA_HARDDRIVE_DP

def lklGetKeyLocation (c : Controller) : Firmware (Except EfiStatus (List UInt16)) := do
  match ← Prog.ask (DriverCall.devicePath c) with
  | none => pure (.error .invalidParameter)
  | some path => match path.find? isHardDrive with
    | none => pure (.error .invalidParameter)
    | some hd =>
      if hd.signatureType = SIGNATURE_TYPE_GUID then pure (.ok (keyPath hd.signature))
      else pure (.error .invalidParameter)

/-- The first of the volumes that has the file. -/
def searchPartitions (path : List UInt16) : List Controller → Firmware (Option Nat)
  | [] => pure none
  | c :: rest => do
    let status ← Prog.ask (DriverCall.handleFileSystem c)
    if status.isError then searchPartitions path rest
    else
      let status ← Prog.ask (DriverCall.handleFileSystem c)
      if status.isError then searchPartitions path rest
      else match ← Prog.ask (DriverCall.openRoot c) with
        | .error _ => searchPartitions path rest
        | .ok root =>
          let opened ← Prog.ask (DriverCall.fileOpen root path)
          let _ ← Prog.ask (DriverCall.fileClose root)
          match opened with
          | .error _ => searchPartitions path rest
          | .ok file => pure (some file)

def getFileFromAnyPartition (path : List UInt16) : Firmware (Except EfiStatus Nat) := do
  match ← Prog.ask DriverCall.locateFileSystems with
  | .error status => pure (.error status)
  | .ok (handleBuffer, handles) =>
    let found ← searchPartitions path handles
    let _ ← Prog.ask (DriverCall.freePool handleBuffer)
    match found with
    | some file => pure (.ok file)
    | none => pure (.error .notFound)

/-- What is known of the partition when the volume structure is about to be allocated. -/
inductive Partition where
  | plain (fsType : Bytes)
  | encrypted (keyFile key keyFileSize : Nat) (keyData : Bytes)
  deriving DecidableEq, Repr

/-- How `LKLAllocateVolume` goes on after the partition was looked at. -/
inductive Look where
  | goOn (p : Partition)
  /-- return at once -/
  | leave (status : EfiStatus)
  /-- to the label `Done`, still without a volume -/
  | done (status : EfiStatus) (keyFile key : Nat)
  deriving DecidableEq, Repr

/-- The size of a file as a `UINTN`, or as the `int` that becomes a `uint32_t`. -/
def word (size : Nat) : Nat := size % 2 ^ 32

def lookPlain (c : Controller) (media : Media) : Firmware Look := do
  match ← getFsType c media.mediaId with
  | .error _ => pure (.leave .unsupported)
  | .ok fsType => pure (.goOn (.plain fsType))

def lookEncrypted (c : Controller) : Firmware Look := do
  match ← lklGetKeyLocation c with
  | .error status => pure (.leave status)
  | .ok path => match ← getFileFromAnyPartition path with
    | .error _ => pure (.leave .notReady)
    | .ok keyFile => match ← Prog.ask (DriverCall.fileGetSize keyFile) with
      | .error status => pure (.leave status)
      | .ok size => match ← Prog.ask (DriverCall.allocatePool (word size)) with
        | none => pure (.leave .outOfResources)
        | some key => match ← Prog.ask (DriverCall.fileRead keyFile (word size)) with
          | .error status => pure (.done status keyFile key)
          | .ok keyData => pure (.goOn (.encrypted keyFile key size keyData))

def look (c : Controller) (media : Media) : Firmware Look := do
  match ← Prog.ask (DriverCall.partitionName c) with
  | .error _ => lookPlain c media
  | .ok name => if name = wideString "android_expand" then lookEncrypted c else lookPlain c media

def lklMakeDir (path : Bytes) : Firmware EfiStatus := do
  let rc ← Prog.ask (DriverCall.sysMkdir path 0o700)
  if rc ≠ 0 ∧ rc ≠ -EEXIST then pure (lklError2EfiError rc) else pure .success

def MS_SYNCHRONOUS : Nat := 16
def MS_DIRSYNC : Nat := 128

/-- `sizeof (LKL_VOLUME)`, which only the allocator is told. -/
def lklVolumeSize : Nat := 13456

def blkDevice (devId : Nat) : Bytes := asciiString "/dev/" ++ hexDigits 8 devId
def cryptFSName (devId : Nat) : Bytes := asciiString "lkl-" ++ hexDigits 8 devId
def mountPoint (devId : Nat) : Bytes := asciiString "/mnt/" ++ hexDigits 8 devId

def newVolume (ptr : Nat) (c : Controller) (hasDiskIo2 : Bool) (media : Media)
    (p : Partition) : VolumeRecord where
  ptr := ptr
  handle := some c
  hasDiskIo2 := hasDiskIo2
  media := media
  fsType := match p with
    | .plain fsType => some fsType
    | .encrypted _ _ _ _ => none
  isEncrypted := match p with
    | .plain _ => false
    | .encrypted _ _ _ _ => true
  lklDiskId := -1
  lklMountPoint := []
  lklBlkDevice := []
  lklBlkDeviceDecrypted := []
  lklCryptFSName := []
  valid := false

/-- From the look at the decrypted device on; the status, and the volume as it is at the
label `Done`. -/
def mountDecrypted (v : VolumeRecord) (devId : Nat) : Firmware (EfiStatus × VolumeRecord) := do
  match ← getFsTypeLkl v.lklBlkDeviceDecrypted with
  | .error status => pure (status, v)
  | .ok fsType =>
    let v := { v with lklMountPoint := mountPoint devId }
    let status ← lklMakeDir v.lklMountPoint
    if status.isError then pure (status, v)
    else
      let rc ← Prog.ask (DriverCall.sysMount v.lklBlkDeviceDecrypted v.lklMountPoint
        (some fsType) (MS_SYNCHRONOUS ||| MS_DIRSYNC))
      if rc < 0 then pure (lklError2EfiError rc, v) else pure (.success, v)

/-- From the device id on. -/
def mountEncrypted (buffer : Nat) (v : VolumeRecord) (keyData : Bytes) (keyFileSize : Nat) :
    Firmware (EfiStatus × VolumeRecord) := do
  let (rc, devId) ← Prog.ask (DriverCall.getVirtioBlkdev v.lklDiskId 0)
  if rc < 0 then pure (lklError2EfiError rc, v)
  else
    let v := { v with lklBlkDevice := blkDevice devId }
    let rc ← Prog.ask (DriverCall.sysMknod v.lklBlkDevice (S_IFBLK ||| 0o600) devId)
    if rc < 0 then pure (lklError2EfiError rc, v)
    else
      let v := { v with lklCryptFSName := cryptFSName devId }
      let (rc, decrypted) ←
        cryptfsSetupExtVolume buffer v.lklCryptFSName v.lklBlkDevice keyData (word keyFileSize)
      let v := { v with lklBlkDeviceDecrypted := decrypted }
      if rc < 0 then pure (lklError2EfiError rc, v) else mountDecrypted v devId

def mountPlain (v : VolumeRecord) (fsType : Bytes) : Firmware (EfiStatus × VolumeRecord) := do
  let (rc, dir) ← Prog.ask (DriverCall.mountDev v.lklDiskId 0 fsType
    (MS_SYNCHRONOUS ||| MS_DIRSYNC))
  let v := { v with lklMountPoint := dir }
  if rc < 0 then pure (lklError2EfiError rc, v) else pure (.success, v)

def mountPartition (buffer : Nat) (v : VolumeRecord) :
    Partition → Firmware (EfiStatus × VolumeRecord)
  | .plain fsType => mountPlain v fsType
  | .encrypted _ _ keyFileSize keyData => mountEncrypted buffer v keyData keyFileSize

/-- From the registration of the disk to the label `Done`. -/
def startVolume (buffer : Nat) (c : Controller) (v : VolumeRecord) (p : Partition) :
    Firmware (EfiStatus × VolumeRecord) := do
  let rc ← Prog.ask (DriverCall.diskAdd v.ptr c)
  if rc < 0 then pure (lklError2EfiError rc, v)
  else
    let (status, v) ← mountPartition buffer { v with lklDiskId := rc } p
    if status.isError then pure (status, v)
    else
      let status ← Prog.ask (DriverCall.installFileSystem v)
      if status.isError then pure (status, v) else pure (status, { v with valid := true })

def lklFreeVolume (v : VolumeRecord) : Firmware Unit := Prog.ask (DriverCall.freePool v.ptr)

def undoMount (v : VolumeRecord) : Firmware Unit :=
  if v.lklMountPoint ≠ [] then do
    let _ ← Prog.ask (DriverCall.sysUmount v.lklMountPoint)
    pure ()
  else pure ()

def undoCryptFS (v : VolumeRecord) : Firmware Unit :=
  if v.isEncrypted ∧ v.lklCryptFSName ≠ [] then do
    let _ ← cryptfsRevertExtVolume v.lklCryptFSName
    pure ()
  else pure ()

def undoBlkDevice (v : VolumeRecord) : Firmware Unit :=
  if v.isEncrypted ∧ v.lklBlkDevice ≠ [] then do
    let _ ← Prog.ask (DriverCall.sysUnlink v.lklBlkDevice)
    pure ()
  else pure ()

def undoDisk (v : VolumeRecord) : Firmware Unit :=
  if v.lklDiskId ≥ 0 then do
    let _ ← Prog.ask (DriverCall.diskRemove v.ptr v.lklDiskId)
    pure ()
  else pure ()

/-- At the label `Done`, with a volume and an error. -/
def undoVolume (v : VolumeRecord) : Firmware Unit := do
  undoMount v
  undoCryptFS v
  undoBlkDevice v
  undoDisk v
  lklFreeVolume v

/-- The end of the part behind the label `Done`. -/
def dropKey (key keyFile : Nat) : Firmware Unit := do
  let _ ← Prog.ask (DriverCall.freePool key)
  Prog.ask (DriverCall.fileClose keyFile)

def dropPartition : Partition → Firmware Unit
  | .plain _ => pure ()
  | .encrypted keyFile key _ _ => dropKey key keyFile

def withVolume (buffer : Nat) (c : Controller) (hasDiskIo2 : Bool) (media : Media)
    (p : Partition) (ptr : Nat) : Firmware EfiStatus := do
  let (status, v) ← startVolume buffer c (newVolume ptr c hasDiskIo2 media p) p
  (if status.isError then undoVolume v else pure ())
  dropPartition p
  pure status

def lklAllocateVolume (buffer : Nat) (c : Controller) (hasDiskIo2 : Bool) (media : Media) :
    Firmware EfiStatus := do
  match ← look c media with
  | .leave status => pure status
  | .done status keyFile key => do
    dropKey key keyFile
    pure status
  | .goOn p => match ← Prog.ask (DriverCall.allocatePool lklVolumeSize) with
    | none => pure .outOfResources
    | some ptr => withVolume buffer c hasDiskIo2 media p ptr

/-- What is left of the volume is only marked. -/
def lklAbandonVolume (v : VolumeRecord) : Firmware (EfiStatus × VolumeRecord) := do
  let status ← (match v.handle with
    | some _ => Prog.ask (DriverCall.uninstallFileSystem v)
    | none => pure .success)
  if status.isError then pure (status, v)
  else
    let locked ← Prog.ask DriverCall.acquireLock
    let v := { v with valid := false }
    if locked.isError then pure (.success, v)
    else
      let _ ← Prog.ask DriverCall.releaseLock
      pure (.success, v)

def initializeVolume (buffer : Nat) (c : Controller) : Firmware EfiStatus := do
  let status ← Prog.ask DriverCall.initializeUnicodeCollationSupport
  if status.isError then pure status
  else match ← Prog.ask (DriverCall.getBlockIo c) with
    | .error status => pure status
    | .ok media =>
      let status ← Prog.ask (DriverCall.openDiskIo c false)
      if status.isError then pure status
      else
        let two ← Prog.ask (DriverCall.openDiskIo c true)
        let status ← lklAllocateVolume buffer c (!two.isError) media
        if status.isError then
          let status ← Prog.ask (DriverCall.testFileSystem c)
          if status.isError then
            let _ ← Prog.ask (DriverCall.closeDiskIo c false)
            let _ ← Prog.ask (DriverCall.closeDiskIo c true)
            pure status
          else pure status
        else pure status

def lklDriverBindingStart (buffer : Nat) (c : Controller) : Firmware EfiStatus := do
  let locked ← Prog.ask DriverCall.acquireLock
  let status ← initializeVolume buffer c
  if locked.isError then pure status
  else
    let _ ← Prog.ask DriverCall.releaseLock
    pure status

def closeDiskIo2 (c : Controller) (v : VolumeRecord) : Firmware Unit :=
  if v.hasDiskIo2 then do
    let _ ← Prog.ask (DriverCall.closeDiskIo c true)
    pure ()
  else pure ()

def lklDriverBindingStop (c : Controller) : Firmware EfiStatus := do
  match ← Prog.ask (DriverCall.getFileSystem c) with
  | .error status => pure status
  | .ok v =>
    let (status, _) ← lklAbandonVolume v
    if status.isError then pure status
    else
      closeDiskIo2 c v
      Prog.ask (DriverCall.closeDiskIo c false)

end UefiLkl
