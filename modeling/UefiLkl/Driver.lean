import UefiLkl.Efi
import UefiLkl.Interface
set_option autoImplicit false

/-!
What the driver calls when it starts and stops a controller: boot services, files of
other volumes, the block device, and the kernel.
-/

namespace UefiLkl
open Interaction

abbrev Controller := Nat

/-- The parts of a node of a device path that are looked at. -/
structure DevicePathNode where
  type : UInt8
  subType : UInt8
  signatureType : UInt8
  signature : List UInt8
  deriving DecidableEq, Repr

/-- `EFI_BLOCK_IO_MEDIA`, as far as it is copied. -/
structure Media where
  mediaId : Nat
  readOnly : Bool
  deriving DecidableEq, Repr

/-- `LKL_VOLUME`, allocated at `ptr`. The file-system name is `none` while it is not set, and
the handle is never `NULL` once it is. -/
structure VolumeRecord where
  ptr : Nat
  handle : Option Controller
  hasDiskIo2 : Bool
  media : Media
  fsType : Option Bytes
  isEncrypted : Bool
  lklDiskId : Int
  lklMountPoint : Bytes
  lklBlkDevice : Bytes
  lklBlkDeviceDecrypted : Bytes
  lklCryptFSName : Bytes
  valid : Bool
  deriving DecidableEq, Repr

structure DmTarget where
  sectorStart : Nat
  length : Nat
  targetType : Bytes
  params : Bytes
  next : Nat
  deriving DecidableEq, Repr

inductive DriverCall where
  | acquireLock
  | releaseLock
  | initializeUnicodeCollationSupport
  | allocatePool (size : Nat)
  | freePool (ptr : Nat)
  | getBlockIo (c : Controller)
  | openDiskIo (c : Controller) (two : Bool)
  | closeDiskIo (c : Controller) (two : Bool)
  | testFileSystem (c : Controller)
  | getFileSystem (c : Controller)
  | installFileSystem (v : VolumeRecord)
  | uninstallFileSystem (v : VolumeRecord)
  | partitionName (c : Controller)
  | devicePath (c : Controller)
  | locateFileSystems
  | handleFileSystem (c : Controller)
  | openRoot (c : Controller)
  | fileOpen (root : Nat) (path : List UInt16)
  | fileClose (file : Nat)
  | fileGetSize (file : Nat)
  | fileRead (file size : Nat)
  | readDisk (c : Controller) (mediaId offset size : Nat)
  | diskAdd (volume : Nat) (c : Controller)
  | diskRemove (volume : Nat) (id : Int)
  | getVirtioBlkdev (id part : Int)
  | mountDev (id part : Int) (fsType : Bytes) (flags : Nat)
  | sysOpen (path : Bytes) (flags mode : Nat)
  | sysClose (fd : Int)
  | sysLseek (fd : Int) (off : Nat)
  | sysRead (fd : Int) (len : Nat)
  | sysMknod (path : Bytes) (mode dev : Nat)
  | sysUnlink (path : Bytes)
  | sysMkdir (path : Bytes) (mode : Nat)
  | sysMount (dev dir : Bytes) (fsType : Option Bytes) (flags : Nat)
  | sysUmount (dir : Bytes)
  | blkGetSize (fd : Int)
  | dmDevCreate (fd : Int) (name : Bytes)
  | dmDevStatus (fd : Int) (name : Bytes)
  | dmTableLoad (fd : Int) (name : Bytes) (target : DmTarget)
  | dmDevSuspend (fd : Int) (name : Bytes)
  | dmDevRemove (fd : Int) (name : Bytes)
  deriving DecidableEq, Repr

/-- With a number, negative on failure, comes what the call filled in. The count of
`LKL_BLKGETSIZE` is what the variable holds afterwards, also when it was not set, and the
bytes of a read are all that the buffer holds afterwards. -/
@[reducible] def DriverCall.Ans : DriverCall → Type
  | .releaseLock | .freePool _ | .fileClose _ => Unit
  | .allocatePool _ => Option Nat
  | .acquireLock | .initializeUnicodeCollationSupport | .openDiskIo _ _ | .closeDiskIo _ _
  | .testFileSystem _ | .installFileSystem _ | .uninstallFileSystem _
  | .handleFileSystem _ => EfiStatus
  | .getBlockIo _ => Except EfiStatus Media
  | .getFileSystem _ => Except EfiStatus VolumeRecord
  | .partitionName _ => Except EfiStatus (List UInt16)
  | .devicePath _ => Option (List DevicePathNode)
  | .locateFileSystems => Except EfiStatus (Nat × List Controller)
  | .openRoot _ | .fileOpen _ _ | .fileGetSize _ => Except EfiStatus Nat
  | .fileRead _ _ | .readDisk _ _ _ _ => Except EfiStatus Bytes
  | .sysRead _ _ => Except Int Bytes
  | .getVirtioBlkdev _ _ | .blkGetSize _ | .dmDevStatus _ _ => Int × Nat
  | .mountDev _ _ _ _ => Int × Bytes
  | _ => Int

/-- Everything succeeds, at the first possible address. -/
def DriverCall.granted : (c : DriverCall) → c.Ans
  | .releaseLock | .freePool _ | .fileClose _ => ()
  | .allocatePool _ => some 1
  | .acquireLock | .initializeUnicodeCollationSupport | .openDiskIo _ _ | .closeDiskIo _ _
  | .testFileSystem _ | .installFileSystem _ | .uninstallFileSystem _
  | .handleFileSystem _ => .success
  | .getBlockIo _ => .ok ⟨0, false⟩
  | .getFileSystem _ => .error .unsupported
  | .partitionName _ => .ok []
  | .devicePath _ => none
  | .locateFileSystems => .ok (0, [])
  | .openRoot _ | .fileOpen _ _ | .fileGetSize _ => .ok 1
  | .fileRead _ size | .readDisk _ _ _ size => .ok (List.replicate size 0)
  | .sysRead _ len => .ok (List.replicate len 0)
  | .getVirtioBlkdev _ _ | .dmDevStatus _ _ => ((0 : Int), 0)
  | .blkGetSize _ => ((0 : Int), 2048)
  | .mountDev _ _ _ _ => ((0 : Int), [])
  | .diskAdd _ _ | .diskRemove _ _ | .sysOpen _ _ _ | .sysClose _ | .sysLseek _ _
  | .sysMknod _ _ _ | .sysUnlink _ | .sysMkdir _ _ | .sysMount _ _ _ _ | .sysUmount _
  | .dmDevCreate _ _ | .dmTableLoad _ _ _ | .dmDevSuspend _ _ | .dmDevRemove _ _ => (0 : Int)

abbrev Firmware (α : Type) := Prog DriverCall DriverCall.Ans α

def asciiString (s : String) : Bytes := s.toList.map fun c => c.toNat.toUInt8

def hexDigit (n : Nat) : UInt8 :=
  if n < 10 then (48 + n).toUInt8 else (55 + n).toUInt8

/-- `%0*x` of a number that has no more digits than `width`, printed in capitals as the
firmware's print library does. -/
def hexDigits : Nat → Nat → Bytes
  | 0, _ => []
  | width+1, n => hexDigits width (n / 16) ++ [hexDigit (n % 16)]

def decimal (n : Nat) : Bytes := (Nat.toDigits 10 n).map fun c => c.toNat.toUInt8

end UefiLkl
