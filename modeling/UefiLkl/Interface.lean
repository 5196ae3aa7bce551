import UefiLkl.Lib.Interaction
import UefiLkl.Strings
set_option autoImplicit false

/-!
What the file protocol calls: the pool allocator and the kernel behind `lkl_sys_*`.
-/

namespace UefiLkl
open Interaction

abbrev Ptr := Nat

/-- The fields of `struct lkl_stat` that the driver reads. -/
structure Stat where
  mode : Nat
  size : Nat
  blocks : Nat
  atime : Nat
  mtime : Nat
  deriving DecidableEq, Repr, Inhabited

structure Statfs where
  bsize : Nat
  blocks : Nat
  bfree : Nat
  deriving DecidableEq, Repr, Inhabited

/-- The memory that is written through pointers: the buffers of path resolution, a
path whose last component is cut off, and a handle. -/
inductive Buffer where
  | rpath | buf | extraBuf | newFileName | ifile
  deriving DecidableEq, Repr

inductive Call where
  | allocatePool (size : Nat)
  | reallocatePool (oldSize newSize : Nat) (ptr : Ptr)
  | freePool (ptr : Ptr)
  /-- `len` bytes at offset `off` of a buffer of `size` bytes are accessed. -/
  | touch (buffer : Buffer) (off : Int) (len size : Nat)
  | sysLstat (path : Bytes)
  | sysReadlink (path : Bytes) (size : Nat)
  | sysMkdir (path : Bytes) (mode : Nat)
  | sysOpen (path : Bytes) (flags mode : Nat)
  | sysOpenat (fd : Int) (name : Bytes) (flags mode : Nat)
  | sysClose (fd : Int)
  | sysFstat (fd : Int)
  | sysRead (fd : Int) (len : Nat)
  | sysWrite (fd : Int) (data : Bytes)
  | sysLseek (fd off : Int) (whence : Nat)
  | sysFsync (fd : Int)
  | sysFtruncate (fd : Int) (len : Nat)
  | sysUtime (path : Option Bytes) (actime modtime : Nat)
  | sysChmod (path : Bytes) (mode : Nat)
  | sysUnlink (path : Bytes)
  | sysStatfs (path : Bytes)
  | fdopendir (fd : Int)
  | readdir (dir : Ptr)
  | errdir (dir : Ptr)
  | rewinddir (dir : Ptr)
  deriving DecidableEq, Repr

/-- A system call returns a number, negative on failure, and what it filled in;
the calls that return a count of bytes return the bytes. -/
@[reducible] def Call.Ans : Call → Type
  | .allocatePool _ | .reallocatePool _ _ _ => Option Ptr
  | .freePool _ | .touch _ _ _ _ | .rewinddir _ => Unit
  | .sysLstat _ | .sysFstat _ => Int × Stat
  | .sysReadlink _ _ | .sysRead _ _ => Except Int Bytes
  | .sysStatfs _ => Int × Statfs
  | .fdopendir _ => Option Ptr × Int
  | .readdir _ => Option Bytes
  | _ => Int

abbrev Lkl (α : Type) := Prog Call Call.Ans α

def Call.failed : (c : Call) → c.Ans → Bool
  | .allocatePool _, x => x.isNone
  | .reallocatePool _ _ _, x => x.isNone
  | .freePool _, _ => false
  | .touch _ _ _ _, _ => false
  | .rewinddir _, _ => false
  | .sysLstat _, x => x.1 < 0
  | .sysFstat _, x => x.1 < 0
  | .sysReadlink _ _, x => !x.isOk
  | .sysRead _ _, x => !x.isOk
  | .sysStatfs _, x => x.1 < 0
  | .fdopendir _, x => x.1.isNone
  | .readdir _, x => x.isNone
  | .sysMkdir _ _, x => x < 0
  | .sysOpen _ _ _, x => x < 0
  | .sysOpenat _ _ _ _, x => x < 0
  | .sysClose _, x => x < 0
  | .sysWrite _ _, x => x < 0
  | .sysLseek _ _ _, x => x < 0
  | .sysFsync _, x => x < 0
  | .sysFtruncate _ _, x => x < 0
  | .sysUtime _ _ _, x => x < 0
  | .sysChmod _ _, x => x < 0
  | .sysUnlink _, x => x < 0
  | .errdir _, x => x < 0

/-- Neither does the call lead to an object by its path, nor does it change the kernel's files. -/
def Call.passive : Call → Bool
  | .sysMkdir _ _ | .sysOpen _ _ _ | .sysOpenat _ _ _ _ | .sysWrite _ _ | .sysFtruncate _ _
  | .sysUtime _ _ _ | .sysChmod _ _ | .sysUnlink _ => false
  | _ => true

/-- The allocator, and the calls that look at an object or close a descriptor. -/
def Call.plain : Call → Bool
  | .allocatePool _ | .reallocatePool _ _ _ | .freePool _ | .touch _ _ _ _ | .sysLstat _
  | .sysReadlink _ _ | .sysFstat _ | .sysClose _ => true
  | _ => false

theorem Call.passive_of_plain {c : Call} (h : c.plain = true) : c.passive = true := by
  cases c <;> first | rfl | cases h

def allocatePool (size : Nat) : Lkl (Option Ptr) := Prog.ask (Call.allocatePool size)
def reallocatePool (oldSize newSize : Nat) (ptr : Ptr) : Lkl (Option Ptr) :=
  Prog.ask (Call.reallocatePool oldSize newSize ptr)
def freePool (ptr : Ptr) : Lkl Unit := Prog.ask (Call.freePool ptr)
def touch (buffer : Buffer) (off : Int) (len size : Nat) : Lkl Unit :=
  Prog.ask (Call.touch buffer off len size)
def lklSysLstat (path : Bytes) : Lkl (Int × Stat) := Prog.ask (Call.sysLstat path)
def lklSysReadlink (path : Bytes) (size : Nat) : Lkl (Except Int Bytes) :=
  Prog.ask (Call.sysReadlink path size)
def lklSysMkdir (path : Bytes) (mode : Nat) : Lkl Int := Prog.ask (Call.sysMkdir path mode)
def lklSysOpen (path : Bytes) (flags mode : Nat) : Lkl Int :=
  Prog.ask (Call.sysOpen path flags mode)
def lklSysOpenat (fd : Int) (name : Bytes) (flags mode : Nat) : Lkl Int :=
  Prog.ask (Call.sysOpenat fd name flags mode)
def lklSysClose (fd : Int) : Lkl Int := Prog.ask (Call.sysClose fd)
def lklSysFstat (fd : Int) : Lkl (Int × Stat) := Prog.ask (Call.sysFstat fd)
def lklSysRead (fd : Int) (len : Nat) : Lkl (Except Int Bytes) := Prog.ask (Call.sysRead fd len)
def lklSysWrite (fd : Int) (data : Bytes) : Lkl Int := Prog.ask (Call.sysWrite fd data)
def lklSysLseek (fd off : Int) (whence : Nat) : Lkl Int := Prog.ask (Call.sysLseek fd off whence)
def lklSysFsync (fd : Int) : Lkl Int := Prog.ask (Call.sysFsync fd)
def lklSysFtruncate (fd : Int) (len : Nat) : Lkl Int := Prog.ask (Call.sysFtruncate fd len)
def lklSysUtime (path : Option Bytes) (actime modtime : Nat) : Lkl Int :=
  Prog.ask (Call.sysUtime path actime modtime)
def lklSysChmod (path : Bytes) (mode : Nat) : Lkl Int := Prog.ask (Call.sysChmod path mode)
def lklSysUnlink (path : Bytes) : Lkl Int := Prog.ask (Call.sysUnlink path)
def lklSysStatfs (path : Bytes) : Lkl (Int × Statfs) := Prog.ask (Call.sysStatfs path)
def lklFdopendir (fd : Int) : Lkl (Option Ptr × Int) := Prog.ask (Call.fdopendir fd)
def lklReaddir (dir : Ptr) : Lkl (Option Bytes) := Prog.ask (Call.readdir dir)
def lklErrdir (dir : Ptr) : Lkl Int := Prog.ask (Call.errdir dir)
def lklRewinddir (dir : Ptr) : Lkl Unit := Prog.ask (Call.rewinddir dir)

def S_IFMT : Nat := 0o170000
def S_IFDIR : Nat := 0o040000
def S_IFREG : Nat := 0o100000
def S_IFLNK : Nat := 0o120000
def S_IRUSR : Nat := 0o400
def S_IWUSR : Nat := 0o200

def isLnk (mode : Nat) : Bool := mode &&& S_IFMT = S_IFLNK
def isDirMode (mode : Nat) : Bool := mode &&& S_IFMT = S_IFDIR

def SEEK_SET : Nat := 0
def SEEK_CUR : Nat := 1
def SEEK_END : Nat := 2

def O_RDONLY : Nat := 0
def O_WRONLY : Nat := 1
def O_RDWR : Nat := 2
def O_CREAT : Nat := 0o100

end UefiLkl
