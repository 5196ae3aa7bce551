import Mathlib.Algebra.GroupWithZero.Nat
import UefiLkl.Efi
import UefiLkl.Interface
set_option autoImplicit false

/-!
The kernel behind the system calls, as far as the file protocol can tell: a tree of
directories, files and symbolic links, the inodes, and the open descriptors. The
working directory is the root.
-/

namespace UefiLkl
open Interaction PathWalk

inductive FsNode where
  | dir (ino : Nat)
  | file (ino : Nat)
  | link (ino : Nat) (target : Bytes)
  deriving DecidableEq, Repr

def FsNode.ino : FsNode → Nat
  | .dir i => i
  | .file i => i
  | .link i _ => i

def FsNode.entry : FsNode → Entry Name
  | .dir _ => .dir
  | .file _ => .file
  | .link _ target => .link (target.head? == some slash) (components target)

def validName (a : Name) : Bool :=
  PathName.kind a = .name && !a.contains slash && !a.contains 0 && a.length ≤ 255

/-- The text of a link is a string shorter than `PATH_MAX`. -/
def FsNode.valid : FsNode → Bool
  | .link _ target => target.length < 4096 && !target.contains 0
  | _ => true

structure FsTree where
  node : List Name → Option FsNode
  root : (node []).map FsNode.entry = some .dir
  parent : ∀ (p : List Name) (a : Name), node (p ++ [a]) ≠ none →
    (node p).map FsNode.entry = some .dir
  names : ∀ (p : List Name) (a : Name), node (p ++ [a]) ≠ none → validName a = true
  valid : ∀ (p : List Name) (n : FsNode), node p = some n → n.valid = true

def FsTree.tree (F : FsTree) : PathTree Name where
  entry p := (F.node p).map FsNode.entry
  root := F.root
  parent p a h := F.parent p a fun hn => h (by simp [hn])

@[simp] theorem FsTree.tree_entry (F : FsTree) (p : List Name) :
    F.tree.entry p = (F.node p).map FsNode.entry := rfl

theorem FsTree.exists_of_prefix (F : FsTree) {p s : List Name} (h : F.node (p ++ s) ≠ none) :
    F.node p ≠ none := by
  by_cases hs : s = []
  · simpa [hs] using h
  · have := F.tree.dir_of_below hs (p := p) (by simpa using h)
    intro hp
    simp [hp] at this

theorem FsTree.validName_of_mem (F : FsTree) {p : List Name} (h : F.node p ≠ none) {a : Name}
    (ha : a ∈ p) : validName a = true := by
  obtain ⟨s, t, rfl⟩ := List.append_of_mem ha
  exact F.names s a (F.exists_of_prefix (s := t) (by simpa using h))

/-- A new directory entry; the kernel refuses what would not be a tree. -/
def FsTree.insert (F : FsTree) (d : List Name) (a : Name) (n : FsNode) : FsTree :=
  if h : F.tree.isDir d = true ∧ F.node (d ++ [a]) = none ∧ validName a = true ∧
      n.valid = true then
    { node := Function.update F.node (d ++ [a]) (some n)
      root := by
        rw [Function.update_of_ne (by simp)]
        exact F.root
      parent := by
        intro p b hb
        rw [F.tree.isDir_iff] at h
        by_cases hpb : p ++ [b] = d ++ [a]
        · obtain rfl := List.append_inj_left' hpb rfl
          rw [Function.update_of_ne (by simp)]
          exact h.1
        · rw [Function.update_of_ne hpb] at hb
          have hp := F.parent p b hb
          by_cases hpa : p = d ++ [a]
          · simp [hpa, h.2.1] at hp
          · rw [Function.update_of_ne hpa]
            exact hp
      names := by
        intro p b hb
        by_cases hpb : p ++ [b] = d ++ [a]
        · obtain rfl := List.singleton_injective (List.append_inj_right' hpb rfl)
          exact h.2.2.1
        · rw [Function.update_of_ne hpb] at hb
          exact F.names p b hb
      valid := by
        intro p m hm
        by_cases hp : p = d ++ [a]
        · rw [hp, Function.update_self, Option.some.injEq] at hm
          rw [← hm]
          exact h.2.2.2
        · rw [Function.update_of_ne hp] at hm
          exact F.valid p m hm }
  else F

def FsTree.remove (F : FsTree) (p : List Name) : FsTree :=
  if h : F.tree.isDir p = false then
    { node := Function.update F.node p none
      root := by
        have hp : [] ≠ p := by
          rintro rfl
          have := (F.tree.isDir_iff []).mpr F.root
          simp [h] at this
        rw [Function.update_of_ne hp]
        exact F.root
      parent := by
        intro q b hb
        by_cases hqb : q ++ [b] = p
        · simp [hqb] at hb
        · rw [Function.update_of_ne hqb] at hb
          have hq := F.parent q b hb
          have hqp : q ≠ p := by
            rintro rfl
            simp [(F.tree.isDir_iff q).mpr hq] at h
          rw [Function.update_of_ne hqp]
          exact hq
      names := by
        intro q b hb
        by_cases hqb : q ++ [b] = p
        · simp [hqb] at hb
        · rw [Function.update_of_ne hqb] at hb
          exact F.names q b hb
      valid := by
        intro q m hm
        by_cases hq : q = p
        · simp [hq] at hm
        · rw [Function.update_of_ne hq] at hm
          exact F.valid q m hm }
  else F

instance neZeroPerm : NeZero 4096 := ⟨by decide⟩

structure Inode where
  isDir : Bool
  perm : Fin 4096
  size : Nat
  blocks : Nat
  atime : Nat
  mtime : Nat
  content : Nat → UInt8

def fileMode (isDir : Bool) (perm : Fin 4096) : Nat :=
  (if isDir then S_IFDIR else S_IFREG) ||| perm

def Inode.mode (i : Inode) : Nat := fileMode i.isDir i.perm

def Inode.stat (i : Inode) : Stat := ⟨i.mode, i.size, i.blocks, i.atime, i.mtime⟩

theorem perm_and_ifmt (p : Fin 4096) : (p : Nat) &&& S_IFMT = 0 := by
  refine Nat.eq_of_testBit_eq fun i => ?_
  rw [Nat.testBit_and, show S_IFMT = 15 <<< 12 from rfl, Nat.testBit_shiftLeft, Nat.zero_testBit]
  by_cases hi : 12 ≤ i
  · have hp : (p : Nat) < 2 ^ i :=
      p.isLt.trans_le (Nat.pow_le_pow_right Nat.two_pos hi)
    rw [Nat.testBit_lt_two_pow hp, Bool.false_and]
  · simp [hi]

theorem fileMode_and_ifmt (d : Bool) (p : Fin 4096) :
    fileMode d p &&& S_IFMT = if d then S_IFDIR else S_IFREG := by
  rw [fileMode, Nat.and_or_distrib_right, perm_and_ifmt]
  cases d <;> rfl

@[simp] theorem isLnk_fileMode (d : Bool) (p : Fin 4096) : isLnk (fileMode d p) = false := by
  rw [isLnk, fileMode_and_ifmt]
  cases d <;> rfl

@[simp] theorem isDirMode_fileMode (d : Bool) (p : Fin 4096) :
    isDirMode (fileMode d p) = d := by
  rw [isDirMode, fileMode_and_ifmt]
  cases d <;> rfl

@[simp] theorem Inode.isLnk_mode (i : Inode) : isLnk i.mode = false := isLnk_fileMode _ _

@[simp] theorem Inode.isDirMode_mode (i : Inode) : isDirMode i.mode = i.isDir :=
  isDirMode_fileMode _ _

structure OpenFile where
  ino : Nat
  flags : Nat
  pos : Nat
  deriving DecidableEq, Repr

/-- `reached` lists the canonical paths that `mkdir` created or `open` opened, and
`faulted` says whether some call failed for a reason of its own. -/
structure Linux where
  fs : FsTree
  inode : Nat → Inode
  nextIno : Nat
  fds : Nat → Option OpenFile
  nextFd : Nat
  now : Nat
  nextPtr : Nat
  reached : List (List Name)
  faulted : Bool

def PathWalk.Failure.errno : Failure → Int
  | .noEntry => ENOENT
  | .notDir => ENOTDIR
  | .loop => ELOOP
  | .tooLong => ENAMETOOLONG

def Linux.walkPath (k : Linux) (follow : Bool) (path : Bytes) : Outcome Name :=
  if path = [] then .fail .noEntry
  else if path.length ≥ 4096 then .fail .tooLong
  else walk k.fs.tree ⟨true, follow⟩ .unlimited 40 [] (components path)

/-- The inode a path argument leads to. -/
def Linux.lookup (k : Linux) (follow : Bool) (path : Bytes) : Except Int FsNode :=
  match k.walkPath follow path with
  | .found p => match k.fs.node p with
    | some n => .ok n
    | none => .error (-ENOENT)
  | .missing _ _ => .error (-ENOENT)
  | .fail e => .error (-e.errno)

def FsTree.empty : FsTree where
  node p := if p = [] then some (.dir 0) else none
  root := by simp [FsNode.entry]
  parent p a h := by simp at h
  names p a h := by simp at h
  valid p n h := by
    split at h <;> cases h
    rfl

def Linux.boot : Linux where
  fs := .empty
  inode _ := ⟨true, 0o755, 4096, 8, 0, 0, fun _ => 0⟩
  nextIno := 1
  fds _ := none
  nextFd := 3
  now := 0
  nextPtr := 1
  reached := []
  faulted := false

def Linux.create (k : Linux) (d : List Name) (a : Name) (isDir : Bool) (mode : Nat) : Linux :=
  { k with
    fs := k.fs.insert d a (if isDir then .dir k.nextIno else .file k.nextIno)
    inode := Function.update k.inode k.nextIno
      ⟨isDir, Fin.ofNat 4096 (mode &&& 0o777), 0, 0, k.now, k.now, fun _ => 0⟩
    nextIno := k.nextIno + 1
    reached := k.reached ++ [d ++ [a]] }

def Linux.mkdir (k : Linux) (path : Bytes) (mode : Nat) : Int × Linux :=
  match k.walkPath false (removeTrailingSlashes path) with
  | .found _ => (-EEXIST, k)
  | .missing d a =>
    if validName a then (0, k.create d a true mode)
    else (-ENAMETOOLONG, k)
  | .fail e => (-e.errno, k)

def Linux.install (k : Linux) (p : List Name) (n : FsNode) (flags : Nat) : Int × Linux :=
  (k.nextFd,
    { k with
      fds := Function.update k.fds k.nextFd (some ⟨n.ino, flags, 0⟩)
      nextFd := k.nextFd + 1
      reached := k.reached ++ [p] })

/-- A directory is opened for reading only, and never by a creating open. -/
def Linux.open (k : Linux) (path : Bytes) (flags mode : Nat) : Int × Linux :=
  let creat := flags &&& O_CREAT ≠ 0
  if creat ∧ path.getLast? = some slash then (-EISDIR, k)
  else match k.walkPath true path with
  | .found p => match k.fs.node p with
    | none => (-ENOENT, k)
    | some n =>
      if n.entry = .dir ∧ (creat ∨ flags &&& 3 ≠ O_RDONLY) then (-EISDIR, k)
      else k.install p n flags
  | .missing d a =>
    if !creat then (-ENOENT, k)
    else if validName a then
      (k.create d a false mode).install (d ++ [a])
        (.file k.nextIno) flags
    else (-ENAMETOOLONG, k)
  | .fail e => (-e.errno, k)

def Linux.fd (k : Linux) (fd : Int) : Option OpenFile :=
  if fd < 0 then none else k.fds fd.toNat

def Linux.setFd (k : Linux) (fd : Int) (f : Option OpenFile) : Linux :=
  { k with fds := Function.update k.fds fd.toNat f }

def Linux.setInode (k : Linux) (ino : Nat) (i : Inode) : Linux :=
  { k with inode := Function.update k.inode ino i }

@[simp] theorem Linux.inode_setInode_self (k : Linux) (ino : Nat) (i : Inode) :
    (k.setInode ino i).inode ino = i := Function.update_self _ _ _

theorem Linux.inode_setInode_of_ne (k : Linux) {ino ino' : Nat} (i : Inode) (h : ino' ≠ ino) :
    (k.setInode ino i).inode ino' = k.inode ino' := Function.update_of_ne h _ _

def Linux.close (k : Linux) (fd : Int) : Int × Linux :=
  match k.fd fd with
  | none => (-EBADF, k)
  | some _ => (0, k.setFd fd none)

def Linux.fstat (k : Linux) (fd : Int) : Int × Stat :=
  match k.fd fd with
  | none => (-EBADF, default)
  | some f => (0, (k.inode f.ino).stat)

def Linux.lstat (k : Linux) (path : Bytes) : Int × Stat :=
  match k.lookup false path with
  | .error rc => (rc, default)
  | .ok (.link ino target) =>
    (0, { (k.inode ino).stat with mode := S_IFLNK ||| 0o777, size := target.length })
  | .ok n => (0, (k.inode n.ino).stat)

/-- The result is cut off at the size of the buffer. -/
def Linux.readlink (k : Linux) (path : Bytes) (size : Nat) : Except Int Bytes :=
  match k.lookup false path with
  | .error rc => .error rc
  | .ok (.link _ target) => .ok (target.take size)
  | .ok _ => .error (-EINVAL)

def Linux.utime (k : Linux) (path : Option Bytes) (actime modtime : Nat) : Int × Linux :=
  match path with
  | none => (-EFAULT, k)
  | some path => match k.lookup true path with
    | .error rc => (rc, k)
    | .ok n => (0, k.setInode n.ino { k.inode n.ino with atime := actime, mtime := modtime })

/-- Only the permission bits change. -/
def Linux.chmod (k : Linux) (path : Bytes) (mode : Nat) : Int × Linux :=
  match k.lookup true path with
  | .error rc => (rc, k)
  | .ok n =>
    (0, k.setInode n.ino { k.inode n.ino with perm := Fin.ofNat 4096 mode })

/-- What is gained is zero, and the time of the change is recorded. -/
def Linux.ftruncate (k : Linux) (fd : Int) (len : Nat) : Int × Linux :=
  match k.fd fd with
  | none => (-EBADF, k)
  | some f =>
    let i := k.inode f.ino
    if i.isDir ∨ f.flags &&& 3 = O_RDONLY then (-EINVAL, k)
    else (0, k.setInode f.ino
      { i with
        size := len
        mtime := k.now
        content := fun n => if n < len then i.content n else 0 })

def Linux.unlink (k : Linux) (path : Bytes) : Int × Linux :=
  match k.walkPath false path with
  | .found p =>
    if k.fs.tree.isDir p then (-EISDIR, k) else (0, { k with fs := k.fs.remove p })
  | .missing _ _ => (-ENOENT, k)
  | .fail e => (-e.errno, k)

/-- What is read is bounded by the size of the file. -/
def Linux.read (k : Linux) (fd : Int) (len : Nat) : Except Int Bytes × Linux :=
  match k.fd fd with
  | none => (.error (-EBADF), k)
  | some f =>
    let i := k.inode f.ino
    if i.isDir then (.error (-EISDIR), k)
    else
      let n := min len (i.size - f.pos)
      (.ok ((List.range n).map fun j => i.content (f.pos + j)),
        k.setFd fd (some { f with pos := f.pos + n }))

def Linux.write (k : Linux) (fd : Int) (data : Bytes) : Int × Linux :=
  match k.fd fd with
  | none => (-EBADF, k)
  | some f =>
    if f.flags &&& 3 = O_RDONLY then (-EBADF, k)
    else
      let i := k.inode f.ino
      (data.length,
        (k.setInode f.ino
          { i with
            size := max i.size (f.pos + data.length)
            mtime := k.now
            content := fun n =>
              if f.pos ≤ n ∧ n < f.pos + data.length then data.getD (n - f.pos) 0
              else i.content n }).setFd fd (some { f with pos := f.pos + data.length }))

def Linux.lseek (k : Linux) (fd off : Int) (whence : Nat) : Int × Linux :=
  match k.fd fd with
  | none => (-EBADF, k)
  | some f =>
    let base := if whence = SEEK_SET then 0 else if whence = SEEK_CUR then f.pos
      else (k.inode f.ino).size
    let pos := base + off
    if pos < 0 then (-EINVAL, k)
    else (pos, k.setFd fd (some { f with pos := pos.toNat }))

def Linux.alloc (k : Linux) : Option Ptr × Linux :=
  (some k.nextPtr, { k with nextPtr := k.nextPtr + 1 })

/-- Transfers are whole, also that of no bytes, which extends a file up to the position. Directory
streams, the figures of a volume and `openat` are left to other environments: here they fail. -/
def Linux.handle : Handler Call Call.Ans Linux
  | .allocatePool _, k => k.alloc
  | .reallocatePool _ _ _, k => k.alloc
  | .freePool _, k => ((), k)
  | .touch _ _ _ _, k => ((), k)
  | .sysLstat path, k => (k.lstat path, k)
  | .sysReadlink path size, k => (k.readlink path size, k)
  | .sysMkdir path mode, k => k.mkdir path mode
  | .sysOpen path flags mode, k => k.open path flags mode
  | .sysOpenat _ _ _ _, k => (-EBADF, k)
  | .sysClose fd, k => k.close fd
  | .sysFstat fd, k => (k.fstat fd, k)
  | .sysRead fd len, k => k.read fd len
  | .sysWrite fd data, k => k.write fd data
  | .sysLseek fd off whence, k => k.lseek fd off whence
  | .sysFsync _, k => (0, k)
  | .sysFtruncate fd len, k => k.ftruncate fd len
  | .sysUtime path actime modtime, k => k.utime path actime modtime
  | .sysChmod path mode, k => k.chmod path mode
  | .sysUnlink path, k => k.unlink path
  | .sysStatfs _, k => ((-ENOSYS, default), k)
  | .fdopendir _, k => ((none, -EBADF), k)
  | .readdir _, k => (none, k)
  | .errdir _, k => (-EBADF, k)
  | .rewinddir _, k => ((), k)

section Runs

variable {α : Type} {k : Linux}

theorem Linux.run_allocatePool {size : Nat} {f : Option Ptr → Lkl α} :
    (allocatePool size >>= f).run Linux.handle k =
      (f (some k.nextPtr)).run Linux.handle k.alloc.2 := rfl

theorem Linux.run_touch {b : Buffer} {o : Int} {n m : Nat} {f : Unit → Lkl α} :
    (touch b o n m >>= f).run Linux.handle k = (f ()).run Linux.handle k := rfl

theorem Linux.run_fstat {fd : Int} {f : Int × Stat → Lkl α} :
    (lklSysFstat fd >>= f).run Linux.handle k = (f (k.fstat fd)).run Linux.handle k := rfl

theorem Linux.run_open {path : Bytes} {flags mode : Nat} {f : Int → Lkl α} :
    (lklSysOpen path flags mode >>= f).run Linux.handle k =
      (f (k.open path flags mode).1).run Linux.handle (k.open path flags mode).2 := rfl

theorem Linux.run_mkdir {path : Bytes} {mode : Nat} {f : Int → Lkl α} :
    (lklSysMkdir path mode >>= f).run Linux.handle k =
      (f (k.mkdir path mode).1).run Linux.handle (k.mkdir path mode).2 := rfl

theorem Linux.run_chmod {path : Bytes} {mode : Nat} {f : Int → Lkl α} :
    (lklSysChmod path mode >>= f).run Linux.handle k =
      (f (k.chmod path mode).1).run Linux.handle (k.chmod path mode).2 := rfl

theorem Linux.run_ftruncate {fd : Int} {len : Nat} {f : Int → Lkl α} :
    (lklSysFtruncate fd len >>= f).run Linux.handle k =
      (f (k.ftruncate fd len).1).run Linux.handle (k.ftruncate fd len).2 := rfl

end Runs

/-- Every call may also fail and then does nothing. -/
def Linux.faulty : Env Call Call.Ans Linux where
  may k c x k' := (x, k') = Linux.handle c k ∨
    (Call.failed c x = true ∧ k' = { k with faulted := true })

/-- The state without what the pool allocator and a failure change. -/
def Linux.core (k : Linux) : Linux := { k with nextPtr := 0, faulted := false }

@[simp] theorem Linux.core_faulted (k : Linux) (b : Bool) :
    Linux.core { k with faulted := b } = k.core := rfl

@[simp] theorem Linux.core_alloc (k : Linux) : k.alloc.2.core = k.core := rfl

theorem Linux.fs_eq_of_core {k k' : Linux} (h : k'.core = k.core) : k'.fs = k.fs :=
  show k'.core.fs = k.core.fs from congrArg Linux.fs h

section Rules

variable {α : Type} {Q : α → Linux → Prop} {k : Linux}

theorem Linux.always_ask {c : Call} {f : c.Ans → Lkl α} :
    Linux.faulty.Always (Prog.ask c >>= f) Q k ↔
      Linux.faulty.Always (f (Linux.handle c k).1) Q (Linux.handle c k).2 ∧
      ∀ x, Call.failed c x = true → Linux.faulty.Always (f x) Q { k with faulted := true } := by
  constructor
  · intro h
    exact ⟨h _ _ (.inl rfl), fun x hx => h x _ (.inr ⟨hx, rfl⟩)⟩
  · rintro ⟨hok, hfault⟩ x k' (hx | ⟨hx, rfl⟩)
    · rw [← hx] at hok
      exact hok
    · exact hfault x hx

theorem Linux.always_run {p : Lkl α} (h : Linux.faulty.Always p Q k) :
    Q (p.run Linux.handle k).1 (p.run Linux.handle k).2 :=
  h.run fun _ _ => Or.inl rfl

@[simp] theorem Linux.always_touch {b : Buffer} {o : Int} {n m : Nat} {f : Unit → Lkl α} :
    Linux.faulty.Always (touch b o n m >>= f) Q k ↔ Linux.faulty.Always (f ()) Q k :=
  Linux.always_ask.trans (and_iff_left fun _ hx => Bool.noConfusion hx)

@[simp] theorem Linux.always_freePool {p : Ptr} {f : Unit → Lkl α} :
    Linux.faulty.Always (freePool p >>= f) Q k ↔ Linux.faulty.Always (f ()) Q k :=
  Linux.always_ask.trans (and_iff_left fun _ hx => Bool.noConfusion hx)

theorem Linux.always_allocatePool {n : Nat} {f : Option Ptr → Lkl α}
    (hok : Linux.faulty.Always (f (some k.nextPtr)) Q k.alloc.2)
    (hfault : Linux.faulty.Always (f none) Q { k with faulted := true }) :
    Linux.faulty.Always (allocatePool n >>= f) Q k :=
  Linux.always_ask.mpr ⟨hok, fun _ hx => Option.isNone_iff_eq_none.mp hx ▸ hfault⟩

theorem Linux.always_reallocatePool {n m : Nat} {p : Ptr} {f : Option Ptr → Lkl α}
    (hok : Linux.faulty.Always (f (some k.nextPtr)) Q k.alloc.2)
    (hfault : Linux.faulty.Always (f none) Q { k with faulted := true }) :
    Linux.faulty.Always (reallocatePool n m p >>= f) Q k :=
  Linux.always_ask.mpr ⟨hok, fun _ hx => Option.isNone_iff_eq_none.mp hx ▸ hfault⟩

theorem Linux.always_lstat {path : Bytes} {f : Int × Stat → Lkl α}
    (hok : Linux.faulty.Always (f (k.lstat path)) Q k)
    (hfault : ∀ x : Int × Stat, x.1 < 0 →
      Linux.faulty.Always (f x) Q { k with faulted := true }) :
    Linux.faulty.Always (lklSysLstat path >>= f) Q k :=
  Linux.always_ask.mpr ⟨hok, fun x hx => hfault x (of_decide_eq_true hx)⟩

theorem Linux.always_mkdir {path : Bytes} {mode : Nat} {f : Int → Lkl α}
    (hok : Linux.faulty.Always (f (k.mkdir path mode).1) Q (k.mkdir path mode).2)
    (hfault : ∀ rc, rc < 0 → Linux.faulty.Always (f rc) Q { k with faulted := true }) :
    Linux.faulty.Always (lklSysMkdir path mode >>= f) Q k :=
  Linux.always_ask.mpr ⟨hok, fun rc hrc => hfault rc (of_decide_eq_true hrc)⟩

theorem Linux.always_open {path : Bytes} {flags mode : Nat} {f : Int → Lkl α}
    (hok : Linux.faulty.Always (f (k.open path flags mode).1) Q (k.open path flags mode).2)
    (hfault : ∀ fd, fd < 0 → Linux.faulty.Always (f fd) Q { k with faulted := true }) :
    Linux.faulty.Always (lklSysOpen path flags mode >>= f) Q k :=
  Linux.always_ask.mpr ⟨hok, fun fd hfd => hfault fd (of_decide_eq_true hfd)⟩

theorem Linux.always_readlink {path : Bytes} {size : Nat} {f : Except Int Bytes → Lkl α}
    (hok : Linux.faulty.Always (f (k.readlink path size)) Q k)
    (hfault : ∀ rc, Linux.faulty.Always (f (.error rc)) Q { k with faulted := true }) :
    Linux.faulty.Always (lklSysReadlink path size >>= f) Q k := by
  refine Linux.always_ask.mpr ⟨hok, fun x hx => ?_⟩
  cases x with
  | error rc => exact hfault rc
  | ok b => exact Bool.noConfusion hx

end Rules

theorem FsTree.canonical_names (F : FsTree) {p : List Name} (h : F.tree.Canonical p) :
    ∀ a ∈ p, validName a = true := by
  obtain ⟨e, he, _⟩ := h.object
  exact fun a ha => F.validName_of_mem (by aesop) ha

theorem slash_of_validName {a : Name} (h : validName a = true) : slash ∉ a := by
  simp_all [validName]

theorem ne_nil_of_validName {a : Name} (h : validName a = true) : a ≠ [] := by
  rintro rfl
  revert h
  decide

theorem Linux.walkPath_snoc (k : Linux) {p : List Name} {c : Name}
    (hp : k.fs.tree.Canonical p) (hc : PathName.kind c = .name) (hs : slash ∉ c)
    (hl : (joined (p ++ [c])).length < 4096) :
    k.walkPath false (joined (p ++ [c])) =
      if k.fs.tree.isDir p = false then .fail .notDir
      else if k.fs.node (p ++ [c]) = none then .missing p c
      else .found (p ++ [c]) := by
  have hcomp : components (joined (p ++ [c])) = [] :: (p ++ [c]) := by
    refine components_joined fun a ha => ?_
    rcases List.mem_append.mp ha with ha | ha
    · exact slash_of_validName (k.fs.canonical_names hp a ha)
    · rwa [List.mem_singleton.mp ha]
  have hne : joined (p ++ [c]) ≠ [] := by simp
  have hroot := (k.fs.tree.isDir_iff []).mpr k.fs.tree.root
  rw [Linux.walkPath, if_neg hne, if_neg (Nat.not_le.mpr hl), hcomp,
    walk_here (fun _ => hroot) rfl, walk_canonical [c] hp (fun _ _ _ => rfl)]
  by_cases hd : k.fs.tree.isDir p = false
  · rw [if_pos hd, walk_notDir rfl hd]
  · rw [if_neg hd, walk_name (fun _ => by simpa using hd) hc]
    cases hn : k.fs.node (p ++ [c]) with
    | none => simp [hn, Limits.unlimited]
    | some n => cases n <;> simp [hn, Limits.unlimited, FsNode.entry]

theorem Linux.lookup_snoc (k : Linux) {p : List Name} {c : Name}
    (hp : k.fs.tree.Canonical p) (hc : PathName.kind c = .name) (hs : slash ∉ c)
    (hl : (joined (p ++ [c])).length < 4096) (n : FsNode) :
    k.lookup false (joined (p ++ [c])) = .ok n ↔ k.fs.node (p ++ [c]) = some n := by
  rw [Linux.lookup, k.walkPath_snoc hp hc hs hl]
  by_cases hd : k.fs.tree.isDir p = false
  · rw [if_pos hd]
    constructor
    · intro h
      cases h
    · intro h
      have := (k.fs.tree.isDir_iff p).mpr (k.fs.parent p c (by simp [h]))
      simp [hd] at this
  · rw [if_neg hd]
    cases hn : k.fs.node (p ++ [c]) <;> simp [hn]

theorem Linux.lookup_error_neg {k : Linux} {f : Bool} {path : Bytes} {rc : Int}
    (h : k.lookup f path = .error rc) : rc < 0 := by
  unfold Linux.lookup at h
  split at h
  · split at h <;> cases h
    decide
  · cases h
    decide
  · cases h
    rename_i e _
    cases e <;> decide

section Lookups

variable {k : Linux} {p : List Name} {c : Name}

theorem Linux.lstat_fails {path : Bytes} (h : ∀ n, k.lookup false path ≠ .ok n) :
    (k.lstat path).1 < 0 := by
  unfold Linux.lstat
  cases hl : k.lookup false path with
  | error rc => exact lookup_error_neg hl
  | ok n => exact absurd hl (h n)

theorem Linux.lstat_snoc_none (hp : k.fs.tree.Canonical p) (hc : PathName.kind c = .name)
    (hs : slash ∉ c)
    (h : (joined (p ++ [c])).length < 4096 → k.fs.node (p ++ [c]) = none) :
    (k.lstat (joined (p ++ [c]))).1 < 0 := by
  refine lstat_fails fun n hn => ?_
  by_cases hl : (joined (p ++ [c])).length < 4096
  · rw [k.lookup_snoc hp hc hs hl, h hl] at hn
    cases hn
  · have hne : joined (p ++ [c]) ≠ [] := by simp
    rw [Linux.lookup, Linux.walkPath, if_neg hne, if_pos (Nat.not_lt.mp hl)] at hn
    cases hn

theorem Linux.lstat_snoc_link (hp : k.fs.tree.Canonical p) (hc : PathName.kind c = .name)
    (hs : slash ∉ c) (hl : (joined (p ++ [c])).length < 4096) {i : Nat} {target : Bytes}
    (h : k.fs.node (p ++ [c]) = some (.link i target)) :
    (k.lstat (joined (p ++ [c]))).1 = 0 ∧ isLnk (k.lstat (joined (p ++ [c]))).2.mode = true ∧
      ∀ size, k.readlink (joined (p ++ [c])) size = .ok (target.take size) := by
  have hn := (k.lookup_snoc hp hc hs hl _).mpr h
  simp only [Linux.lstat, Linux.readlink, hn, true_and, implies_true, and_true]
  decide

theorem Linux.lstat_snoc_object (hp : k.fs.tree.Canonical p) (hc : PathName.kind c = .name)
    (hs : slash ∉ c) (hl : (joined (p ++ [c])).length < 4096) {n : FsNode}
    (h : k.fs.node (p ++ [c]) = some n) (hlink : n.entry.isLink = false) :
    (k.lstat (joined (p ++ [c]))).1 = 0 ∧ isLnk (k.lstat (joined (p ++ [c]))).2.mode = false := by
  have hn := (k.lookup_snoc hp hc hs hl _).mpr h
  cases n with
  | link i target => cases hlink
  | dir i =>
    rw [Linux.lstat, hn]
    exact ⟨rfl, (k.inode i).isLnk_mode⟩
  | file i =>
    rw [Linux.lstat, hn]
    exact ⟨rfl, (k.inode i).isLnk_mode⟩

end Lookups

end UefiLkl
