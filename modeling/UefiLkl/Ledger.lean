import Mathlib.Data.Multiset.AddSub
import UefiLkl.Volume
set_option autoImplicit false

/-!
What the driver holds: an account of the calls that take something and of those that give
it back.
-/

namespace UefiLkl
open Interaction

inductive Resource where
  | lock
  | pool (ptr : Nat)
  | file (file : Nat)
  | diskIo (c : Controller) (two : Bool)
  | fd (fd : Int)
  | disk (id : Int)
  | node (path : Bytes)
  | dmDevice (name : Bytes)
  | mount (dir : Bytes)
  | fileSystem (c : Option Controller)
  deriving DecidableEq

def taken : DriverEvent → Option Resource
  | ⟨.acquireLock, status⟩ => if status.isError then none else some .lock
  | ⟨.allocatePool _, ptr⟩ => ptr.map .pool
  | ⟨.locateFileSystems, .ok (ptr, _)⟩ => some (.pool ptr)
  | ⟨.openRoot _, .ok file⟩ => some (.file file)
  | ⟨.fileOpen _ _, .ok file⟩ => some (.file file)
  | ⟨.openDiskIo c two, status⟩ => if status.isError then none else some (.diskIo c two)
  | ⟨.sysOpen _ _ _, fd⟩ => if 0 ≤ fd then some (.fd fd) else none
  | ⟨.diskAdd _ _, id⟩ => if 0 ≤ id then some (.disk id) else none
  | ⟨.sysMknod path _ _, rc⟩ => if 0 ≤ rc then some (.node path) else none
  | ⟨.dmDevCreate _ name, rc⟩ => if rc = 0 then some (.dmDevice name) else none
  | ⟨.sysMount _ dir _ _, rc⟩ => if 0 ≤ rc then some (.mount dir) else none
  | ⟨.mountDev _ _ _ _, (rc, dir)⟩ => if 0 ≤ rc then some (.mount dir) else none
  | ⟨.installFileSystem v, status⟩ => if status.isError then none else some (.fileSystem v.handle)
  | _ => none

/-- What a call is meant to give back, and whether it succeeds. -/
def givenBack : DriverEvent → Option (Resource × Bool)
  | ⟨.releaseLock, _⟩ => some (.lock, true)
  | ⟨.freePool ptr, _⟩ => some (.pool ptr, true)
  | ⟨.fileClose file, _⟩ => some (.file file, true)
  | ⟨.closeDiskIo c two, status⟩ => some (.diskIo c two, !status.isError)
  | ⟨.sysClose fd, _⟩ => if 0 ≤ fd then some (.fd fd, true) else none
  | ⟨.diskRemove _ id, rc⟩ => some (.disk id, 0 ≤ rc)
  | ⟨.sysUnlink path, rc⟩ => some (.node path, 0 ≤ rc)
  | ⟨.dmDevRemove _ name, rc⟩ => some (.dmDevice name, rc = 0)
  | ⟨.sysUmount dir, rc⟩ => some (.mount dir, 0 ≤ rc)
  | ⟨.uninstallFileSystem v, status⟩ => some (.fileSystem v.handle, !status.isError)
  | _ => none

/-- What is freed without asking whether it is held. -/
def Resource.unchecked : Resource → Bool
  | .pool _ | .file _ | .lock => true
  | _ => false

def heldAfter (held : Multiset Resource) (e : DriverEvent) : Multiset Resource :=
  match taken e with
  | some r => r ::ₘ held
  | none => match givenBack e with
    | some (r, true) => held.erase r
    | _ => held

/-- Frees memory, closes a file, or releases the lock, that is not held. -/
def strays (held : Multiset Resource) (e : DriverEvent) : Bool :=
  match givenBack e with
  | some (r, _) => r.unchecked ∧ r ∉ held
  | none => false

/-- Fails to give back what is held; `dm` tells that a device-mapper device was created, for
which the control file has to be opened first. -/
def fails (held : Multiset Resource) (dm : Bool) (e : DriverEvent) : Bool :=
  match givenBack e with
  | some (r, done) => !done ∧ r ∈ held
  | none => match e with
    | ⟨.sysOpen path flags _, fd⟩ => dm ∧ path = DEVMAPPER_CONTROL_FILE ∧ flags = O_RDWR ∧ fd < 0
    | _ => false

def dmNodePrefix : Bytes := asciiString "/dev/block/dm-"

def makesDmNode : DriverEvent → Bool
  | ⟨.sysMknod path _ _, rc⟩ => dmNodePrefix.isPrefixOf path ∧ 0 ≤ rc
  | _ => false

def opensFile : DriverEvent → Bool
  | ⟨.fileOpen _ _, .ok _⟩ => true
  | _ => false

def failsSize : DriverEvent → Bool
  | ⟨.fileGetSize _, .error _⟩ => true
  | _ => false

def failsAllocation : DriverEvent → Bool
  | ⟨.allocatePool _, none⟩ => true
  | _ => false

def findsFileSystem : DriverEvent → Bool
  | ⟨.testFileSystem _, status⟩ => !status.isError
  | _ => false

/-- What is held, and what happened on the way. -/
structure Account where
  held : Multiset Resource
  strayed : Bool
  dmMade : Bool
  stuck : Bool
  dmNode : Bool
  fileOpened : Bool
  sizeFailed : Bool
  allocationFailed : Bool
  fileSystemFound : Bool

def Account.after (g : Account) (e : DriverEvent) : Account where
  held := heldAfter g.held e
  strayed := strays g.held e || g.strayed
  dmMade := createsDevice e || g.dmMade
  stuck := fails g.held g.dmMade e || g.stuck
  dmNode := makesDmNode e || g.dmNode
  fileOpened := opensFile e || g.fileOpened
  sizeFailed := failsSize e || g.sizeFailed
  allocationFailed := failsAllocation e || g.allocationFailed
  fileSystemFound := findsFileSystem e || g.fileSystemFound

def Account.empty : Account := ⟨0, false, false, false, false, false, false, false, false⟩

def account (t : DriverTrace) : Account := t.foldl Account.after .empty

/-- `lkl_mount_dev` tells the directory that it mounted on, and what comes as an error is an
error. -/
def documented : DriverEvent → Bool
  | ⟨.mountDev _ _ _ _, (rc, dir)⟩ => 0 ≤ rc → dir ≠ []
  | ⟨.getBlockIo _, .error status⟩ => status.isError
  | ⟨.getFileSystem _, .error status⟩ => status.isError
  | ⟨.fileGetSize _, .error status⟩ => status.isError
  | ⟨.fileRead _ _, .error status⟩ => status.isError
  | _ => true

/-- The calls of the driver, with their account. -/
def accounting : Env DriverCall DriverCall.Ans Account :=
  Env.tracking Account.after fun e => documented e = true

section After

variable {g : Account} {e : DriverEvent} {r : Resource}

def marks (e : DriverEvent) : Bool :=
  createsDevice e || makesDmNode e || opensFile e || failsSize e || failsAllocation e ||
    findsFileSystem e

@[simp] theorem marks_sysMknod (path : Bytes) (mode dev : Nat) (rc : Int) :
    marks ⟨.sysMknod path mode dev, rc⟩ = makesDmNode ⟨.sysMknod path mode dev, rc⟩ := by
  simp [marks, createsDevice, opensFile, failsSize, failsAllocation, findsFileSystem]

@[simp] theorem marks_dmDevCreate (fd : Int) (name : Bytes) (rc : Int) :
    marks ⟨.dmDevCreate fd name, rc⟩ = createsDevice ⟨.dmDevCreate fd name, rc⟩ := by
  simp [marks, makesDmNode, opensFile, failsSize, failsAllocation, findsFileSystem]

@[simp] theorem marks_testFileSystem (c : Nat) (status : EfiStatus) :
    marks ⟨.testFileSystem c, status⟩ = findsFileSystem ⟨.testFileSystem c, status⟩ := by
  simp [marks, createsDevice, makesDmNode, opensFile, failsSize, failsAllocation]

theorem after_of_quiet (hmarks : marks e = false) (htaken : taken e = none)
    (hback : givenBack e = none) (hfails : fails g.held g.dmMade e = false) :
    g.after e = g := by
  simp only [marks, Bool.or_eq_false_iff] at hmarks
  simp [Account.after, heldAfter, strays, hmarks, htaken, hback, hfails]

theorem after_of_taken (hmarks : marks e = false) (htaken : taken e = some r)
    (hback : givenBack e = none) (hfails : fails g.held g.dmMade e = false) :
    g.after e = { g with held := r ::ₘ g.held } := by
  simp only [marks, Bool.or_eq_false_iff] at hmarks
  simp [Account.after, heldAfter, strays, hmarks, htaken, hback, hfails]

theorem after_of_givenBack (hmarks : marks e = false) (htaken : taken e = none)
    (hback : givenBack e = some (r, true)) (hr : r.unchecked = true → r ∈ g.held) :
    g.after e = { g with held := g.held.erase r } := by
  simp only [marks, Bool.or_eq_false_iff] at hmarks
  have hstray : (r.unchecked && !decide (r ∈ g.held)) = false := by
    cases h : r.unchecked with
    | false => rfl
    | true => simp [hr h]
  simp [Account.after, heldAfter, strays, fails, hmarks, htaken, hback, hstray]

theorem after_of_refused (hmarks : marks e = false) (htaken : taken e = none)
    (hback : givenBack e = some (r, false)) (hr : r.unchecked = false) :
    g.after e = { g with stuck := decide (r ∈ g.held) || g.stuck } := by
  simp only [marks, Bool.or_eq_false_iff] at hmarks
  simp [Account.after, heldAfter, strays, fails, hmarks, htaken, hback, hr]

end After

theorem fails_sysOpen {g : Account} {path : Bytes} {flags mode : Nat} {fd : Int}
    (h : flags ≠ O_RDWR ∨ g.dmMade = false ∨ 0 ≤ fd) :
    fails g.held g.dmMade ⟨.sysOpen path flags mode, fd⟩ = false := by
  have hfd : 0 ≤ fd → ¬ fd < 0 := by omega
  rcases h with h | h | h <;> simp [fails, givenBack, h]

theorem after_sysOpen {g : Account} {path : Bytes} {flags mode : Nat} {fd : Int}
    (h : 0 ≤ fd) :
    g.after ⟨.sysOpen path flags mode, fd⟩ = { g with held := .fd fd ::ₘ g.held } :=
  after_of_taken rfl (if_pos h) rfl (fails_sysOpen (.inr (.inr h)))

theorem after_sysOpen_of_neg {g : Account} {path : Bytes} {flags mode : Nat} {fd : Int}
    (h : fd < 0) (hopen : flags ≠ O_RDWR ∨ g.dmMade = false) :
    g.after ⟨.sysOpen path flags mode, fd⟩ = g := by
  have hfd : ¬ 0 ≤ fd := by omega
  exact after_of_quiet rfl (if_neg hfd) rfl (fails_sysOpen (hopen.imp_right .inl))

theorem after_sysClose {g : Account} {fd rc : Int} (h : 0 ≤ fd) :
    g.after ⟨.sysClose fd, rc⟩ = { g with held := g.held.erase (.fd fd) } :=
  after_of_givenBack rfl rfl (if_pos h) (fun hr => by cases hr)

theorem after_sysClose_of_neg {g : Account} {fd rc : Int} (h : fd < 0) :
    g.after ⟨.sysClose fd, rc⟩ = g := by
  have hback : givenBack ⟨.sysClose fd, rc⟩ = none := if_neg (by omega)
  exact after_of_quiet rfl rfl hback (by simp [fails, hback])

end UefiLkl
