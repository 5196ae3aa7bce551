import Mathlib.Algebra.Group.Nat.Defs
import UefiLkl.Driver
set_option autoImplicit false

/-!
Setting up the device-mapper device of an encrypted volume.
-/

namespace UefiLkl
open Interaction

def TABLE_LOAD_RETRIES : Nat := 10
def DEVMAPPER_CONTROL_FILE : Bytes := asciiString "/dev/device-mapper"

def S_IFBLK : Nat := 0o060000
def O_CLOEXEC : Nat := 0o2000000

/-- `struct crypt_mnt_ftr`; its flags are never read. -/
structure CryptMntFtr where
  keysize : Nat
  fsSize : Nat
  cryptoTypeName : Bytes
  deriving DecidableEq, Repr

/-- The count fits the return type only below 2³² sectors. -/
def getBlkdevSize (fd : Int) : Firmware Nat := do
  let (rc, nrSec) ← Prog.ask (DriverCall.blkGetSize fd)
  if rc = -1 then pure 0 else pure (nrSec % 2 ^ 32)

/-- What `ioctl_init` copies of the name. -/
def dmName (name : Bytes) : Bytes := name.take 128

def keyNibble (n : Nat) : UInt8 := (if n > 9 then 0x37 + n else 0x30 + n).toUInt8

def convertKeyToHexAscii (masterKey : Bytes) (keysize : Nat) : Bytes :=
  (masterKey.take keysize).flatMap fun (b : UInt8) =>
    [keyNibble ((b >>> 4) &&& 0xf).toNat, keyNibble (b &&& 0xf).toNat]

def blank : UInt8 := 0x20

/-- `sizeof (struct lkl_dm_ioctl)` and `sizeof (struct lkl_dm_target_spec)` -/
def dmIoctlSize : Nat := 312
def dmTargetSpecSize : Nat := 40

/-- The table in a buffer at address `buffer`. -/
def cryptTarget (buffer : Nat) (ftr : CryptMntFtr) (masterKey realBlkName extraParams : Bytes) :
    DmTarget :=
  let params := ftr.cryptoTypeName ++ blank :: convertKeyToHexAscii masterKey ftr.keysize ++
    asciiString " 0 " ++ realBlkName ++ asciiString " 0 " ++ extraParams
  let behind := buffer + dmIoctlSize + dmTargetSpecSize + params.length + 1 + 7
  { sectorStart := 0
    length := ftr.fsSize
    targetType := asciiString "crypt"
    params
    next := behind - (behind &&& 8) - buffer }

/-- The number of the try that succeeded, the first one being `i + 1`. -/
def tableLoadLoop (fd : Int) (name : Bytes) (target : DmTarget) : Nat → Nat → Firmware Int
  | 0, _ => pure (-1)
  | tries+1, i => do
    let rc ← Prog.ask (DriverCall.dmTableLoad fd name target)
    if rc = 0 then pure (i + 1 : Nat) else tableLoadLoop fd name target tries (i + 1)

def loadCryptoMappingTable (buffer : Nat) (ftr : CryptMntFtr)
    (masterKey realBlkName name : Bytes) (fd : Int) (extraParams : Bytes) : Firmware Int :=
  tableLoadLoop fd (dmName name) (cryptTarget buffer ftr masterKey realBlkName extraParams)
    TABLE_LOAD_RETRIES 0

def dmMinor (dev : Nat) : Nat := (dev &&& 0xff) ||| ((dev >>> 12) &&& 0xfff00)

def cryptoBlkName (dev : Nat) : Bytes := asciiString "/dev/block/dm-" ++ decimal (dmMinor dev)

/-- With the control file open: the variable `retval` at the label `errout`, and the name
of the node. -/
def createCryptoBlkDevOpen (buffer : Nat) (ftr : CryptMntFtr)
    (masterKey realBlkName name : Bytes) (fd : Int) : Firmware (Int × Bytes) := do
  let rc ← Prog.ask (DriverCall.dmDevCreate fd (dmName name))
  if rc ≠ 0 then pure (-1, [])
  else
    let (rc, dev) ← Prog.ask (DriverCall.dmDevStatus fd (dmName name))
    if rc ≠ 0 then pure (-1, [])
    else
      let node := cryptoBlkName dev
      let retval ← Prog.ask (DriverCall.sysMknod node (S_IFBLK ||| 0o600) dev)
      if retval ≠ 0 ∧ retval ≠ -EEXIST then pure (retval, node)
      else
        let loadCount ← loadCryptoMappingTable buffer ftr masterKey realBlkName name fd []
        if loadCount < 0 then pure (retval, node)
        else
          let rc ← Prog.ask (DriverCall.dmDevSuspend fd (dmName name))
          if rc ≠ 0 then pure (retval, node) else pure (0, node)

def createCryptoBlkDev (buffer : Nat) (ftr : CryptMntFtr) (masterKey realBlkName name : Bytes) :
    Firmware (Int × Bytes) := do
  let fd ← Prog.ask (DriverCall.sysOpen DEVMAPPER_CONTROL_FILE O_RDWR 0)
  let r ← (if fd < 0 then pure (-1, [])
    else createCryptoBlkDevOpen buffer ftr masterKey realBlkName name fd)
  let _ ← Prog.ask (DriverCall.sysClose fd)
  pure r

/-- The return value, and the name of the node as far as it was written. -/
def cryptfsSetupExtVolume (buffer : Nat) (label realBlkdev key : Bytes) (keysize : Nat) :
    Firmware (Int × Bytes) := do
  let fd ← Prog.ask (DriverCall.sysOpen realBlkdev (O_RDONLY ||| O_CLOEXEC) 0)
  if fd = -1 then pure (-1, [])
  else
    let nrSec ← getBlkdevSize fd
    let _ ← Prog.ask (DriverCall.sysClose fd)
    if nrSec = 0 then pure (-1, [])
    else
      createCryptoBlkDev buffer ⟨keysize, nrSec, asciiString "aes-cbc-essiv:sha256"⟩ key realBlkdev
        label

def deleteCryptoBlkDev (name : Bytes) : Firmware Int := do
  let fd ← Prog.ask (DriverCall.sysOpen DEVMAPPER_CONTROL_FILE O_RDWR 0)
  let retval ← (if fd < 0 then pure (-1)
    else do
      let rc ← Prog.ask (DriverCall.dmDevRemove fd (dmName name))
      pure (if rc ≠ 0 then -1 else 0))
  let _ ← Prog.ask (DriverCall.sysClose fd)
  pure retval

def cryptfsRevertExtVolume (label : Bytes) : Firmware Int := deleteCryptoBlkDev label

abbrev DriverTrace := List (Event DriverCall DriverCall.Ans)

abbrev DriverEvent := Event DriverCall DriverCall.Ans

def opens (path : Bytes) (flags : Nat) : DriverEvent → Bool
  | ⟨.sysOpen p f _, fd⟩ => p = path ∧ f = flags ∧ 0 ≤ fd
  | _ => false

def sectorCount : DriverEvent → Option Nat
  | ⟨.blkGetSize _, (rc, n)⟩ => if rc = 0 then some n else none
  | _ => none

def createsDevice : DriverEvent → Bool
  | ⟨.dmDevCreate _ _, rc⟩ => rc = 0
  | _ => false

def readsStatus : DriverEvent → Bool
  | ⟨.dmDevStatus _ _, (rc, _)⟩ => rc = 0
  | _ => false

def makesNode : DriverEvent → Bool
  | ⟨.sysMknod _ _ _, rc⟩ => rc = 0
  | _ => false

def findsNode : DriverEvent → Bool
  | ⟨.sysMknod _ _ _, rc⟩ => rc = 0 ∨ rc = -EEXIST
  | _ => false

def loadsTable (length : Nat) : DriverEvent → Bool
  | ⟨.dmTableLoad _ _ target, rc⟩ => target.length = length ∧ rc = 0
  | _ => false

def loadsAny : DriverEvent → Bool
  | ⟨.dmTableLoad _ _ _, rc⟩ => rc = 0
  | _ => false

def resumes : DriverEvent → Bool
  | ⟨.dmDevSuspend _ _, rc⟩ => rc = 0
  | _ => false

/-- Every step of the set-up of the device over `realBlkdev` succeeded. -/
def SetUp (realBlkdev : Bytes) (t : DriverTrace) : Prop :=
  t.any (opens realBlkdev (O_RDONLY ||| O_CLOEXEC)) ∧
    ∃ n, t.findSome? sectorCount = some n ∧ n ≠ 0 ∧ t.any createsDevice ∧ t.any readsStatus ∧
      t.any findsNode ∧ t.any (loadsTable n) ∧ t.any resumes

/-- `lkl_sys_mknod` returns zero or a negative error number. -/
def conventional : DriverEvent → Bool
  | ⟨.sysMknod _ _ _, rc⟩ => rc ≤ 0
  | _ => true

/-- Once the node is made nothing fails any more; and when the device is resumed, its
size is known. -/
def SetUpTold (realBlkdev : Bytes) (t : DriverTrace) : Prop :=
  (t.any makesNode → t.any loadsAny ∧ t.any resumes) ∧
    (t.any resumes → t.any (opens realBlkdev (O_RDONLY ||| O_CLOEXEC)) ∧
      ∃ n < 2 ^ 32, t.findSome? sectorCount = some n)

def tableLoads (fd : Int) (name : Bytes) (target : DmTarget) (rcs : List Int) : DriverTrace :=
  rcs.map fun rc => ⟨.dmTableLoad fd name target, rc⟩

theorem tableLoadLoop_exec {fd : Int} {name : Bytes} {target : DmTarget} {tries i : Nat}
    {u : DriverTrace} {r : Int} (h : (tableLoadLoop fd name target tries i).Exec u r) :
    ∃ rcs : List Int, u = tableLoads fd name target rcs ∧
      (0 ≤ r ↔ 0 ∈ rcs) := by
  induction tries generalizing i u with
  | zero =>
    obtain ⟨rfl, rfl⟩ := Prog.exec_ret_iff.mp h
    exact ⟨[], rfl, by simp⟩
  | succ tries ih =>
    obtain ⟨rc, v, rfl, h'⟩ := Prog.exec_ask_bind_iff.mp h
    by_cases hrc : rc = 0
    · rw [if_pos hrc] at h'
      obtain ⟨rfl, rfl⟩ := Prog.exec_ret_iff.mp h'
      refine ⟨[rc], rfl, ?_⟩
      simp [hrc]
      omega
    · rw [if_neg hrc] at h'
      obtain ⟨rcs, rfl, hiff⟩ := ih h'
      refine ⟨rc :: rcs, rfl, ?_⟩
      rw [hiff]
      simp [Ne.symm hrc]

/-- What is known of a set-up from the open control file on. -/
structure Created (fsSize : Nat) (u : DriverTrace) (r : Int) : Prop where
  success : 0 ≤ r ↔ u.any makesNode = true ∨ u.any resumes = true
  steps : u.any resumes = true → u.any createsDevice = true ∧ u.any readsStatus = true ∧
    u.any findsNode = true ∧ u.any (loadsTable fsSize) = true ∧ u.any loadsAny = true
  table : ∀ n, u.any (loadsTable n) = true → n = fsSize
  opens : ∀ path, u.any (opens path (O_RDONLY ||| O_CLOEXEC)) = false
  count : u.findSome? sectorCount = none

theorem created_of_no_table {fsSize : Nat} {u : DriverTrace} {r : Int} (hr : r < 0)
    (hnode : u.any makesNode = false) (hresume : u.any resumes = false)
    (htable : ∀ n, u.any (loadsTable n) = false)
    (hopen : ∀ path, u.any (opens path (O_RDONLY ||| O_CLOEXEC)) = false)
    (hcount : u.findSome? sectorCount = none) : Created fsSize u r where
  success := by simp [hnode, hresume, hr]
  steps := by simp [hresume]
  table := by simp [htable]
  opens := hopen
  count := hcount

section TableLoads

variable {fd : Int} {name : Bytes} {target : DmTarget} {rcs : List Int}

theorem tableLoads_any_false {p : DriverEvent → Bool}
    (hp : ∀ rc, p ⟨.dmTableLoad fd name target, rc⟩ = false) :
    (tableLoads fd name target rcs).any p = false := by
  rw [tableLoads, List.any_map, List.any_eq_false]
  intro rc _
  simp [hp]

theorem tableLoads_loads (n : Nat) :
    (tableLoads fd name target rcs).any (loadsTable n) =
      decide (target.length = n ∧ 0 ∈ rcs) := by
  rw [Bool.eq_iff_iff]
  simp [tableLoads, loadsTable, and_comm]

theorem tableLoads_loadsAny :
    (tableLoads fd name target rcs).any loadsAny = decide (0 ∈ rcs) := by
  rw [Bool.eq_iff_iff]
  simp [tableLoads, loadsAny]

theorem tableLoads_count : (tableLoads fd name target rcs).findSome? sectorCount = none := by
  simp [tableLoads, sectorCount]

@[simp] theorem tableLoads_createsDevice :
    (tableLoads fd name target rcs).any createsDevice = false :=
  tableLoads_any_false fun _ => rfl

@[simp] theorem tableLoads_readsStatus :
    (tableLoads fd name target rcs).any readsStatus = false :=
  tableLoads_any_false fun _ => rfl

@[simp] theorem tableLoads_makesNode :
    (tableLoads fd name target rcs).any makesNode = false :=
  tableLoads_any_false fun _ => rfl

@[simp] theorem tableLoads_findsNode :
    (tableLoads fd name target rcs).any findsNode = false :=
  tableLoads_any_false fun _ => rfl

@[simp] theorem tableLoads_resumes :
    (tableLoads fd name target rcs).any resumes = false :=
  tableLoads_any_false fun _ => rfl

@[simp] theorem tableLoads_opens (path : Bytes) (flags : Nat) :
    (tableLoads fd name target rcs).any (opens path flags) = false :=
  tableLoads_any_false fun _ => rfl

/-- The trace from the creation of the device on, when the node was found: the table loads,
and at most one attempt to resume, which follows a load that succeeded. -/
theorem created_of_table {fsSize dev : Nat} {retval r : Int} {node : Bytes} {mode : Nat}
    {w : DriverTrace} (hlen : target.length = fsSize)
    (hnode : retval = 0 ∨ retval = -EEXIST)
    (hw : w = [] ∨ 0 ∈ rcs ∧ ∃ rc, w = [⟨.dmDevSuspend fd name, rc⟩])
    (hr : 0 ≤ r ↔ retval = 0 ∨ w.any resumes = true) :
    Created fsSize (⟨.dmDevCreate fd name, (0 : Int)⟩ ::
      ⟨.dmDevStatus fd name, ((0 : Int), dev)⟩ :: ⟨.sysMknod node mode dev, retval⟩ ::
      (tableLoads fd name target rcs ++ w)) r := by
  subst hlen
  have hplain : w.any createsDevice = false ∧ w.any makesNode = false ∧
      (∀ n, w.any (loadsTable n) = false) ∧
      (∀ path flags, w.any (opens path flags) = false) ∧ w.findSome? sectorCount = none := by
    rcases hw with rfl | ⟨_, rc, rfl⟩ <;>
      exact ⟨rfl, rfl, fun _ => rfl, fun _ _ => rfl, rfl⟩
  obtain ⟨hw₁, hw₂, hw₃, hw₄, hw₅⟩ := hplain
  constructor
  · rw [hr]
    simp [-List.any_eq_true, makesNode, resumes, hw₂]
  · intro hresumes
    have hsome : 0 ∈ rcs := by
      rcases hw with rfl | ⟨h, _⟩
      · simp [resumes] at hresumes
      · exact h
    simp [-List.any_eq_true, createsDevice, readsStatus, findsNode, hnode, tableLoads_loads,
      tableLoads_loadsAny, hsome]
  · intro n hn
    have hload : target.length = n ∧ 0 ∈ rcs := by
      simpa [-List.any_eq_true, loadsTable, hw₃, tableLoads_loads] using hn
    exact hload.1.symm
  · intro path
    simp [UefiLkl.opens, hw₄]
  · simp only [List.findSome?_cons, List.findSome?_append, tableLoads_count, hw₅]
    rfl

end TableLoads

theorem createCryptoBlkDevOpen_exec {buffer : Nat} {ftr : CryptMntFtr}
    {masterKey realBlkName name : Bytes} {fd : Int} {u : DriverTrace} {r : Int × Bytes}
    (h : (createCryptoBlkDevOpen buffer ftr masterKey realBlkName name fd).Exec u r)
    (hconv : ∀ e ∈ u, conventional e = true) : Created ftr.fsSize u r.1 := by
  obtain ⟨rc₁, u₁, rfl, h₁⟩ := Prog.exec_ask_bind_iff.mp h
  by_cases hrc₁ : rc₁ = 0
  swap
  · rw [if_pos hrc₁] at h₁
    obtain ⟨rfl, rfl⟩ := Prog.exec_ret_iff.mp h₁
    exact created_of_no_table (by decide) rfl rfl (fun _ => rfl) (fun _ => rfl) rfl
  rw [if_neg (not_not.mpr hrc₁)] at h₁
  obtain ⟨⟨rc₂, dev⟩, u₂, rfl, h₂⟩ := Prog.exec_ask_bind_iff.mp h₁
  dsimp only at h₂
  by_cases hrc₂ : rc₂ = 0
  swap
  · rw [if_pos hrc₂] at h₂
    obtain ⟨rfl, rfl⟩ := Prog.exec_ret_iff.mp h₂
    exact created_of_no_table (by decide) rfl rfl (fun _ => rfl) (fun _ => rfl) rfl
  rw [if_neg (not_not.mpr hrc₂)] at h₂
  obtain ⟨(retval : Int), u₃, rfl, h₃⟩ := Prog.exec_ask_bind_iff.mp h₂
  have hret : retval ≤ 0 := by
    have := hconv ⟨.sysMknod (cryptoBlkName dev) (S_IFBLK ||| 0o600) dev, retval⟩ (by simp)
    simpa [conventional] using this
  by_cases hnode : retval ≠ 0 ∧ retval ≠ -EEXIST
  · rw [if_pos hnode] at h₃
    obtain ⟨rfl, rfl⟩ := Prog.exec_ret_iff.mp h₃
    refine created_of_no_table ?_ ?_ rfl (fun _ => rfl) (fun _ => rfl) rfl
    · have := hnode.1
      dsimp only
      omega
    · simp [makesNode, hnode.1]
  rw [if_neg hnode] at h₃
  obtain ⟨v, w, loadCount, rfl, hload, h₄⟩ := Prog.exec_bind_iff.mp h₃
  obtain ⟨rcs, rfl, hcount⟩ := tableLoadLoop_exec hload
  have hfound : retval = 0 ∨ retval = -EEXIST := by
    omega
  subst hrc₁ hrc₂
  by_cases hfail : loadCount < 0
  · rw [if_pos hfail] at h₄
    obtain ⟨rfl, rfl⟩ := Prog.exec_ret_iff.mp h₄
    refine created_of_table rfl hfound (.inl rfl) ?_
    simp only [EEXIST] at hfound
    simp
    omega
  rw [if_neg hfail] at h₄
  obtain ⟨(rc₅ : Int), u₅, rfl, h₅⟩ := Prog.exec_ask_bind_iff.mp h₄
  have hsome : 0 ∈ rcs := hcount.mp (by omega)
  by_cases hrc₅ : rc₅ = 0
  · rw [if_neg (not_not.mpr hrc₅)] at h₅
    obtain ⟨rfl, rfl⟩ := Prog.exec_ret_iff.mp h₅
    refine created_of_table rfl hfound (.inr ⟨hsome, rc₅, rfl⟩) ?_
    simp [resumes, hrc₅]
  · rw [if_pos hrc₅] at h₅
    obtain ⟨rfl, rfl⟩ := Prog.exec_ret_iff.mp h₅
    refine created_of_table rfl hfound (.inr ⟨hsome, rc₅, rfl⟩) ?_
    simp only [EEXIST] at hfound
    simp [resumes, hrc₅]
    omega

def setUpTrace (realBlkdev : Bytes) (fd : Int) (size : Int × Nat) (closed fdControl : Int)
    (u : DriverTrace) (closedControl : Int) : DriverTrace :=
  ⟨.sysOpen realBlkdev (O_RDONLY ||| O_CLOEXEC) 0, fd⟩ :: ⟨.blkGetSize fd, size⟩ ::
    ⟨.sysClose fd, closed⟩ :: ⟨.sysOpen DEVMAPPER_CONTROL_FILE O_RDWR 0, fdControl⟩ ::
      (u ++ [⟨.sysClose fdControl, closedControl⟩])

theorem any_setUpTrace {realBlkdev : Bytes} {fd closed fdControl closedControl : Int}
    {size : Int × Nat} {u : DriverTrace} {p : DriverEvent → Bool}
    (hopen : ∀ path flags fd, p ⟨.sysOpen path flags 0, fd⟩ = false)
    (hsize : p ⟨.blkGetSize fd, size⟩ = false) (hclose : ∀ fd rc, p ⟨.sysClose fd, rc⟩ = false) :
    (setUpTrace realBlkdev fd size closed fdControl u closedControl).any p = u.any p := by
  simp [-List.any_eq_true, setUpTrace, hopen, hsize, hclose]

section Whole

variable {realBlkdev : Bytes} {fd closed fdControl closedControl : Int} {size : Int × Nat}
  {u : DriverTrace} {fsSize : Nat} {r : Int}

theorem opens_setUpTrace (hu : Created fsSize u r) :
    (setUpTrace realBlkdev fd size closed fdControl u closedControl).any
      (opens realBlkdev (O_RDONLY ||| O_CLOEXEC)) = true ↔ 0 ≤ fd := by
  have hflags : ¬ O_RDWR = O_RDONLY ||| O_CLOEXEC := by decide
  have hnone := hu.opens realBlkdev
  simp only [setUpTrace, List.any_cons, List.any_append, hnone]
  simp [opens, hflags]

theorem sectorCount_setUpTrace (hu : Created fsSize u r) :
    (setUpTrace realBlkdev fd size closed fdControl u closedControl).findSome? sectorCount =
      if size.1 = 0 then some size.2 else none := by
  simp only [setUpTrace, List.findSome?_cons, List.findSome?_append, hu.count]
  by_cases h : size.1 = 0
  · simp [sectorCount, h]
  · simp [sectorCount, h]

theorem setUp_iff_told (hu : Created fsSize u r) (hsize : fsSize = size.2 % 2 ^ 32)
    (hpos : fsSize ≠ 0) :
    ((0 ≤ r ↔ SetUp realBlkdev (setUpTrace realBlkdev fd size closed fdControl u closedControl)) ↔
      SetUpTold realBlkdev (setUpTrace realBlkdev fd size closed fdControl u closedControl)) := by
  have hany : ∀ p ∈ [createsDevice, readsStatus, makesNode, findsNode, loadsAny, resumes],
      (setUpTrace realBlkdev fd size closed fdControl u closedControl).any p = u.any p := by
    intro p hp
    simp only [List.mem_cons, List.not_mem_nil, or_false] at hp
    rcases hp with rfl | rfl | rfl | rfl | rfl | rfl <;>
      exact any_setUpTrace (fun _ _ _ => rfl) rfl fun _ _ => rfl
  have hload : ∀ n, (setUpTrace realBlkdev fd size closed fdControl u closedControl).any
      (loadsTable n) = u.any (loadsTable n) :=
    fun n => any_setUpTrace (fun _ _ _ => rfl) rfl fun _ _ => rfl
  simp only [List.forall_mem_cons, List.not_mem_nil, false_implies, implies_true, and_true] at hany
  obtain ⟨hcreate, hstatus, hmake, hfind, hany, hresume⟩ := hany
  rw [SetUp, SetUpTold, opens_setUpTrace hu, sectorCount_setUpTrace hu, hu.success]
  simp only [hcreate, hstatus, hmake, hfind, hany, hresume, hload]
  constructor
  · intro h
    constructor
    · intro hm
      obtain ⟨_, n, _, _, _, _, _, _, hr⟩ := h.mp (.inl hm)
      exact ⟨(hu.steps hr).2.2.2.2, hr⟩
    · intro hr
      obtain ⟨hfd, n, hn, _, _, _, _, hl, _⟩ := h.mp (.inr hr)
      refine ⟨hfd, n, ?_, hn⟩
      rw [hu.table n hl, hsize]
      exact Nat.mod_lt _ (by decide)
  · rintro ⟨hm, hr⟩
    constructor
    · intro h
      have hres : u.any resumes = true := h.elim (fun h => (hm h).2) id
      obtain ⟨hfd, n, hlt, hn⟩ := hr hres
      obtain ⟨hc, hs, hf, hl, _⟩ := hu.steps hres
      have hsame : fsSize = n := by
        by_cases h0 : size.1 = 0
        · rw [if_pos h0, Option.some_inj] at hn
          rw [hsize, hn]
          exact Nat.mod_eq_of_lt hlt
        · rw [if_neg h0] at hn
          cases hn
      exact ⟨hfd, n, hn, hsame ▸ hpos, hc, hs, hf, hsame ▸ hl, hres⟩
    · rintro ⟨_, n, _, _, _, _, _, _, h⟩
      exact .inr h

end Whole

theorem setUp_iff_told_of_failed {realBlkdev : Bytes} {t : DriverTrace} {r : Int} (hr : r < 0)
    (hmake : t.any makesNode = false) (hresume : t.any resumes = false) :
    (0 ≤ r ↔ SetUp realBlkdev t) ↔ SetUpTold realBlkdev t := by
  simp only [SetUp, SetUpTold, hmake, hresume]
  simp [hr]

theorem getBlkdevSize_exec {fd : Int} {u : DriverTrace} {n : Nat}
    (h : (getBlkdevSize fd).Exec u n) :
    ∃ size : Int × Nat, u = [⟨.blkGetSize fd, size⟩] ∧
      n = if size.1 = -1 then 0 else size.2 % 2 ^ 32 := by
  obtain ⟨⟨rc, nrSec⟩, w, rfl, h₁⟩ := Prog.exec_ask_bind_iff.mp h
  dsimp only at h₁
  refine ⟨(rc, nrSec), ?_⟩
  by_cases hrc : rc = -1
  · rw [if_pos hrc] at h₁
    obtain ⟨rfl, rfl⟩ := Prog.exec_ret_iff.mp h₁
    exact ⟨rfl, (if_pos hrc).symm⟩
  · rw [if_neg hrc] at h₁
    obtain ⟨rfl, rfl⟩ := Prog.exec_ret_iff.mp h₁
    exact ⟨rfl, (if_neg hrc).symm⟩

/-- `cryptfs_setup_ext_volume` returns a number that is not negative exactly when every step
succeeded, if and only if `SetUpTold`. -/
theorem cryptfsSetupExtVolume_iff {buffer : Nat} {label realBlkdev key : Bytes} {keysize : Nat}
    {t : DriverTrace} {r : Int × Bytes}
    (h : (cryptfsSetupExtVolume buffer label realBlkdev key keysize).Exec t r)
    (hconv : ∀ e ∈ t, conventional e = true) :
    ((0 ≤ r.1 ↔ SetUp realBlkdev t) ↔ SetUpTold realBlkdev t) := by
  obtain ⟨(fd : Int), u₁, rfl, h₁⟩ := Prog.exec_ask_bind_iff.mp h
  by_cases hfd : fd = -1
  · rw [if_pos hfd] at h₁
    obtain ⟨rfl, rfl⟩ := Prog.exec_ret_iff.mp h₁
    exact setUp_iff_told_of_failed (by decide) rfl rfl
  rw [if_neg hfd] at h₁
  obtain ⟨v, u₂, nrSec, rfl, hsize, h₂⟩ := Prog.exec_bind_iff.mp h₁
  obtain ⟨size, rfl, hnrSec⟩ := getBlkdevSize_exec hsize
  obtain ⟨(closed : Int), u₃, rfl, h₃⟩ := Prog.exec_ask_bind_iff.mp h₂
  by_cases hzero : nrSec = 0
  · rw [if_pos hzero] at h₃
    obtain ⟨rfl, rfl⟩ := Prog.exec_ret_iff.mp h₃
    exact setUp_iff_told_of_failed (by decide) rfl rfl
  rw [if_neg hzero] at h₃
  obtain ⟨(fdControl : Int), u₄, rfl, h₄⟩ := Prog.exec_ask_bind_iff.mp h₃
  obtain ⟨u₅, u₆, res, rfl, hcreate, h₆⟩ := Prog.exec_bind_iff.mp h₄
  obtain ⟨(closedControl : Int), u₇, rfl, h₇⟩ := Prog.exec_ask_bind_iff.mp h₆
  obtain ⟨rfl, rfl⟩ := Prog.exec_ret_iff.mp h₇
  by_cases hcontrol : fdControl < 0
  · rw [if_pos hcontrol] at hcreate
    obtain ⟨rfl, rfl⟩ := Prog.exec_ret_iff.mp hcreate
    exact setUp_iff_told_of_failed (by decide) rfl rfl
  rw [if_neg hcontrol] at hcreate
  have hu := createCryptoBlkDevOpen_exec hcreate fun e he => hconv e (by simp [he])
  have hsize' : nrSec = size.2 % 2 ^ 32 := by
    rw [hnrSec] at hzero ⊢
    by_cases hrc : size.1 = -1
    · simp [hrc] at hzero
    · exact if_neg hrc
  exact setUp_iff_told hu hsize' hzero

/-- All calls succeed, but for the answer to `LKL_DM_DEV_SUSPEND`. -/
def cryptKernel (suspend : Int) : Handler DriverCall DriverCall.Ans Unit
  | .dmDevSuspend _ _, g => (suspend, g)
  | c, g => (c.granted, g)

def cryptExample : Firmware (Int × Bytes) := cryptfsSetupExtVolume 0 [] [0x61] [] 0

theorem cryptfsSetupExtVolume_iff_granted :
    ((0 ≤ ((cryptExample.run (cryptKernel 0) ()).1).1 ↔
        SetUp [0x61] (cryptExample.trace (cryptKernel 0) ())) ↔
      SetUpTold [0x61] (cryptExample.trace (cryptKernel 0) ())) ∧
    SetUpTold [0x61] (cryptExample.trace (cryptKernel 0) ()) := by
  constructor
  · exact cryptfsSetupExtVolume_iff (Prog.exec_trace (cryptKernel 0) cryptExample ()) (by decide)
  · constructor
    · decide
    · intro _
      exact ⟨by decide, 2048, by decide, by decide⟩

/-- The node is made, the device is not resumed, and the result is zero. -/
theorem cryptfsSetupExtVolume_told_unresumed :
    ∃ t r, cryptExample.Exec t r ∧ (∀ e ∈ t, conventional e = true) ∧ 0 ≤ r.1 ∧
      ¬ SetUp [0x61] t := by
  refine ⟨_, _, Prog.exec_trace (cryptKernel (-EINVAL)) cryptExample (), ?_, ?_, ?_⟩
  · decide
  · decide
  · rintro ⟨_, _, _, _, _, _, _, _, hresume⟩
    revert hresume
    decide

end UefiLkl
