import UefiLkl.Ledger
set_option autoImplicit false

/-!
What the parts of a start take and give back.
-/

namespace UefiLkl
open Interaction

theorem readDiskBlock_idle {c : Controller} {mediaId offset : Nat} {g : Account} :
    (readDiskBlock c mediaId offset).Only fun c => ∀ x, g.after ⟨c, x⟩ = g := by
  refine Prog.only_ask_bind.mpr ⟨fun _ => rfl, fun x => ?_⟩
  cases x with
  | error s => trivial
  | ok block => trivial

theorem readFileBlock_idle {fd : Int} {offset : Nat} {g : Account} :
    (readFileBlock fd offset).Only fun c => ∀ x, g.after ⟨c, x⟩ = g := by
  refine Prog.only_ask_bind.mpr ⟨fun _ => rfl, fun (rc : Int) => ?_⟩
  by_cases h : rc < 0
  · rw [if_pos h]
    trivial
  · rw [if_neg h]
    refine Prog.only_ask_bind.mpr ⟨fun _ => rfl, fun x => ?_⟩
    cases x with
    | error s => trivial
    | ok block => trivial

theorem probeLoop_only {P : DriverCall → Prop} {readBlock : Nat → Firmware (Option Bytes)}
    (h : ∀ offset, (readBlock offset).Only P) (l : List (Bytes × FsIdMag)) :
    (probeLoop readBlock l).Only P := by
  induction l with
  | nil => trivial
  | cons entry rest ih =>
    refine (h _).bind fun block => ?_
    cases block with
    | none => exact ih
    | some block =>
      by_cases hm : entry.2.found block = true
      · simp only [hm, if_true]
        trivial
      · simp only [hm]
        exact ih

theorem getFsType_account {c : Controller} {mediaId : Nat} {g : Account} :
    accounting.Always (getFsType c mediaId) (fun _ g' => g' = g) g := by
  refine Env.tracking_idle ((probeLoop_only (fun _ => readDiskBlock_idle) _).bind fun found => ?_)
  cases found with
  | none => trivial
  | some name => trivial

theorem after_open_close {g : Account} {path : Bytes} {flags mode : Nat} {fd rc : Int}
    (hopen : flags ≠ O_RDWR ∨ g.dmMade = false) :
    (g.after ⟨.sysOpen path flags mode, fd⟩).after ⟨.sysClose fd, rc⟩ = g := by
  by_cases h : 0 ≤ fd
  · rw [after_sysOpen h, after_sysClose h, Multiset.erase_cons_head]
  · rw [after_sysOpen_of_neg (by omega) hopen, after_sysClose_of_neg (by omega)]

theorem isError_of_neg {rc : Int} (h : rc < 0) : (lklError2EfiError rc).isError = true :=
  lklError2EfiError_isError (by omega)

theorem getFsTypeLkl_account {path : Bytes} {g : Account} :
    accounting.Always (getFsTypeLkl path) (fun r g' => g' = g ∧
      ∀ status, r = .error status → status.isError = true) g := by
  have hflags : O_RDONLY ≠ O_RDWR := by decide
  rw [getFsTypeLkl, accounting, Env.tracking_ask_bind]
  intro (fd : Int) _
  by_cases h : fd < 0
  · rw [if_pos h]
    refine ⟨after_sysOpen_of_neg h (.inl hflags), ?_⟩
    intro status hs
    cases hs
    exact isError_of_neg h
  · rw [if_neg h, Env.always_bind]
    refine (Env.tracking_idle (probeLoop_only (fun _ => readFileBlock_idle) _)).mono ?_
    rintro found _ rfl
    rw [Env.tracking_ask_bind]
    intro rc _
    rw [after_open_close (.inl hflags)]
    cases found with
    | none =>
      refine ⟨rfl, fun status hs => ?_⟩
      cases hs
      rfl
    | some name => exact ⟨rfl, fun status hs => by cases hs⟩

theorem lklGetKeyLocation_account {c : Controller} {g : Account} :
    accounting.Always (lklGetKeyLocation c) (fun r g' => g' = g ∧
      ∀ status, r = .error status → status.isError = true) g := by
  have hinvalid : ∀ status, (Except.error .invalidParameter : Except EfiStatus (List UInt16)) =
      .error status → status.isError = true := by
    intro status h
    cases h
    rfl
  rw [lklGetKeyLocation, accounting, Env.tracking_ask_bind]
  intro path _
  cases path with
  | none => exact ⟨rfl, hinvalid⟩
  | some path =>
    dsimp only
    cases path.find? isHardDrive with
    | none => exact ⟨rfl, hinvalid⟩
    | some hd =>
      dsimp only
      by_cases h : hd.signatureType = SIGNATURE_TYPE_GUID
      · rw [if_pos h]
        exact ⟨rfl, fun status hs => by cases hs⟩
      · rw [if_neg h]
        exact ⟨rfl, hinvalid⟩

def Account.withFile (g : Account) (file : Nat) : Account :=
  { g with held := .file file ::ₘ g.held, fileOpened := true }

theorem after_fileClose {g : Account} {file : Nat} (h : .file file ∈ g.held) :
    g.after ⟨.fileClose file, ()⟩ = { g with held := g.held.erase (.file file) } :=
  after_of_givenBack rfl rfl rfl (fun _ => h)

theorem after_freePool {g : Account} {ptr : Nat} (h : .pool ptr ∈ g.held) :
    g.after ⟨.freePool ptr, ()⟩ = { g with held := g.held.erase (.pool ptr) } :=
  after_of_givenBack rfl rfl rfl (fun _ => h)

theorem after_not_there {g : Account} {c : Controller} {path : List UInt16} {root : Nat}
    {status : EfiStatus} :
    ((g.after ⟨.openRoot c, .ok root⟩).after ⟨.fileOpen root path, .error status⟩).after
      ⟨.fileClose root, ()⟩ = g := by
  have hroot : (g.after ⟨.openRoot c, .ok root⟩).after ⟨.fileOpen root path, .error status⟩ =
      { g with held := .file root ::ₘ g.held } := rfl
  rw [hroot, after_fileClose (Multiset.mem_cons_self _ _), Multiset.erase_cons_head]

theorem after_there {g : Account} {c : Controller} {path : List UInt16} {root file : Nat} :
    ((g.after ⟨.openRoot c, .ok root⟩).after ⟨.fileOpen root path, .ok file⟩).after
      ⟨.fileClose root, ()⟩ = g.withFile file := by
  have hfile : (g.after ⟨.openRoot c, .ok root⟩).after ⟨.fileOpen root path, .ok file⟩ =
      { g with held := .file file ::ₘ .file root ::ₘ g.held, fileOpened := true } := rfl
  have hroot : .file root ∈ (.file root ::ₘ g.held) := Multiset.mem_cons_self _ _
  rw [hfile, after_fileClose (Multiset.mem_cons_of_mem hroot),
    Multiset.erase_cons_tail_of_mem hroot, Multiset.erase_cons_head]
  rfl

theorem searchPartitions_account {path : List UInt16} {handles : List Controller} {g : Account} :
    accounting.Always (searchPartitions path handles) (fun found g' => match found with
      | some file => g' = g.withFile file
      | none => g' = g) g := by
  induction handles with
  | nil => rfl
  | cons c rest ih =>
    rw [searchPartitions, accounting, Env.tracking_ask_bind]
    intro status₁ _
    by_cases h₁ : status₁.isError = true
    · rw [if_pos h₁]
      exact ih
    rw [if_neg h₁, Env.tracking_ask_bind]
    intro status₂ _
    by_cases h₂ : status₂.isError = true
    · rw [if_pos h₂]
      exact ih
    rw [if_neg h₂, Env.tracking_ask_bind]
    intro opened _
    cases opened with
    | error s => exact ih
    | ok root =>
      dsimp only
      rw [Env.tracking_ask_bind]
      intro file _
      rw [Env.tracking_ask_bind]
      intro _ _
      cases file with
      | error s =>
        have hg := @after_not_there g c path root s
        exact hg.symm ▸ ih
      | ok file => exact after_there

theorem getFileFromAnyPartition_account {path : List UInt16} {g : Account} :
    accounting.Always (getFileFromAnyPartition path) (fun r g' => match r with
      | .ok file => g' = g.withFile file
      | .error _ => g' = g) g := by
  rw [getFileFromAnyPartition, accounting, Env.tracking_ask_bind]
  intro located _
  cases located with
  | error s => rfl
  | ok located =>
    obtain ⟨handleBuffer, handles⟩ := located
    dsimp only
    rw [Env.always_bind]
    refine searchPartitions_account.mono ?_
    intro found g' hg'
    rw [Env.tracking_ask_bind]
    intro _ _
    have hbuffer : .pool handleBuffer ∈ (.pool handleBuffer ::ₘ g.held) :=
      Multiset.mem_cons_self _ _
    cases found with
    | none =>
      rw [hg', after_freePool hbuffer]
      exact congrArg (fun held => { g with held := held }) (Multiset.erase_cons_head _ _)
    | some file =>
      rw [hg', after_freePool (Multiset.mem_cons_of_mem hbuffer)]
      have hheld : (.file file ::ₘ .pool handleBuffer ::ₘ g.held).erase (.pool handleBuffer) =
          .file file ::ₘ g.held := by
        rw [Multiset.erase_cons_tail_of_mem hbuffer, Multiset.erase_cons_head]
      exact congrArg (fun held => { g with held := held, fileOpened := true }) hheld

def Account.withKey (g : Account) (keyFile key : Nat) : Account :=
  { g with held := .pool key ::ₘ .file keyFile ::ₘ g.held, fileOpened := true }

/-- What is looked up is either of no consequence, or leaves the key file open. -/
def lookAccount (g : Account) : Look → Account → Prop
  | .goOn (.plain _), g' => g' = g
  | .goOn (.encrypted keyFile key _ _), g' => g' = g.withKey keyFile key
  | .done status keyFile key, g' => status.isError = true ∧ g' = g.withKey keyFile key
  | .leave status, g' => status.isError = true ∧
      (g' = g ∨ ∃ file, g' = { g.withFile file with sizeFailed := true } ∨
        g' = { g.withFile file with allocationFailed := true })

theorem lookPlain_account {c : Controller} {media : Media} {g : Account} :
    accounting.Always (lookPlain c media) (lookAccount g) g := by
  rw [lookPlain, accounting, Env.always_bind]
  refine getFsType_account.mono ?_
  intro found g' hg'
  cases found with
  | error s => exact ⟨rfl, .inl hg'⟩
  | ok fsType => exact hg'

theorem lookEncrypted_account {c : Controller} {g : Account} :
    accounting.Always (lookEncrypted c) (lookAccount g) g := by
  rw [lookEncrypted, accounting, Env.always_bind]
  refine lklGetKeyLocation_account.mono ?_
  rintro path _ ⟨rfl, hpath⟩
  cases path with
  | error s => exact ⟨hpath s rfl, .inl rfl⟩
  | ok path =>
    dsimp only
    rw [Env.always_bind]
    refine getFileFromAnyPartition_account.mono ?_
    intro found g' hg'
    cases found with
    | error s => exact ⟨rfl, .inl hg'⟩
    | ok keyFile =>
      subst hg'
      dsimp only
      rw [Env.tracking_ask_bind]
      intro size hsize
      cases size with
      | error s => exact ⟨hsize, .inr ⟨keyFile, .inl rfl⟩⟩
      | ok size =>
        dsimp only
        rw [Env.tracking_ask_bind]
        intro key _
        cases key with
        | none => exact ⟨rfl, .inr ⟨keyFile, .inr rfl⟩⟩
        | some key =>
          dsimp only
          rw [Env.tracking_ask_bind]
          intro data hdata
          cases data with
          | error s => exact ⟨hdata, rfl⟩
          | ok data => rfl

theorem look_account {c : Controller} {media : Media} {g : Account} :
    accounting.Always (look c media) (lookAccount g) g := by
  rw [look, accounting, Env.tracking_ask_bind]
  intro name _
  cases name with
  | error s => exact lookPlain_account
  | ok name =>
    dsimp only
    by_cases h : name = wideString "android_expand"
    · rw [if_pos h]
      exact lookEncrypted_account
    · rw [if_neg h]
      exact lookPlain_account

theorem dropKey_account {key keyFile : Nat} {g : Account} {held : Multiset Resource}
    (h : g.held = .pool key ::ₘ .file keyFile ::ₘ held) :
    accounting.Always (dropKey key keyFile) (fun _ g' => g' = { g with held := held }) g := by
  rw [dropKey, accounting, Env.tracking_ask_bind]
  intro _ _
  rw [Env.tracking_ask]
  intro _ _
  have hkey : g.after ⟨.freePool key, ()⟩ = { g with held := .file keyFile ::ₘ held } := by
    rw [after_freePool (h ▸ Multiset.mem_cons_self _ _), h, Multiset.erase_cons_head]
  rw [hkey, after_fileClose (Multiset.mem_cons_self _ _), Multiset.erase_cons_head]

def nodeHeld : Option Bytes → Multiset Resource
  | some path => {.node path}
  | none => 0

def cryptHeld (name : Bytes) (dm : Bool) (node : Option Bytes) : Multiset Resource :=
  nodeHeld node + if dm then {.dmDevice name} else 0

def Account.withCrypt (g : Account) (name : Bytes) (dm : Bool) (node : Option Bytes) : Account :=
  { g with
    held := cryptHeld name dm node + g.held
    dmMade := dm || g.dmMade
    dmNode := node.isSome || g.dmNode }

theorem withCrypt_none (g : Account) (name : Bytes) : g.withCrypt name false none = g := by
  simp [Account.withCrypt, cryptHeld, nodeHeld]

theorem mem_cryptHeld {name : Bytes} {dm : Bool} {node : Option Bytes} {r : Resource}
    (h : r ∈ cryptHeld name dm node) : r = .dmDevice name ∨ ∃ path, r = .node path := by
  cases dm <;> cases node <;> simp_all [cryptHeld, nodeHeld]
  tauto

theorem tableLoadLoop_idle {fd : Int} {name : Bytes} {target : DmTarget} {tries i : Nat}
    {g : Account} :
    (tableLoadLoop fd name target tries i).Only fun c => ∀ x, g.after ⟨c, x⟩ = g := by
  induction tries generalizing i with
  | zero => trivial
  | succ tries ih =>
    refine Prog.only_ask_bind.mpr ⟨fun _ => rfl, fun (rc : Int) => ?_⟩
    by_cases h : rc = 0
    · rw [if_pos h]
      trivial
    · rw [if_neg h]
      exact ih

theorem dmNodePrefix_cryptoBlkName (dev : Nat) :
    dmNodePrefix.isPrefixOf (cryptoBlkName dev) = true := by
  simp [dmNodePrefix, cryptoBlkName]

theorem withCrypt_after_mknod (g : Account) (name : Bytes) (dev mode : Nat) (rc : Int) :
    ∃ node, (g.withCrypt name true none).after ⟨.sysMknod (cryptoBlkName dev) mode dev, rc⟩ =
      g.withCrypt name true node := by
  have hprefix := dmNodePrefix_cryptoBlkName dev
  by_cases h : 0 ≤ rc
  · refine ⟨some (cryptoBlkName dev), ?_⟩
    simp [Account.after, Account.withCrypt, heldAfter, taken, givenBack, strays, fails,
      createsDevice, makesDmNode, opensFile, failsSize, failsAllocation, findsFileSystem, h,
      hprefix, cryptHeld, nodeHeld]
  · refine ⟨none, ?_⟩
    exact after_of_quiet (by simp [makesDmNode, h]) (if_neg h) rfl rfl

theorem createCryptoBlkDevOpen_account {buffer : Nat} {ftr : CryptMntFtr}
    {masterKey realBlkName name : Bytes} {fd : Int} {g : Account} :
    accounting.Always (createCryptoBlkDevOpen buffer ftr masterKey realBlkName name fd)
      (fun _ g' => ∃ dm node, g' = g.withCrypt (dmName name) dm node ∧
        (node.isSome = true → dm = true)) g := by
  rw [createCryptoBlkDevOpen, accounting, Env.tracking_ask_bind]
  intro (rc₁ : Int) _
  by_cases h₁ : rc₁ = 0
  swap
  · rw [if_pos h₁]
    refine ⟨false, none, ?_, by simp⟩
    rw [withCrypt_none]
    exact after_of_quiet (by simp [createsDevice, h₁]) (if_neg h₁) rfl rfl
  subst h₁
  have hcreate : g.after ⟨.dmDevCreate fd (dmName name), (0 : Int)⟩ =
      g.withCrypt (dmName name) true none := by
    simp [Account.withCrypt, cryptHeld, nodeHeld]
    rfl
  rw [if_neg (by simp), hcreate, Env.tracking_ask_bind]
  rintro ⟨rc₂, dev⟩ _
  dsimp only
  by_cases h₂ : rc₂ = 0
  swap
  · rw [if_pos h₂]
    exact ⟨true, none, rfl, by simp⟩
  rw [if_neg (not_not.mpr h₂), Env.tracking_ask_bind]
  intro (retval : Int) _
  obtain ⟨node, hnode⟩ := withCrypt_after_mknod g (dmName name) dev (S_IFBLK ||| 0o600) retval
  have hdone : ∃ dm node', (g.withCrypt (dmName name) true none).after
      ⟨.sysMknod (cryptoBlkName dev) (S_IFBLK ||| 0o600) dev, retval⟩ =
        g.withCrypt (dmName name) dm node' ∧ (node'.isSome = true → dm = true) :=
    ⟨true, node, hnode, by simp⟩
  by_cases h₃ : retval ≠ 0 ∧ retval ≠ -EEXIST
  · rw [if_pos h₃]
    exact hdone
  rw [if_neg h₃, Env.always_bind]
  refine (Env.tracking_idle tableLoadLoop_idle).mono ?_
  rintro loadCount _ rfl
  by_cases h₄ : loadCount < 0
  · rw [if_pos h₄]
    exact hdone
  rw [if_neg h₄, Env.tracking_ask_bind]
  intro (rc₅ : Int) _
  by_cases h₅ : rc₅ = 0
  · rw [if_neg (not_not.mpr h₅)]
    exact hdone
  · rw [if_pos h₅]
    exact hdone

theorem erase_cryptHeld {name : Bytes} {dm : Bool} {node : Option Bytes}
    {held : Multiset Resource} {fd : Int} :
    (cryptHeld name dm node + .fd fd ::ₘ held).erase (.fd fd) = cryptHeld name dm node + held := by
  have hfd : Resource.fd fd ∉ cryptHeld name dm node := by
    intro h
    rcases mem_cryptHeld h with h | ⟨path, h⟩ <;> cases h
  rw [Multiset.erase_add_right_neg _ hfd, Multiset.erase_cons_head]

theorem createCryptoBlkDev_account {buffer : Nat} {ftr : CryptMntFtr}
    {masterKey realBlkName name : Bytes} {g : Account} (hg : g.dmMade = false) :
    accounting.Always (createCryptoBlkDev buffer ftr masterKey realBlkName name)
      (fun _ g' => ∃ dm node, g' = g.withCrypt (dmName name) dm node ∧
        (node.isSome = true → dm = true)) g := by
  rw [createCryptoBlkDev, accounting, Env.tracking_ask_bind]
  intro (fd : Int) _
  by_cases hfd : fd < 0
  · rw [if_pos hfd, pure_bind, Env.tracking_ask_bind]
    intro rc _
    rw [after_open_close (.inr hg)]
    exact ⟨false, none, (withCrypt_none g _).symm, by simp⟩
  · rw [if_neg hfd, Env.always_bind]
    refine createCryptoBlkDevOpen_account.mono ?_
    rintro r g' ⟨dm, node, rfl, hnode⟩
    rw [Env.tracking_ask_bind]
    intro rc _
    refine ⟨dm, node, ?_, hnode⟩
    rw [after_sysOpen (by omega), after_sysClose (by omega)]
    exact congrArg (fun held => { g.withCrypt (dmName name) dm node with held := held })
      erase_cryptHeld

theorem getBlkdevSize_idle {fd : Int} {g : Account} :
    (getBlkdevSize fd).Only fun c => ∀ x, g.after ⟨c, x⟩ = g := by
  refine Prog.only_ask_bind.mpr ⟨fun _ => rfl, fun ⟨rc, nrSec⟩ => ?_⟩
  by_cases h : rc = -1
  · simp only [h, if_true]
    trivial
  · simp only [h, if_false]
    trivial

theorem cryptfsSetupExtVolume_account {buffer : Nat} {label realBlkdev key : Bytes}
    {keysize : Nat} {g : Account} (hg : g.dmMade = false) :
    accounting.Always (cryptfsSetupExtVolume buffer label realBlkdev key keysize)
      (fun _ g' => ∃ dm node, g' = g.withCrypt (dmName label) dm node ∧
        (node.isSome = true → dm = true)) g := by
  have hflags : O_RDONLY ||| O_CLOEXEC ≠ O_RDWR := by decide
  have hnothing : ∃ dm node, g = g.withCrypt (dmName label) dm node ∧
      (node.isSome = true → dm = true) := ⟨false, none, (withCrypt_none g _).symm, by simp⟩
  rw [cryptfsSetupExtVolume, accounting, Env.tracking_ask_bind]
  intro (fd : Int) _
  by_cases hfd : fd = -1
  · rw [if_pos hfd]
    subst hfd
    rw [after_sysOpen_of_neg (by decide) (.inl hflags)]
    exact hnothing
  · rw [if_neg hfd, Env.always_bind]
    refine (Env.tracking_idle getBlkdevSize_idle).mono ?_
    rintro nrSec _ rfl
    rw [Env.tracking_ask_bind]
    intro rc _
    rw [after_open_close (.inl hflags)]
    by_cases hsec : nrSec = 0
    · rw [if_pos hsec]
      exact hnothing
    · rw [if_neg hsec]
      exact createCryptoBlkDev_account hg

structure Made where
  disk : Bool
  node : Bool
  dm : Bool
  dmNode : Option Bytes
  mount : Bool

def Made.held (m : Made) (v : VolumeRecord) : Multiset Resource :=
  (if m.mount then {.mount v.lklMountPoint} else 0) +
    (cryptHeld (dmName v.lklCryptFSName) m.dm m.dmNode +
      ((if m.node then {.node v.lklBlkDevice} else 0) +
        if m.disk then {.disk v.lklDiskId} else 0))

/-- The volume structure tells what was made. -/
structure Traced (v : VolumeRecord) (m : Made) : Prop where
  disk : m.disk = decide (0 ≤ v.lklDiskId)
  node : m.node = true → v.isEncrypted = true ∧ v.lklBlkDevice ≠ []
  dm : m.dm = true → m.node = true ∧ v.lklCryptFSName ≠ []
  dmNode : m.dmNode.isSome = true → m.dm = true
  mount : m.mount = true → v.lklMountPoint ≠ []

def Account.holding (g : Account) (held : Multiset Resource) : Account :=
  { g with held := held + g.held }

/-- The marks that the making of `m` leaves. -/
def Account.noting (g : Account) (m : Made) : Account :=
  { g with dmMade := m.dm || g.dmMade, dmNode := m.dmNode.isSome || g.dmNode }

def SameVolume (v v' : VolumeRecord) : Prop :=
  v'.ptr = v.ptr ∧ v'.handle = v.handle ∧ v'.hasDiskIo2 = v.hasDiskIo2 ∧
    v'.isEncrypted = v.isEncrypted ∧ v'.lklDiskId = v.lklDiskId

def onlyDisk : Made := ⟨true, false, false, none, false⟩

theorem held_onlyDisk (v : VolumeRecord) : onlyDisk.held v = {.disk v.lklDiskId} := by
  simp [Made.held, onlyDisk, cryptHeld, nodeHeld]

/-- The volume as it is at the label `Done`, after the disk was added. -/
def MountedAs (g : Account) (v : VolumeRecord) (r : EfiStatus × VolumeRecord) (g' : Account) :
    Prop :=
  ∃ m : Made, m.disk = true ∧ g' = (g.noting m).holding (m.held r.2) ∧ Traced r.2 m ∧
    SameVolume v r.2 ∧ (r.1.isError = false → m.mount = true)

theorem after_mountDev {g : Account} {id part : Int} {fsType dir : Bytes} {flags : Nat}
    {rc : Int} (h : 0 ≤ rc) :
    g.after ⟨.mountDev id part fsType flags, (rc, dir)⟩ =
      { g with held := .mount dir ::ₘ g.held } :=
  after_of_taken rfl (if_pos h) rfl rfl

theorem mountPlain_account {v : VolumeRecord} {fsType : Bytes} {g : Account}
    (hid : 0 ≤ v.lklDiskId) :
    accounting.Always (mountPlain v fsType) (MountedAs g v) (g.holding (onlyDisk.held v)) := by
  rw [mountPlain, accounting, Env.tracking_ask_bind]
  rintro ⟨rc, dir⟩ htells
  dsimp only
  by_cases hrc : rc < 0
  · rw [if_pos hrc]
    have hsame : (g.holding (onlyDisk.held v)).after
        ⟨.mountDev v.lklDiskId 0 fsType (MS_SYNCHRONOUS ||| MS_DIRSYNC), (rc, dir)⟩ =
        g.holding (onlyDisk.held v) :=
      after_of_quiet rfl (if_neg (by omega)) rfl rfl
    refine ⟨onlyDisk, rfl, hsame, ?_, ⟨rfl, rfl, rfl, rfl, rfl⟩, ?_⟩
    · constructor <;> simp [onlyDisk, hid]
    · simp [isError_of_neg hrc]
  · rw [if_neg hrc]
    have hpos : 0 ≤ rc := by omega
    have hdir : dir ≠ [] := by
      simpa [documented, hpos] using htells
    refine ⟨{ onlyDisk with mount := true }, rfl, ?_, ?_, ⟨rfl, rfl, rfl, rfl, rfl⟩, fun _ => rfl⟩
    · rw [after_mountDev hpos]
      simp [onlyDisk, Account.holding, Account.noting, Made.held, cryptHeld, nodeHeld,
        Multiset.singleton_add]
    · constructor <;> simp [onlyDisk, hid, hdir]

theorem blkDevice_ne_nil (devId : Nat) : blkDevice devId ≠ [] :=
  List.append_ne_nil_of_left_ne_nil (by decide) _

theorem hexDigit_ne : ∀ n < 16, hexDigit n ≠ 0x62 := by
  decide

theorem dmNodePrefix_blkDevice (devId : Nat) :
    dmNodePrefix.isPrefixOf (blkDevice devId) = false := by
  have hprefix : dmNodePrefix = asciiString "/dev/" ++ 0x62 :: asciiString "lock/dm-" := by decide
  have hdigits : ∃ rest, hexDigits 8 devId =
      hexDigit (devId / 16 / 16 / 16 / 16 / 16 / 16 / 16 % 16) :: rest := ⟨_, rfl⟩
  obtain ⟨rest, hrest⟩ := hdigits
  rw [Bool.eq_false_iff, ne_eq, List.isPrefixOf_iff_prefix, hprefix, blkDevice, hrest,
    List.prefix_append_right_inj, List.cons_prefix_cons]
  rintro ⟨h, _⟩
  exact hexDigit_ne _ (Nat.mod_lt _ (by decide)) h.symm

theorem cryptFSName_ne_nil (devId : Nat) : cryptFSName devId ≠ [] :=
  List.append_ne_nil_of_left_ne_nil (by decide) _

theorem mountPoint_ne_nil (devId : Nat) : mountPoint devId ≠ [] :=
  List.append_ne_nil_of_left_ne_nil (by decide) _

theorem after_mknod_blkDevice {g : Account} {devId mode dev : Nat} {rc : Int} (h : 0 ≤ rc) :
    g.after ⟨.sysMknod (blkDevice devId) mode dev, rc⟩ =
      { g with held := .node (blkDevice devId) ::ₘ g.held } := by
  refine after_of_taken ?_ (if_pos h) rfl rfl
  simp [makesDmNode, dmNodePrefix_blkDevice]

theorem after_mknod_blkDevice_of_neg {g : Account} {devId mode dev : Nat} {rc : Int}
    (h : rc < 0) : g.after ⟨.sysMknod (blkDevice devId) mode dev, rc⟩ = g := by
  have hrc : ¬ 0 ≤ rc := by omega
  refine after_of_quiet ?_ (if_neg hrc) rfl rfl
  simp [makesDmNode, hrc]

theorem after_sysMount {g : Account} {dev dir : Bytes} {fsType : Option Bytes} {flags : Nat}
    {rc : Int} (h : 0 ≤ rc) :
    g.after ⟨.sysMount dev dir fsType flags, rc⟩ = { g with held := .mount dir ::ₘ g.held } :=
  after_of_taken rfl (if_pos h) rfl rfl

theorem after_sysMount_of_neg {g : Account} {dev dir : Bytes} {fsType : Option Bytes}
    {flags : Nat} {rc : Int} (h : rc < 0) : g.after ⟨.sysMount dev dir fsType flags, rc⟩ = g := by
  have hrc : ¬ 0 ≤ rc := by omega
  exact after_of_quiet rfl (if_neg hrc) rfl rfl

theorem lklMakeDir_idle {path : Bytes} {g : Account} :
    (lklMakeDir path).Only fun c => ∀ x, g.after ⟨c, x⟩ = g := by
  refine Prog.only_ask_bind.mpr ⟨fun _ => rfl, fun (rc : Int) => ?_⟩
  by_cases h : rc ≠ 0 ∧ rc ≠ -EEXIST
  · rw [if_pos h]
    trivial
  · rw [if_neg h]
    trivial

theorem mountDecrypted_account {v : VolumeRecord} {devId : Nat} {g : Account} {m : Made}
    (hdisk : m.disk = true) (hmount : m.mount = false) (hm : Traced v m) :
    accounting.Always (mountDecrypted v devId) (MountedAs g v)
      ((g.noting m).holding (m.held v)) := by
  have hfailed : ∀ status : EfiStatus, status.isError = true →
      MountedAs g v (status, v) ((g.noting m).holding (m.held v)) := by
    intro status hs
    exact ⟨m, hdisk, rfl, hm, ⟨rfl, rfl, rfl, rfl, rfl⟩, by simp [hs]⟩
  rw [mountDecrypted, accounting, Env.always_bind]
  refine getFsTypeLkl_account.mono ?_
  rintro found _ ⟨rfl, hfound⟩
  cases found with
  | error status => exact hfailed status (hfound status rfl)
  | ok fsType =>
    have hfailed' : ∀ status : EfiStatus, status.isError = true →
        MountedAs g v (status, { v with lklMountPoint := mountPoint devId })
          ((g.noting m).holding (m.held v)) := by
      intro status hs
      refine ⟨m, hdisk, ?_, ?_, ⟨rfl, rfl, rfl, rfl, rfl⟩, by simp [hs]⟩
      · simp [Made.held, hmount]
      · exact ⟨hm.disk, hm.node, hm.dm, hm.dmNode, by simp [hmount]⟩
    dsimp only
    rw [Env.always_bind]
    refine (Env.tracking_idle lklMakeDir_idle).mono ?_
    rintro status _ rfl
    by_cases hs : status.isError = true
    · rw [if_pos hs]
      exact hfailed' status hs
    rw [if_neg hs, Env.tracking_ask_bind]
    intro (rc : Int) _
    by_cases hrc : rc < 0
    · rw [if_pos hrc, after_sysMount_of_neg hrc]
      exact hfailed' _ (isError_of_neg hrc)
    · rw [if_neg hrc, after_sysMount (by omega)]
      refine ⟨{ m with mount := true }, hdisk, ?_, ?_, ⟨rfl, rfl, rfl, rfl, rfl⟩, fun _ => rfl⟩
      · simp [Account.holding, Account.noting, Made.held, hmount, Multiset.singleton_add]
      · exact ⟨hm.disk, hm.node, hm.dm, hm.dmNode, fun _ => mountPoint_ne_nil devId⟩

theorem mountEncrypted_account {buffer : Nat} {v : VolumeRecord} {keyData : Bytes}
    {keyFileSize : Nat} {g : Account} (hid : 0 ≤ v.lklDiskId) (henc : v.isEncrypted = true)
    (hg : g.dmMade = false) :
    accounting.Always (mountEncrypted buffer v keyData keyFileSize) (MountedAs g v)
      (g.holding (onlyDisk.held v)) := by
  rw [mountEncrypted, accounting, Env.tracking_ask_bind]
  rintro ⟨rc, devId⟩ _
  dsimp only
  by_cases hrc : rc < 0
  · rw [if_pos hrc]
    refine ⟨onlyDisk, rfl, rfl, ?_, ⟨rfl, rfl, rfl, rfl, rfl⟩, ?_⟩
    · constructor <;> simp [onlyDisk, hid]
    · simp [isError_of_neg hrc]
  rw [if_neg hrc, Env.tracking_ask_bind]
  intro (rc₁ : Int) _
  by_cases hrc₁ : rc₁ < 0
  · rw [if_pos hrc₁]
    refine ⟨onlyDisk, rfl, after_mknod_blkDevice_of_neg hrc₁, ?_, ⟨rfl, rfl, rfl, rfl, rfl⟩, ?_⟩
    · constructor <;> simp [onlyDisk, hid]
    · simp [isError_of_neg hrc₁]
  rw [if_neg hrc₁, Env.always_bind]
  have hnode : ((g.holding (onlyDisk.held v)).after
      ⟨.getVirtioBlkdev v.lklDiskId 0, (rc, devId)⟩).after
      ⟨.sysMknod (blkDevice devId) (S_IFBLK ||| 0o600) devId, rc₁⟩ =
        { g with held := .node (blkDevice devId) ::ₘ (onlyDisk.held v + g.held) } :=
    after_mknod_blkDevice (by omega)
  have hg' : ({ g with held := .node (blkDevice devId) ::ₘ (onlyDisk.held v + g.held) } :
      Account).dmMade = false := hg
  rw [hnode]
  refine (cryptfsSetupExtVolume_account hg').mono ?_
  rintro ⟨rc₂, decrypted⟩ _ ⟨dm, node, rfl, hdm⟩
  dsimp only
  have hm : Traced { v with
      lklBlkDevice := blkDevice devId
      lklBlkDeviceDecrypted := decrypted
      lklCryptFSName := cryptFSName devId } ⟨true, true, dm, node, false⟩ := by
    constructor <;> simp [hid, henc, blkDevice_ne_nil, cryptFSName_ne_nil]
    exact hdm
  have hheld : ({ g with held := .node (blkDevice devId) ::ₘ (onlyDisk.held v + g.held) } :
      Account).withCrypt (dmName (cryptFSName devId)) dm node =
        (g.noting ⟨true, true, dm, node, false⟩).holding
          (Made.held ⟨true, true, dm, node, false⟩ { v with
            lklBlkDevice := blkDevice devId
            lklBlkDeviceDecrypted := decrypted
            lklCryptFSName := cryptFSName devId }) := by
    rw [held_onlyDisk]
    simp [Account.holding, Account.noting, Account.withCrypt, Made.held,
      ← Multiset.singleton_add, Multiset.add_assoc]
  by_cases hrc₂ : rc₂ < 0
  · rw [if_pos hrc₂]
    refine ⟨_, rfl, hheld, hm, ⟨rfl, rfl, rfl, rfl, rfl⟩, ?_⟩
    simp [isError_of_neg hrc₂]
  · rw [if_neg hrc₂, hheld]
    exact mountDecrypted_account rfl rfl hm

theorem mountPartition_account {buffer : Nat} {v : VolumeRecord} {p : Partition} {g : Account}
    (hid : 0 ≤ v.lklDiskId) (hg : g.dmMade = false)
    (henc : ∀ keyFile key size data, p = .encrypted keyFile key size data →
      v.isEncrypted = true) :
    accounting.Always (mountPartition buffer v p) (MountedAs g v)
      (g.holding (onlyDisk.held v)) := by
  cases p with
  | plain fsType => exact mountPlain_account hid
  | encrypted keyFile key size data =>
    exact mountEncrypted_account hid (henc keyFile key size data rfl) hg

def nothingMade : Made := ⟨false, false, false, none, false⟩

def StartedAs (g : Account) (v : VolumeRecord) (r : EfiStatus × VolumeRecord) (g' : Account) :
    Prop :=
  ∃ m : Made, Traced r.2 m ∧ r.2.ptr = v.ptr ∧
    ((r.1.isError = true ∧ g' = (g.noting m).holding (m.held r.2)) ∨
      (r.1.isError = false ∧ m.disk = true ∧ m.mount = true ∧
        g' = (g.noting m).holding (.fileSystem v.handle ::ₘ m.held r.2)))

theorem startVolume_account {buffer : Nat} {c : Controller} {v : VolumeRecord} {p : Partition}
    {g : Account} (hid : v.lklDiskId = -1) (hg : g.dmMade = false)
    (henc : ∀ keyFile key size data, p = .encrypted keyFile key size data →
      v.isEncrypted = true) :
    accounting.Always (startVolume buffer c v p) (StartedAs g v) g := by
  rw [startVolume, accounting, Env.tracking_ask_bind]
  intro (id : Int) _
  by_cases hneg : id < 0
  · rw [if_pos hneg]
    have hid' : ¬ 0 ≤ id := by omega
    refine ⟨nothingMade, ?_, rfl, .inl ⟨isError_of_neg hneg, ?_⟩⟩
    · constructor <;> simp [nothingMade, hid]
    · have hadd : g.after ⟨.diskAdd v.ptr c, id⟩ = g :=
        after_of_quiet rfl (if_neg hid') rfl rfl
      rw [hadd]
      simp [Account.noting, Account.holding, nothingMade, Made.held, cryptHeld, nodeHeld]
  have hid' : 0 ≤ id := by omega
  have htaken : taken ⟨.diskAdd v.ptr c, id⟩ = some (.disk id) := if_pos hid'
  have hadd : g.after ⟨.diskAdd v.ptr c, id⟩ =
      g.holding (onlyDisk.held { v with lklDiskId := id }) := by
    rw [held_onlyDisk, after_of_taken rfl htaken rfl rfl]
    simp [Account.holding, Multiset.singleton_add]
  rw [if_neg hneg, hadd, Env.always_bind]
  refine (mountPartition_account (v := { v with lklDiskId := id }) hid' hg henc).mono ?_
  rintro ⟨status, v'⟩ _ ⟨m, hdisk, rfl, hm, ⟨hptr, hhandle, _⟩, hmount⟩
  dsimp only at hm hptr hhandle hmount ⊢
  by_cases hs : status.isError = true
  · rw [if_pos hs]
    exact ⟨m, hm, hptr, .inl ⟨hs, rfl⟩⟩
  rw [if_neg hs, Env.tracking_ask_bind]
  intro (installed : EfiStatus) _
  by_cases hinst : installed.isError = true
  · rw [if_pos hinst]
    exact ⟨m, hm, hptr, .inl ⟨hinst, after_of_quiet rfl (if_pos hinst) rfl rfl⟩⟩
  · rw [if_neg hinst]
    have htaken : taken ⟨.installFileSystem v', installed⟩ = some (.fileSystem v'.handle) :=
      if_neg hinst
    refine ⟨m, ⟨hm.disk, hm.node, hm.dm, hm.dmNode, hm.mount⟩, hptr, .inr ⟨?_, hdisk, ?_, ?_⟩⟩
    · simpa using hinst
    · exact hmount (by simpa using hs)
    · rw [after_of_taken rfl htaken rfl rfl, hhandle]
      simp only [Account.holding, Multiset.cons_add]
      rfl

end UefiLkl
