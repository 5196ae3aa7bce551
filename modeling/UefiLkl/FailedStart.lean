import Mathlib.Algebra.Order.Group.Multiset
import UefiLkl.StartAccount
set_option autoImplicit false

/-!
What a start that failed leaves behind.
-/

namespace UefiLkl
open Interaction

theorem held_add_eq_zero {s t : Multiset Resource} : s + t = 0 ↔ s = 0 ∧ t = 0 := by
  rw [← Multiset.card_eq_zero, Multiset.card_add, Nat.add_eq_zero_iff, Multiset.card_eq_zero,
    Multiset.card_eq_zero]

/-- Of what was made, `left` could not be given back. -/
structure LeftOver (g : Account) (made rest left : Multiset Resource) (g' : Account) : Prop where
  eq : g' = { g with held := left + rest, stuck := g'.stuck }
  made : ∀ r ∈ left, r ∈ made
  stuck : g'.stuck = false ↔ g.stuck = false ∧ left = 0

section Step

variable {g : Account} {made rest : Multiset Resource} {r : Resource}

theorem leftOver_nothing (h : g.held = 0 + rest) : LeftOver g 0 rest 0 g where
  eq := by rw [← h]
  made := fun _ h => h
  stuck := by simp

theorem leftOver_call (made rest : Multiset Resource) {e : DriverEvent} {done : Bool}
    (hmarks : marks e = false)
    (htaken : taken e = none) (hback : givenBack e = some (r, done)) (hr : r.unchecked = false)
    (hheld : g.held = made + rest) (hmade : made = 0 ∧ r ∉ rest ∨ made = {r}) :
    ∃ left, LeftOver g made rest left (g.after e) := by
  cases done with
  | true =>
    have hafter := after_of_givenBack (g := g) hmarks htaken hback fun h => by
      rw [hr] at h
      cases h
    have herase : g.held.erase r = rest := by
      rw [hheld]
      rcases hmade with ⟨rfl, hrest⟩ | rfl
      · rw [zero_add, Multiset.erase_of_notMem hrest]
      · rw [Multiset.singleton_add, Multiset.erase_cons_head]
    rw [hafter, herase]
    exact ⟨0, by rw [zero_add], by simp, by simp⟩
  | false =>
    have hafter := after_of_refused (g := g) hmarks htaken hback hr
    rw [hafter]
    refine ⟨made, by rw [← hheld], fun _ h => h, ?_⟩
    rcases hmade with ⟨rfl, hrest⟩ | rfl
    · simp [hheld, hrest]
    · simp [hheld]

end Step

section Volume

variable {g : Account} {v : VolumeRecord} {m : Made} {rest : Multiset Resource}

theorem undoMount_account (rest : Multiset Resource) (hm : m.mount = true → v.lklMountPoint ≠ [])
    (hheld : g.held = (if m.mount then {.mount v.lklMountPoint} else 0) + rest)
    (hrest : m.mount = false → .mount v.lklMountPoint ∉ rest) :
    accounting.Always (undoMount v) (fun _ g' =>
      ∃ left, LeftOver g (if m.mount then {.mount v.lklMountPoint} else 0) rest left g') g := by
  unfold undoMount
  by_cases hpath : v.lklMountPoint = []
  · have hno : m.mount = false := by
      cases h : m.mount with
      | false => rfl
      | true => exact absurd hpath (hm h)
    rw [if_neg (not_not.mpr hpath)]
    simp only [hno] at hheld ⊢
    exact ⟨0, leftOver_nothing hheld⟩
  · rw [if_pos hpath, accounting, Env.tracking_ask_bind]
    intro rc _
    refine leftOver_call _ _ rfl rfl rfl rfl hheld ?_
    cases h : m.mount with
    | false => exact .inl ⟨rfl, hrest h⟩
    | true => exact .inr rfl

theorem undoBlkDevice_account (rest : Multiset Resource)
    (hm : m.node = true → v.isEncrypted = true ∧ v.lklBlkDevice ≠ [])
    (hheld : g.held = (if m.node then {.node v.lklBlkDevice} else 0) + rest)
    (hrest : m.node = false → .node v.lklBlkDevice ∉ rest) :
    accounting.Always (undoBlkDevice v) (fun _ g' =>
      ∃ left, LeftOver g (if m.node then {.node v.lklBlkDevice} else 0) rest left g') g := by
  unfold undoBlkDevice
  by_cases hpath : v.isEncrypted = true ∧ v.lklBlkDevice ≠ []
  · rw [if_pos hpath, accounting, Env.tracking_ask_bind]
    intro rc _
    refine leftOver_call _ _ rfl rfl rfl rfl hheld ?_
    cases h : m.node with
    | false => exact .inl ⟨rfl, hrest h⟩
    | true => exact .inr rfl
  · have hno : m.node = false := by
      cases h : m.node with
      | false => rfl
      | true => exact absurd (hm h) hpath
    rw [if_neg hpath]
    simp only [hno] at hheld ⊢
    exact ⟨0, leftOver_nothing hheld⟩

theorem undoDisk_account (rest : Multiset Resource) (hm : m.disk = decide (0 ≤ v.lklDiskId))
    (hheld : g.held = (if m.disk then {.disk v.lklDiskId} else 0) + rest)
    (hrest : m.disk = false → .disk v.lklDiskId ∉ rest) :
    accounting.Always (undoDisk v) (fun _ g' =>
      ∃ left, LeftOver g (if m.disk then {.disk v.lklDiskId} else 0) rest left g') g := by
  unfold undoDisk
  by_cases hid : v.lklDiskId ≥ 0
  · rw [if_pos hid, accounting, Env.tracking_ask_bind]
    intro rc _
    refine leftOver_call _ _ rfl rfl rfl rfl hheld ?_
    cases h : m.disk with
    | false => exact .inl ⟨rfl, hrest h⟩
    | true => exact .inr rfl
  · have hno : m.disk = false := by
      rw [hm]
      exact decide_eq_false hid
    rw [if_neg hid]
    simp only [hno] at hheld ⊢
    exact ⟨0, leftOver_nothing hheld⟩

theorem after_open_control {fd : Int} (h : fd < 0) :
    g.after ⟨.sysOpen DEVMAPPER_CONTROL_FILE O_RDWR 0, fd⟩ =
      { g with stuck := g.dmMade || g.stuck } := by
  have hfd : ¬ 0 ≤ fd := by omega
  simp [Account.after, heldAfter, taken, givenBack, strays, fails, createsDevice, makesDmNode,
    opensFile, failsSize, failsAllocation, findsFileSystem, h, hfd]

theorem deleteCryptoBlkDev_account {name : Bytes} {made : Multiset Resource}
    (hmade : made = 0 ∧ g.dmMade = false ∨ made = {.dmDevice (dmName name)} ∧ g.dmMade = true)
    (hheld : g.held = made + rest) (hrest : .dmDevice (dmName name) ∉ rest) :
    accounting.Always (deleteCryptoBlkDev name) (fun _ g' =>
      ∃ left, LeftOver g made rest left g') g := by
  rw [deleteCryptoBlkDev, accounting, Env.tracking_ask_bind]
  intro (fd : Int) _
  by_cases hfd : fd < 0
  · -- the control file cannot be opened, so the device stays
    rw [if_pos hfd, Prog.pure_eq, Prog.ret_bind, Env.tracking_ask_bind]
    intro rc _
    rw [after_sysClose_of_neg hfd, after_open_control hfd]
    refine ⟨made, by rw [← hheld], fun _ h => h, ?_⟩
    rcases hmade with ⟨rfl, hdm⟩ | ⟨rfl, hdm⟩
    · simp [hdm]
    · simp [hdm]
  · rw [if_neg hfd, bind_assoc, Env.tracking_ask_bind]
    intro rc _
    rw [Env.always_bind, Prog.pure_eq, Env.always_ret, Env.tracking_ask_bind]
    intro closed _
    have hopen : g.after ⟨.sysOpen DEVMAPPER_CONTROL_FILE O_RDWR 0, fd⟩ =
        { g with held := .fd fd ::ₘ g.held } := after_sysOpen (by omega)
    have hheld' : Resource.fd fd ::ₘ g.held = made + Resource.fd fd ::ₘ rest := by
      rw [hheld, Multiset.add_cons]
    have hrest' : .dmDevice (dmName name) ∉ Resource.fd fd ::ₘ rest := by simpa using hrest
    obtain ⟨left, heq, hleft, hstuck⟩ := leftOver_call made (.fd fd ::ₘ rest)
      (g := { g with held := .fd fd ::ₘ g.held }) (e := ⟨.dmDevRemove fd (dmName name), rc⟩)
      rfl rfl rfl rfl hheld' (hmade.imp (fun h => ⟨h.1, hrest'⟩) fun h => h.1)
    rw [hopen, after_sysClose (by omega), Prog.pure_eq, Env.always_ret]
    refine ⟨left, ?_, hleft, hstuck⟩
    rw [heq]
    simp [Multiset.add_cons]

theorem undoCryptFS_account (rest : Multiset Resource) (hm : Traced v m) (hdm : g.dmMade = m.dm)
    (hheld : g.held = (if m.dm then {.dmDevice (dmName v.lklCryptFSName)} else 0) + rest)
    (hrest : .dmDevice (dmName v.lklCryptFSName) ∉ rest) :
    accounting.Always (undoCryptFS v) (fun _ g' => ∃ left,
      LeftOver g (if m.dm then {.dmDevice (dmName v.lklCryptFSName)} else 0) rest left g') g := by
  unfold undoCryptFS
  by_cases hname : v.isEncrypted = true ∧ v.lklCryptFSName ≠ []
  · rw [if_pos hname, accounting, Env.always_bind]
    refine (deleteCryptoBlkDev_account ?_ hheld hrest).mono fun _ _ h => h
    cases h : m.dm with
    | false => exact .inl ⟨rfl, hdm.trans h⟩
    | true => exact .inr ⟨rfl, hdm.trans h⟩
  · have hno : m.dm = false := by
      cases h : m.dm with
      | false => rfl
      | true => exact absurd ⟨(hm.node (hm.dm h).1).1, (hm.dm h).2⟩ hname
    rw [if_neg hname]
    simp only [hno] at hheld ⊢
    exact ⟨0, leftOver_nothing hheld⟩

theorem not_mem_made {b : Bool} {r r' : Resource} (h : r ≠ r') :
    r ∉ (if b then {r'} else 0 : Multiset Resource) := by
  cases b <;> simp [h]

theorem not_mem_left {b : Bool} {r r' : Resource} {left : Multiset Resource}
    (hleft : ∀ r ∈ left, r ∈ (if b then {r'} else 0 : Multiset Resource)) (h : r ≠ r') : r ∉ left :=
  fun hr => not_mem_made h (hleft r hr)

def Resource.inKernel : Resource → Bool
  | .pool _ | .file _ | .lock | .diskIo _ _ => false
  | _ => true

/-- Everything is given back, but for what refuses, and for the node of the device-mapper
device. -/
theorem undoVolume_account {base : Multiset Resource} (hm : Traced v m) (hdm : g.dmMade = false)
    (hstuck : g.stuck = false) (hbase : ∀ r ∈ base, r.inKernel = false)
    (hheld : g.held = .pool v.ptr ::ₘ base) :
    accounting.Always (undoVolume v) (fun _ g' => ∃ left stuck,
        g' = { g.noting m with held := left + base, stuck := stuck } ∧
        (∀ r ∈ left, r.inKernel = true) ∧ (left = 0 ↔ stuck = false ∧ m.dmNode = none))
      ((g.noting m).holding (m.held v)) := by
  have hkernel : ∀ {r : Resource}, r.inKernel = true → r ∉ base := by
    intro r hr h
    rw [hbase r h] at hr
    cases hr
  have hnode : ∀ {r : Resource}, (∀ path, r ≠ .node path) → r ∉ nodeHeld m.dmNode := by
    intro r hr
    cases m.dmNode with
    | none => simp [nodeHeld]
    | some path => simpa [nodeHeld] using hr path
  rw [undoVolume, accounting, Env.always_bind]
  refine (undoMount_account (cryptHeld (dmName v.lklCryptFSName) m.dm m.dmNode +
    ((if m.node then {.node v.lklBlkDevice} else 0) + ((if m.disk then {.disk v.lklDiskId} else 0) +
      .pool v.ptr ::ₘ base))) hm.mount ?_ fun _ => ?_).mono ?_
  · simp [Account.holding, Account.noting, Made.held, hheld, add_assoc]
  · simp only [cryptHeld, Multiset.mem_add, Multiset.mem_cons, not_or]
    exact ⟨⟨hnode (by simp), not_mem_made (by simp)⟩, not_mem_made (by simp),
      not_mem_made (by simp), by simp, hkernel rfl⟩
  rintro _ g₁ ⟨l₁, heq₁, hleft₁, hstuck₁⟩
  generalize g₁.stuck = s₁ at heq₁ hstuck₁
  subst heq₁
  rw [Env.always_bind]
  refine (undoCryptFS_account (l₁ + (nodeHeld m.dmNode +
    ((if m.node then {.node v.lklBlkDevice} else 0) + ((if m.disk then {.disk v.lklDiskId} else 0) +
      .pool v.ptr ::ₘ base)))) hm ?_ ?_ ?_).mono ?_
  · simp [Account.holding, Account.noting, hdm]
  · simp [cryptHeld, add_assoc, add_left_comm]
  · simp only [Multiset.mem_add, Multiset.mem_cons, not_or]
    exact ⟨not_mem_left hleft₁ (by simp), hnode (by simp), not_mem_made (by simp),
      not_mem_made (by simp), by simp, hkernel rfl⟩
  rintro _ g₂ ⟨l₂, heq₂, hleft₂, hstuck₂⟩
  generalize g₂.stuck = s₂ at heq₂ hstuck₂
  subst heq₂
  rw [Env.always_bind]
  refine (undoBlkDevice_account (l₂ + (l₁ + (nodeHeld m.dmNode +
    ((if m.disk then {.disk v.lklDiskId} else 0) + .pool v.ptr ::ₘ base)))) hm.node ?_ ?_).mono ?_
  · simp [add_left_comm]
  · intro hno
    have hdmNode : m.dmNode = none := by
      cases h : m.dmNode with
      | none => rfl
      | some path =>
        have := (hm.dm (hm.dmNode (by rw [h]; rfl))).1
        rw [hno] at this
        cases this
    simp only [Multiset.mem_add, Multiset.mem_cons, not_or, hdmNode]
    exact ⟨not_mem_left hleft₂ (by simp), not_mem_left hleft₁ (by simp), by simp [nodeHeld],
      not_mem_made (by simp), by simp, hkernel rfl⟩
  rintro _ g₃ ⟨l₃, heq₃, hleft₃, hstuck₃⟩
  generalize g₃.stuck = s₃ at heq₃ hstuck₃
  subst heq₃
  rw [Env.always_bind]
  refine (undoDisk_account (l₃ + (l₂ + (l₁ + (nodeHeld m.dmNode + .pool v.ptr ::ₘ base))))
    hm.disk ?_ fun _ => ?_).mono ?_
  · simp [add_left_comm]
  · simp only [Multiset.mem_add, Multiset.mem_cons, not_or]
    exact ⟨not_mem_left hleft₃ (by simp), not_mem_left hleft₂ (by simp),
      not_mem_left hleft₁ (by simp), hnode (by simp), by simp, hkernel rfl⟩
  rintro _ g₄ ⟨l₄, heq₄, hleft₄, hstuck₄⟩
  generalize g₄.stuck = s₄ at heq₄ hstuck₄
  subst heq₄
  rw [lklFreeVolume, Env.tracking_ask]
  intro _ _
  rw [after_freePool (by simp)]
  refine ⟨l₄ + (l₃ + (l₂ + (l₁ + nodeHeld m.dmNode))), s₄, ?_, ?_, ?_⟩
  · simp [Account.holding, Account.noting, Multiset.add_cons, add_assoc]
  · have hpart : ∀ {b : Bool} {r r' : Resource},
        r ∈ (if b then {r'} else 0 : Multiset Resource) → r'.inKernel = true →
          r.inKernel = true := by
      intro b r r' hr hr'
      cases b with
      | false => simp at hr
      | true => rwa [Multiset.mem_singleton.mp hr]
    intro r hr
    simp only [Multiset.mem_add] at hr
    rcases hr with hr | hr | hr | hr | hr
    · exact hpart (hleft₄ r hr) rfl
    · exact hpart (hleft₃ r hr) rfl
    · exact hpart (hleft₂ r hr) rfl
    · exact hpart (hleft₁ r hr) rfl
    · cases hdmNode : m.dmNode with
      | none => simp [nodeHeld, hdmNode] at hr
      | some path =>
        rw [hdmNode] at hr
        rw [Multiset.mem_singleton.mp hr]
        rfl
  · have hnone : nodeHeld m.dmNode = 0 ↔ m.dmNode = none := by
      cases m.dmNode <;> simp [nodeHeld]
    simp only [Account.holding, Account.noting, hstuck] at hstuck₁ hstuck₂ hstuck₃ hstuck₄
    simp only [held_add_eq_zero, hnone, hstuck₄, hstuck₃, hstuck₂, hstuck₁,
      true_and]
    constructor
    · rintro ⟨h₄, h₃, h₂, h₁, h⟩
      exact ⟨⟨⟨⟨h₁, h₂⟩, h₃⟩, h₄⟩, h⟩
    · rintro ⟨⟨⟨⟨h₁, h₂⟩, h₃⟩, h₄⟩, h⟩
      exact ⟨h₄, h₃, h₂, h₁, h⟩

end Volume

structure Account.Fresh (g : Account) : Prop where
  dmMade : g.dmMade = false
  stuck : g.stuck = false
  dmNode : g.dmNode = false
  fileOpened : g.fileOpened = false
  sizeFailed : g.sizeFailed = false
  allocationFailed : g.allocationFailed = false

/-- Nothing refused to be given back, no node of a device-mapper device was made, and once a file
was opened its size was told and memory was there. -/
def Account.Undoable (g : Account) : Prop :=
  g.stuck = false ∧ g.dmNode = false ∧
    (g.fileOpened = false ∨ g.sizeFailed = false ∧ g.allocationFailed = false)

structure LeftBehind (g : Account) (left : Multiset Resource) (g' : Account) : Prop where
  held : g'.held = left + g.held
  strayed : g'.strayed = g.strayed
  nothing : left = 0 ↔ g'.Undoable

def NoProtocol (left : Multiset Resource) : Prop := ∀ c two, .diskIo c two ∉ left

section Allocate

variable {g : Account} {v : VolumeRecord} {p : Partition} {c : Controller} {media : Media}
  {buffer : Nat} {hasDiskIo2 : Bool}

def keyHeld : Partition → Multiset Resource
  | .plain _ => 0
  | .encrypted keyFile key _ _ => {.pool key, .file keyFile}

theorem dropPartition_account {base : Multiset Resource} (h : g.held = keyHeld p + base) :
    accounting.Always (dropPartition p) (fun _ g' => g' = { g with held := base }) g := by
  cases p with
  | plain fsType =>
    show g = _
    rw [keyHeld, zero_add] at h
    rw [← h]
  | encrypted keyFile key size data =>
    have hheld : g.held = .pool key ::ₘ .file keyFile ::ₘ base := by simp [h, keyHeld]
    exact dropKey_account hheld

theorem withVolume_account {ptr : Nat} {base : Multiset Resource} (hdm : g.dmMade = false)
    (hstuck : g.stuck = false) (hnode : g.dmNode = false) (hbase : ∀ r ∈ base, r.inKernel = false)
    (hheld : g.held = .pool ptr ::ₘ (keyHeld p + base)) :
    accounting.Always (withVolume buffer c hasDiskIo2 media p ptr) (fun status g' =>
      status.isError = true → ∃ left stuck dmMade dmNode,
        g' = { g with held := left + base, stuck := stuck, dmMade := dmMade, dmNode := dmNode } ∧
        (∀ r ∈ left, r.inKernel = true) ∧ (left = 0 ↔ stuck = false ∧ dmNode = false)) g := by
  rw [withVolume, accounting, Env.always_bind]
  refine (startVolume_account rfl hdm ?_).mono ?_
  · rintro keyFile key size data rfl
    rfl
  rintro ⟨status, v⟩ g₁ ⟨m, hm, hptr, h⟩
  dsimp only at hm hptr h ⊢
  rcases h with ⟨herror, rfl⟩ | ⟨hok, -⟩
  · have hkey : ∀ r ∈ keyHeld p + base, r.inKernel = false := by
      intro r hr
      rcases Multiset.mem_add.mp hr with hr | hr
      · cases p with
        | plain fsType => simp [keyHeld] at hr
        | encrypted keyFile key size data =>
          simp only [keyHeld, Multiset.insert_eq_cons, Multiset.mem_cons,
            Multiset.mem_singleton] at hr
          rcases hr with rfl | rfl <;> rfl
      · exact hbase r hr
    rw [if_pos herror, Env.always_bind]
    refine (undoVolume_account hm hdm hstuck hkey (by rw [hheld, hptr]; rfl)).mono ?_
    rintro _ _ ⟨left, stuck, rfl, hkernel, hleft⟩
    rw [Env.always_bind]
    refine (dropPartition_account (add_left_comm left (keyHeld p) base)).mono ?_
    rintro _ _ rfl _
    refine ⟨left, stuck, _, _, rfl, hkernel, hleft.trans ?_⟩
    cases hdmNode : m.dmNode <;> simp [Account.noting, hnode, hdmNode]
  · have hends : (dropPartition p >>= fun _ => (pure status : Firmware EfiStatus)).Ends
        (· = status) := Prog.ends_true.bind fun _ _ => rfl
    rw [if_neg (by simp [hok])]
    refine hends.always.mono ?_
    rintro _ _ rfl herror
    rw [hok] at herror
    cases herror

theorem leftBehind_nothing (hg : g.Fresh) : LeftBehind g 0 g :=
  ⟨by rw [zero_add], rfl, iff_of_true rfl ⟨hg.stuck, hg.dmNode, .inl hg.fileOpened⟩⟩

theorem noProtocol_zero : NoProtocol 0 := by simp [NoProtocol]

theorem lookAccount_goOn {g₁ : Account} (hg : g.Fresh) (h : lookAccount g (.goOn p) g₁) :
    ∃ opened, g₁ = { g with held := keyHeld p + g.held, fileOpened := opened } ∧
      (keyHeld p = 0 ↔ opened = false) := by
  cases p with
  | plain fsType => exact ⟨false, by rw [h, keyHeld, zero_add, ← hg.fileOpened], by simp [keyHeld]⟩
  | encrypted keyFile key size data =>
    refine ⟨true, ?_, by simp [keyHeld]⟩
    rw [h, Account.withKey]
    simp [keyHeld]

theorem lklAllocateVolume_account (hg : g.Fresh) (hbase : ∀ r ∈ g.held, r.inKernel = false) :
    accounting.Always (lklAllocateVolume buffer c hasDiskIo2 media)
      (fun status g' => status.isError = true →
        ∃ left, LeftBehind g left g' ∧ NoProtocol left) g := by
  rw [lklAllocateVolume, accounting, Env.always_bind]
  refine look_account.mono ?_
  intro l g₁ hl
  cases l with
  | leave status =>
    intro _
    rcases hl.2 with rfl | ⟨file, rfl | rfl⟩
    · exact ⟨0, leftBehind_nothing hg, noProtocol_zero⟩
    · refine ⟨{.file file}, ⟨rfl, rfl, iff_of_false (by simp) ?_⟩, by simp [NoProtocol]⟩
      rintro ⟨-, -, h | ⟨h, -⟩⟩ <;> cases h
    · refine ⟨{.file file}, ⟨rfl, rfl, iff_of_false (by simp) ?_⟩, by simp [NoProtocol]⟩
      rintro ⟨-, -, h | ⟨-, h⟩⟩ <;> cases h
  | done status keyFile key =>
    obtain ⟨-, rfl⟩ := hl
    dsimp only
    rw [Env.always_bind]
    have hheld : (g.withKey keyFile key).held = .pool key ::ₘ .file keyFile ::ₘ g.held := rfl
    refine (dropKey_account hheld).mono ?_
    rintro _ _ rfl _
    refine ⟨0, ⟨(zero_add _).symm, rfl, iff_of_true rfl ⟨hg.stuck, hg.dmNode, .inr ?_⟩⟩,
      noProtocol_zero⟩
    exact ⟨hg.sizeFailed, hg.allocationFailed⟩
  | goOn p =>
    obtain ⟨opened, rfl, hopened⟩ := lookAccount_goOn hg hl
    dsimp only
    rw [Env.tracking_ask_bind]
    intro ptr _
    cases ptr with
    | none =>
      intro _
      have hafter : ({ g with held := keyHeld p + g.held, fileOpened := opened } : Account).after
          ⟨.allocatePool lklVolumeSize, none⟩ =
          { g with
            held := keyHeld p + g.held
            fileOpened := opened
            allocationFailed := true } := rfl
      rw [hafter]
      refine ⟨keyHeld p, ⟨rfl, rfl, hopened.trans ?_⟩, fun c two => by cases p <;> simp [keyHeld]⟩
      simp [Account.Undoable, hg.stuck, hg.dmNode]
    | some ptr =>
      have hheld : (({ g with held := keyHeld p + g.held, fileOpened := opened } : Account).after
          ⟨.allocatePool lklVolumeSize, some ptr⟩).held = .pool ptr ::ₘ (keyHeld p + g.held) := rfl
      refine (withVolume_account ?_ ?_ ?_ hbase hheld).mono ?_
      · exact hg.dmMade
      · exact hg.stuck
      · exact hg.dmNode
      intro status g₂ h herror
      obtain ⟨left, stuck, dmMade, dmNode, rfl, hkernel, hleft⟩ := h herror
      refine ⟨left, ⟨rfl, rfl, hleft.trans ?_⟩, fun c two hmem => ?_⟩
      · exact ⟨fun h => ⟨h.1, h.2, .inr ⟨hg.sizeFailed, hg.allocationFailed⟩⟩,
          fun h => ⟨h.1, h.2.1⟩⟩
      · cases hkernel _ hmem

end Allocate

section Start

variable {g : Account} {c : Controller} {buffer : Nat}

theorem closeDiskIo_account {g g₁ : Account} {two : Bool} {left : Multiset Resource}
    (h : LeftBehind { g with held :=
      (if two then {.diskIo c true} else 0) + .diskIo c false ::ₘ g.held }
      left g₁) (hleft : NoProtocol left) (hbase : NoProtocol g.held) (status : EfiStatus) :
    accounting.Always (do
        let _ ← Prog.ask (DriverCall.closeDiskIo c false)
        let _ ← Prog.ask (DriverCall.closeDiskIo c true)
        pure status : Firmware EfiStatus) (fun _ g' => ∃ left, LeftBehind g left g') g₁ := by
  obtain ⟨hheld, hstray, hiff⟩ := h
  rw [accounting, Env.tracking_ask_bind]
  intro closed _
  obtain ⟨l₁, heq₁, hleft₁, hstuck₁⟩ :=
    leftOver_call (g := g₁) (e := ⟨.closeDiskIo c false, closed⟩)
    {.diskIo c false} (left + ((if two then {.diskIo c true} else 0) + g.held))
    rfl rfl rfl rfl (by simp [hheld, add_left_comm, Multiset.singleton_add]) (.inr rfl)
  generalize g₁.after ⟨.closeDiskIo c false, closed⟩ = g₂ at heq₁ hstuck₁ ⊢
  generalize g₂.stuck = s₂ at heq₁ hstuck₁
  subst heq₁
  rw [Env.tracking_ask_bind]
  intro closed' _
  obtain ⟨l₂, heq₂, hleft₂, hstuck₂⟩ := leftOver_call (if two then {.diskIo c true} else 0)
    (l₁ + (left + g.held)) (g := { g₁ with
      held := l₁ + (left + ((if two then {.diskIo c true} else 0) + g.held))
      stuck := s₂ }) (e := ⟨.closeDiskIo c true, closed'⟩)
    rfl rfl rfl rfl (by simp [add_left_comm]) (by
      cases two with
      | true => exact .inr rfl
      | false =>
        have h₁ : Resource.diskIo c true ∉ l₁ := fun hmem => by simpa using hleft₁ _ hmem
        exact .inl ⟨rfl, by simp [h₁, hleft c true, hbase c true]⟩)
  rw [Prog.pure_eq, Env.always_ret]
  generalize Account.after _ ⟨.closeDiskIo c true, closed'⟩ = g₃ at heq₂ hstuck₂ ⊢
  generalize g₃.stuck = s₃ at heq₂ hstuck₂
  subst heq₂
  refine ⟨l₂ + (l₁ + left), by simp [add_assoc], hstray, ?_⟩
  rw [held_add_eq_zero, held_add_eq_zero, hiff, Account.Undoable, Account.Undoable]
  dsimp only at hstuck₁ hstuck₂ ⊢
  rw [hstuck₂, hstuck₁]
  constructor
  · rintro ⟨h₂, h₁, h, hrest⟩
    exact ⟨⟨⟨h, h₁⟩, h₂⟩, hrest⟩
  · rintro ⟨⟨⟨h, h₁⟩, h₂⟩, hrest⟩
    exact ⟨h₂, h₁, h, hrest⟩

theorem initializeVolume_account (hg : g.Fresh) (hbase : ∀ r ∈ g.held, r = .lock) :
    accounting.Always (initializeVolume buffer c)
      (fun status g' => status.isError = true → ∃ left, LeftBehind g left g') g := by
  rw [initializeVolume, accounting, Env.tracking_ask_bind]
  intro (collation : EfiStatus) _
  have hquiet : g.after ⟨.initializeUnicodeCollationSupport, collation⟩ = g :=
    after_of_quiet rfl rfl rfl rfl
  rw [hquiet]
  by_cases hcollation : collation.isError = true
  · rw [if_pos hcollation]
    exact fun _ => ⟨0, leftBehind_nothing hg⟩
  rw [if_neg hcollation, Env.tracking_ask_bind]
  intro media hmedia
  have hquiet : g.after ⟨.getBlockIo c, media⟩ = g := after_of_quiet rfl rfl rfl rfl
  rw [hquiet]
  cases media with
  | error status => exact fun _ => ⟨0, leftBehind_nothing hg⟩
  | ok media =>
    dsimp only
    rw [Env.tracking_ask_bind]
    intro (disk : EfiStatus) _
    by_cases hdisk : disk.isError = true
    · rw [if_pos hdisk]
      have hquiet : g.after ⟨.openDiskIo c false, disk⟩ = g :=
        after_of_quiet rfl (if_pos hdisk) rfl rfl
      rw [hquiet]
      exact fun _ => ⟨0, leftBehind_nothing hg⟩
    rw [if_neg hdisk, Env.tracking_ask_bind]
    intro (disk2 : EfiStatus) _
    have hopen : (g.after ⟨.openDiskIo c false, disk⟩).after ⟨.openDiskIo c true, disk2⟩ =
        { g with
          held := (if !disk2.isError then {.diskIo c true} else 0) +
            .diskIo c false ::ₘ g.held } := by
      have hfirst : g.after ⟨.openDiskIo c false, disk⟩ =
          { g with held := .diskIo c false ::ₘ g.held } := after_of_taken rfl (if_neg hdisk) rfl rfl
      rw [hfirst]
      cases hdisk2 : disk2.isError with
      | true =>
        have htaken : taken ⟨.openDiskIo c true, disk2⟩ = none := if_pos hdisk2
        rw [after_of_quiet rfl htaken rfl rfl]
        simp
      | false =>
        have htaken : taken ⟨.openDiskIo c true, disk2⟩ = some (.diskIo c true) :=
          if_neg (by simp [hdisk2])
        rw [after_of_taken rfl htaken rfl rfl]
        simp only [Bool.not_false, if_true, Multiset.singleton_add]
    rw [hopen, Env.always_bind]
    refine (lklAllocateVolume_account ?_ ?_).mono ?_
    · exact ⟨hg.dmMade, hg.stuck, hg.dmNode, hg.fileOpened, hg.sizeFailed, hg.allocationFailed⟩
    · intro r hr
      simp only [Multiset.mem_add, Multiset.mem_cons] at hr
      rcases hr with hr | rfl | hr
      · cases h : disk2.isError with
        | true => simp [h] at hr
        | false =>
          simp only [h, Bool.not_false, if_true, Multiset.mem_singleton] at hr
          rw [hr]
          rfl
      · rfl
      · rw [hbase r hr]
        rfl
    intro status g₁ h
    by_cases hstatus : status.isError = true
    swap
    · rw [if_neg hstatus]
      exact fun h => absurd h hstatus
    rw [if_pos hstatus, Env.tracking_ask_bind]
    intro (found : EfiStatus) _
    by_cases hfound : found.isError = true
    swap
    · rw [if_neg hfound]
      exact fun h => absurd h hfound
    have hquiet : g₁.after ⟨.testFileSystem c, found⟩ = g₁ := by
      refine after_of_quiet ?_ rfl rfl rfl
      simp [findsFileSystem, hfound]
    rw [if_pos hfound, hquiet]
    obtain ⟨left, hbehind, hprotocol⟩ := h hstatus
    refine (closeDiskIo_account hbehind hprotocol ?_ found).mono fun _ _ h _ => h
    intro c two hmem
    cases hbase _ hmem

theorem lklDriverBindingStart_account :
    accounting.Always (lklDriverBindingStart buffer c)
      (fun status g' => status.isError = true → ∃ left, LeftBehind .empty left g') .empty := by
  rw [lklDriverBindingStart, accounting, Env.tracking_ask_bind]
  intro (locked : EfiStatus) _
  cases hlocked : locked.isError with
  | true =>
    have hquiet : Account.empty.after ⟨.acquireLock, locked⟩ = .empty :=
      after_of_quiet rfl (if_pos hlocked) rfl rfl
    rw [hquiet, Env.always_bind]
    refine (initializeVolume_account ⟨rfl, rfl, rfl, rfl, rfl, rfl⟩ ?_).mono ?_
    · simp [Account.empty]
    · intro status g' h
      simpa using h
  | false =>
    have htaken : taken ⟨.acquireLock, locked⟩ = some .lock := if_neg (by simp [hlocked])
    have hlock : Account.empty.after ⟨.acquireLock, locked⟩ =
        { Account.empty with held := {.lock} } :=
      after_of_taken rfl htaken rfl rfl
    rw [hlock, Env.always_bind]
    refine (initializeVolume_account ⟨rfl, rfl, rfl, rfl, rfl, rfl⟩ ?_).mono ?_
    · simp
    · intro status g₁ h
      rw [if_neg (by simp), Env.tracking_ask_bind]
      intro _ _ herror
      obtain ⟨left, hheld, hstrayed, hnothing⟩ := h herror
      have hheld' : g₁.held = .lock ::ₘ left := by
        rw [hheld, add_comm, Multiset.singleton_add]
      have hrelease : g₁.after ⟨.releaseLock, ()⟩ = { g₁ with held := left } := by
        rw [after_of_givenBack rfl rfl rfl fun _ => hheld' ▸ Multiset.mem_cons_self _ _, hheld',
          Multiset.erase_cons_head]
      rw [hrelease]
      exact ⟨left, (add_zero left).symm, hstrayed, hnothing⟩

end Start

/-- Everything that was taken was given back, and nothing else was. -/
def Balanced (t : DriverTrace) : Prop := (account t).held = 0 ∧ (account t).strayed = false

/-- A failed start, of a volume or of a controller, leaves nothing behind exactly when it was
undoable. -/
theorem failedStart_balanced_iff {buffer : Nat} {c : Controller} {hasDiskIo2 : Bool} {media : Media}
    {t : DriverTrace} {status : EfiStatus}
    (h : (lklAllocateVolume buffer c hasDiskIo2 media).Exec t status ∨
      (lklDriverBindingStart buffer c).Exec t status)
    (hdoc : ∀ e ∈ t, documented e = true) (herror : status.isError = true) :
    Balanced t ↔ (account t).Undoable := by
  have hleft : ∃ left, LeftBehind .empty left (account t) := by
    rcases h with h | h
    · have hnothing : ∀ r ∈ Account.empty.held, r.inKernel = false := by simp [Account.empty]
      have halways := Env.tracking_always_iff.mp (lklAllocateVolume_account
        ⟨rfl, rfl, rfl, rfl, rfl, rfl⟩ hnothing) t status h hdoc herror
      obtain ⟨left, h, -⟩ := halways
      exact ⟨left, h⟩
    · exact Env.tracking_always_iff.mp lklDriverBindingStart_account t status h hdoc herror
  obtain ⟨left, hheld, hstrayed, hnothing⟩ := hleft
  rw [← hnothing, Balanced, hheld, hstrayed]
  simp [Account.empty]

def failingKernel (partition : List UInt16) : Handler DriverCall DriverCall.Ans Unit
  | .partitionName _, g => (.ok partition, g)
  | .devicePath _, g =>
    (some [⟨MEDIA_DEVICE_PATH, MEDIA_HARDDRIVE_DP, SIGNATURE_TYPE_GUID, List.replicate 16 0⟩], g)
  | .locateFileSystems, g => (.ok (7, [0]), g)
  | .fileGetSize _, g => (.error .deviceError, g)
  | .testFileSystem _, g => (.unsupported, g)
  | c, g => (c.granted, g)

def failingTrace (partition : List UInt16) : DriverTrace :=
  (lklDriverBindingStart 0 0).trace (failingKernel partition) ()

theorem failingTrace_exec (partition : List UInt16)
    (h : ((lklDriverBindingStart 0 0).run (failingKernel partition) ()).1 = .unsupported) :
    (lklDriverBindingStart 0 0).Exec (failingTrace partition) .unsupported := by
  have hexec := Prog.exec_trace (failingKernel partition) (lklDriverBindingStart 0 0) ()
  rwa [h] at hexec

/-- A partition without a known file system. -/
theorem failedStart_balanced_iff_unknown :
    (lklDriverBindingStart 0 0).Exec (failingTrace []) .unsupported ∧
      Balanced (failingTrace []) := by
  have hexec := failingTrace_exec [] (by decide)
  have hiff := @failedStart_balanced_iff 0 0 false ⟨0, false⟩ _ _ (.inr hexec) (by decide) rfl
  exact ⟨hexec, hiff.mpr ⟨by decide, by decide, by decide⟩⟩

/-- An encrypted partition, the size of whose key file is not told: the file stays open. -/
theorem failedStart_unbalanced :
    ∃ t, (lklDriverBindingStart 0 0).Exec t .unsupported ∧ (∀ e ∈ t, documented e = true) ∧
      ¬Balanced t := by
  refine ⟨failingTrace (wideString "android_expand"), failingTrace_exec _ (by decide), by decide,
    ?_⟩
  intro h
  exact absurd h.1 (by decide)

end UefiLkl
