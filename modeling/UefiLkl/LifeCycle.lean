import UefiLkl.Started
set_option autoImplicit false

/-!
Starting and stopping controllers in any order: what a stop leaves of the start before it.
-/

namespace UefiLkl
open Interaction

inductive DriverRequest where
  | start (c : Controller)
  | stop (c : Controller)
  deriving DecidableEq, Repr

def DriverRequest.serve (buffer : Nat) : DriverRequest → Firmware EfiStatus
  | .start c => lklDriverBindingStart buffer c
  | .stop c => lklDriverBindingStop c

/-- A request, what was called for it, and its result. -/
structure Service where
  request : DriverRequest
  trace : DriverTrace
  status : EfiStatus

structure Service.Served (buffer : Nat) (s : Service) : Prop where
  exec : (s.request.serve buffer).Exec s.trace s.status
  documented : ∀ e ∈ s.trace, documented e = true

def accountOf (run : List Service) : Account := account (run.flatMap Service.trace)

def Restored (before after : Multiset Resource) (t : DriverTrace) : Prop :=
  ∀ e ∈ t, ∀ r, taken e = some r → after.count r = before.count r

def DriverCall.onDisks : DriverCall → Bool
  | .diskAdd _ _ | .diskRemove _ _ => true
  | _ => false

def KeepsDisks (g g' : Account) : Prop :=
  ∀ id, g.held.count (.disk id) ≤ g'.held.count (.disk id)

section Disks

variable {g : Account} {c : Controller}

theorem onDisks_of_setsUp (params : Bytes) {c : DriverCall} (h : c.setsUp params = true) :
    c.onDisks = false := by
  cases c <;> first | rfl | cases h

theorem count_heldAfter {held : Multiset Resource} {e : DriverEvent} {r : Resource}
    (htaken : taken e ≠ some r) (hback : ∀ done, givenBack e ≠ some (r, done)) :
    (heldAfter held e).count r = held.count r := by
  unfold heldAfter
  split
  · rename_i r' h
    exact Multiset.count_cons_of_ne (fun hr => htaken (by rw [h, hr])) _
  · split
    · rename_i r' h
      exact Multiset.count_erase_of_ne (fun hr => hback true (by rw [h, hr])) _
    · rfl

theorem taken_ne_disk {e : DriverEvent} (h : e.1.onDisks = false) (id : Int) :
    taken e ≠ some (.disk id) := by
  intro h'
  unfold taken at h'
  split at h' <;> simp_all [DriverCall.onDisks]

theorem givenBack_ne_disk {e : DriverEvent} (h : e.1.onDisks = false) (id : Int) (done : Bool) :
    givenBack e ≠ some (.disk id, done) := by
  intro h'
  unfold givenBack at h'
  split at h' <;> simp_all [DriverCall.onDisks]

theorem count_disk_after {e : DriverEvent} (h : e.1.onDisks = false) (id : Int) :
    (g.after e).held.count (.disk id) = g.held.count (.disk id) :=
  count_heldAfter (taken_ne_disk h id) (givenBack_ne_disk h id)

theorem keepsDisks_of_only {α : Type} {p : Firmware α} (hp : p.Only fun c => c.onDisks = false) :
    accounting.Always p (fun _ g' => KeepsDisks g g') g := by
  refine Env.always_of_invariant (P := fun c => c.onDisks = false) ?_ hp fun _ => le_refl _
  rintro g₁ c x _ hc hg ⟨-, rfl⟩ id
  rw [count_disk_after hc]
  exact hg id

theorem mountDecrypted_disks {v : VolumeRecord} {devId : Nat} :
    (mountDecrypted v devId).Only (fun c => c.onDisks = false) ∧
      (mountDecrypted v devId).Ends (fun r => r.2.lklDiskId = v.lklDiskId) := by
  have hmake : ∀ path, (lklMakeDir path).Only fun c => c.onDisks = false := by
    intro path
    refine Prog.only_ask_bind.mpr ⟨rfl, fun (rc : Int) => ?_⟩
    split <;> trivial
  constructor
  · refine Prog.Only.bind (getFsTypeLkl_setsUp.mono fun c h => onDisks_of_setsUp [] h) ?_
    intro found
    cases found with
    | error s => trivial
    | ok fsType =>
      refine (hmake _).bind fun status => ?_
      split
      · trivial
      · refine Prog.only_ask_bind.mpr ⟨rfl, fun (rc : Int) => ?_⟩
        split <;> trivial
  · refine Prog.ends_true.bind fun found _ => ?_
    cases found with
    | error s => rfl
    | ok fsType =>
      refine Prog.ends_true.bind fun status _ => ?_
      split
      · rfl
      · refine Prog.ends_ask_bind.mpr fun (rc : Int) => ?_
        split <;> rfl

theorem mountEncrypted_disks {v : VolumeRecord} {buffer : Nat} {key : Bytes} {size : Nat} :
    (mountEncrypted buffer v key size).Only (fun c => c.onDisks = false) ∧
      (mountEncrypted buffer v key size).Ends (fun r => r.2.lklDiskId = v.lklDiskId) := by
  constructor
  · refine Prog.only_ask_bind.mpr ⟨rfl, fun ⟨rc, devId⟩ => ?_⟩
    dsimp only
    split
    · trivial
    refine Prog.only_ask_bind.mpr ⟨rfl, fun (rc : Int) => ?_⟩
    split
    · trivial
    refine Prog.Only.bind (cryptfsSetupExtVolume_setsUp.mono fun c h => onDisks_of_setsUp _ h) ?_
    rintro ⟨rc, dev⟩
    dsimp only
    split
    · trivial
    · exact mountDecrypted_disks.1
  · refine Prog.ends_ask_bind.mpr fun ⟨rc, devId⟩ => ?_
    dsimp only
    split
    · rfl
    refine Prog.ends_ask_bind.mpr fun (rc : Int) => ?_
    split
    · rfl
    refine Prog.ends_true.bind fun ⟨rc, dev⟩ _ => ?_
    dsimp only
    split
    · rfl
    · exact mountDecrypted_disks.2

theorem mountPartition_disks {v : VolumeRecord} {buffer : Nat} {p : Partition} :
    (mountPartition buffer v p).Only (fun c => c.onDisks = false) ∧
      (mountPartition buffer v p).Ends (fun r => r.2.lklDiskId = v.lklDiskId) := by
  cases p with
  | encrypted keyFile key size data => exact mountEncrypted_disks
  | plain fsType =>
    constructor
    · refine Prog.only_ask_bind.mpr ⟨rfl, fun ⟨rc, dir⟩ => ?_⟩
      dsimp only
      split <;> trivial
    · refine Prog.ends_ask_bind.mpr fun ⟨rc, dir⟩ => ?_
      dsimp only
      split <;> rfl

/-- The disk that was registered, or none, is the one of the volume. -/
def Registers (g g' : Account) (id : Int) : Prop :=
  ∀ i, g.held.count (.disk i) + (if 0 ≤ id ∧ i = id then 1 else 0) ≤ g'.held.count (.disk i)

theorem startVolume_disks {buffer : Nat} {v : VolumeRecord} {p : Partition}
    (hid : v.lklDiskId = -1) :
    accounting.Always (startVolume buffer c v p) (fun r g' => Registers g g' r.2.lklDiskId) g := by
  rw [startVolume, accounting, Env.tracking_ask_bind]
  intro (id : Int) _
  by_cases hneg : id < 0
  · rw [if_pos hneg]
    have hadd : g.after ⟨.diskAdd v.ptr c, id⟩ = g :=
      after_of_quiet rfl (if_neg (Int.not_le.mpr hneg)) rfl rfl
    rw [hadd]
    intro i
    simp [hid]
  rw [if_neg hneg]
  have hpos : 0 ≤ id := Int.not_lt.mp hneg
  have htaken : taken ⟨.diskAdd v.ptr c, id⟩ = some (.disk id) := if_pos hpos
  rw [after_of_taken rfl htaken rfl rfl, Env.always_bind]
  refine ((keepsDisks_of_only mountPartition_disks.1).and mountPartition_disks.2.always).mono ?_
  rintro ⟨status, w⟩ g₁ ⟨hkeeps, hdisk⟩
  have hregisters : Registers g g₁ w.lklDiskId := by
    intro i
    refine le_trans ?_ (hkeeps i)
    dsimp only at hdisk ⊢
    rw [hdisk, Multiset.count_cons]
    by_cases hi : i = id
    · simp [hi, hpos]
    · simp [hi]
  dsimp only
  split
  · exact hregisters
  · rw [Env.tracking_ask_bind]
    intro (installed : EfiStatus) _
    have hinstall : Registers g (g₁.after ⟨.installFileSystem w, installed⟩) w.lklDiskId := by
      intro i
      rw [count_disk_after rfl]
      exact hregisters i
    split
    · exact hinstall
    · exact hinstall

/-- At most the disk of the volume is removed, and once. -/
def Unregisters (g g' : Account) (id : Int) : Prop :=
  ∀ i, g.held.count (.disk i) ≤ g'.held.count (.disk i) + if 0 ≤ id ∧ i = id then 1 else 0

theorem undoDisk_disks {v : VolumeRecord} :
    accounting.Always (undoDisk v) (fun _ g' => Unregisters g g' v.lklDiskId) g := by
  unfold undoDisk
  by_cases hid : v.lklDiskId ≥ 0
  · rw [if_pos hid, accounting, Env.tracking_ask_bind]
    intro (rc : Int) _ i
    by_cases hrc : 0 ≤ rc
    · have hback : givenBack ⟨.diskRemove v.ptr v.lklDiskId, rc⟩ =
          some (.disk v.lklDiskId, true) := by
        simp [givenBack, hrc]
      have hheld : (g.after ⟨.diskRemove v.ptr v.lklDiskId, rc⟩).held =
          g.held.erase (.disk v.lklDiskId) := by
        simp [Account.after, heldAfter, taken, hback]
      rw [hheld]
      by_cases hi : i = v.lklDiskId
      · rw [hi, if_pos ⟨hid, rfl⟩, Multiset.count_erase_self]
        omega
      · have hne : Resource.disk i ≠ .disk v.lklDiskId := by simpa using hi
        rw [Multiset.count_erase_of_ne hne]
        exact Nat.le_add_right _ _
    · have hback : givenBack ⟨.diskRemove v.ptr v.lklDiskId, rc⟩ =
          some (.disk v.lklDiskId, false) := by
        simp [givenBack, hrc]
      have hheld : (g.after ⟨.diskRemove v.ptr v.lklDiskId, rc⟩).held = g.held := by
        simp [Account.after, heldAfter, taken, hback]
      rw [hheld]
      exact Nat.le_add_right _ _
  · rw [if_neg hid]
    exact fun i => Nat.le_add_right _ _

theorem undoVolume_disks {v : VolumeRecord} :
    accounting.Always (undoVolume v) (fun _ g' => Unregisters g g' v.lklDiskId) g := by
  have hmount : (undoMount v).Only fun c => c.onDisks = false := by
    unfold undoMount
    split
    · exact Prog.only_ask_bind.mpr ⟨rfl, fun _ => trivial⟩
    · trivial
  have hcrypt : (undoCryptFS v).Only fun c => c.onDisks = false := by
    unfold undoCryptFS
    split
    swap
    · trivial
    refine Prog.Only.bind (Prog.only_ask_bind.mpr ⟨rfl, fun (fd : Int) => ?_⟩) fun _ => trivial
    refine Prog.Only.bind ?_ fun _ => Prog.only_ask_bind.mpr ⟨rfl, fun _ => trivial⟩
    split
    · trivial
    · exact Prog.only_ask_bind.mpr ⟨rfl, fun _ => trivial⟩
  have hnode : (undoBlkDevice v).Only fun c => c.onDisks = false := by
    unfold undoBlkDevice
    split
    · exact Prog.only_ask_bind.mpr ⟨rfl, fun _ => trivial⟩
    · trivial
  have hfree : (lklFreeVolume v).Only fun c => c.onDisks = false := ⟨rfl, fun _ => trivial⟩
  have hbefore : (undoMount v >>= fun _ => undoCryptFS v >>= fun _ => undoBlkDevice v).Only
      fun c => c.onDisks = false := hmount.bind fun _ => hcrypt.bind fun _ => hnode
  have heq : undoVolume v =
      (undoMount v >>= fun _ => undoCryptFS v >>= fun _ => undoBlkDevice v) >>=
      fun _ => undoDisk v >>= fun _ => lklFreeVolume v := by
    simp only [undoVolume, bind_assoc]
  rw [heq, Env.always_bind]
  refine (keepsDisks_of_only hbefore).mono ?_
  intro _ g₁ h₁
  rw [Env.always_bind]
  refine undoDisk_disks.mono ?_
  intro _ g₂ h₂
  refine (keepsDisks_of_only hfree).mono ?_
  intro _ g₃ h₃ i
  exact (h₁ i).trans ((h₂ i).trans (Nat.add_le_add_right (h₃ i) _))

theorem withVolume_disks {buffer ptr : Nat} {hasDiskIo2 : Bool} {media : Media} {p : Partition} :
    accounting.Always (withVolume buffer c hasDiskIo2 media p ptr)
      (fun _ g' => KeepsDisks g g') g := by
  have hdrop : ∀ status : EfiStatus,
      (dropPartition p >>= fun _ => (pure status : Firmware EfiStatus)).Only
      fun c => c.onDisks = false :=
    fun status => (dropPartition_setsUp.mono fun c h => onDisks_of_setsUp [] h).bind
      fun _ => trivial
  rw [withVolume, Env.always_bind]
  refine (startVolume_disks rfl).mono ?_
  rintro ⟨status, v⟩ g₁ h₁
  dsimp only at h₁ ⊢
  split
  · rw [Env.always_bind]
    refine undoVolume_disks.mono ?_
    intro _ g₂ h₂
    refine (keepsDisks_of_only (hdrop status)).mono ?_
    intro _ g₃ h₃ i
    have hle := (h₁ i).trans (h₂ i)
    exact (Nat.le_of_add_le_add_right hle).trans (h₃ i)
  · refine (keepsDisks_of_only (hdrop status)).mono ?_
    intro _ g₂ h₂ i
    exact (Nat.le_of_add_right_le (h₁ i)).trans (h₂ i)

theorem KeepsDisks.trans {g₁ g₂ g₃ : Account} (h : KeepsDisks g₁ g₂) (h' : KeepsDisks g₂ g₃) :
    KeepsDisks g₁ g₃ := fun id => (h id).trans (h' id)

theorem lklAllocateVolume_disks {buffer : Nat} {hasDiskIo2 : Bool} {media : Media} :
    accounting.Always (lklAllocateVolume buffer c hasDiskIo2 media) (fun _ g' => KeepsDisks g g')
      g := by
  rw [lklAllocateVolume, Env.always_bind]
  refine (keepsDisks_of_only
    (look_setsUp.mono fun c h => onDisks_of_setsUp [] h)).mono ?_
  intro l g₁ h₁
  cases l with
  | leave status => exact h₁
  | done status keyFile key =>
    have hdrop : (dropKey key keyFile >>= fun _ => (pure status : Firmware EfiStatus)).Only
        fun c => c.onDisks = false :=
      Prog.only_ask_bind.mpr ⟨rfl, fun _ => Prog.only_ask_bind.mpr ⟨rfl, fun _ => trivial⟩⟩
    exact (keepsDisks_of_only hdrop).mono fun _ _ h => h₁.trans h
  | goOn p =>
    dsimp only
    rw [accounting, Env.tracking_ask_bind]
    intro ptr _
    have h₂ : KeepsDisks g (g₁.after ⟨.allocatePool lklVolumeSize, ptr⟩) := by
      intro i
      rw [count_disk_after rfl]
      exact h₁ i
    cases ptr with
    | none => exact h₂
    | some ptr => exact withVolume_disks.mono fun _ _ h => h₂.trans h

theorem keepsDisks_ask {α : Type} {call : DriverCall} {f : call.Ans → Firmware α}
    (h : call.onDisks = false)
    (hf : ∀ x g, accounting.Always (f x) (fun _ g' => KeepsDisks g g') g) :
    accounting.Always (Prog.ask call >>= f) (fun _ g' => KeepsDisks g g') g := by
  rw [accounting, Env.tracking_ask_bind]
  intro x _
  refine (hf x _).mono fun _ _ hkeeps i => ?_
  rw [← count_disk_after (g := g) (e := ⟨call, x⟩) h i]
  exact hkeeps i

theorem initializeVolume_disks {buffer : Nat} :
    accounting.Always (initializeVolume buffer c) (fun _ g' => KeepsDisks g g') g := by
  have hsame : ∀ g : Account, KeepsDisks g g := fun _ _ => le_refl _
  refine keepsDisks_ask rfl fun (collation : EfiStatus) g => ?_
  split
  · exact hsame g
  refine keepsDisks_ask rfl fun media g => ?_
  cases media with
  | error status => exact hsame g
  | ok media =>
    refine keepsDisks_ask rfl fun (disk : EfiStatus) g => ?_
    split
    · exact hsame g
    refine keepsDisks_ask rfl fun (disk2 : EfiStatus) g => ?_
    rw [Env.always_bind]
    refine lklAllocateVolume_disks.mono ?_
    intro status g₁ h₁
    split
    swap
    · exact h₁
    have hclose : accounting.Always (Prog.ask (DriverCall.testFileSystem c) >>= fun status =>
        if status.isError = true then do
          let _ ← Prog.ask (DriverCall.closeDiskIo c false)
          let _ ← Prog.ask (DriverCall.closeDiskIo c true)
          pure status
        else pure status) (fun _ g' => KeepsDisks g₁ g') g₁ := by
      refine keepsDisks_ask rfl fun (found : EfiStatus) g => ?_
      split
      · exact keepsDisks_ask rfl fun _ g => keepsDisks_ask rfl fun _ g => hsame g
      · exact hsame g
    exact hclose.mono fun _ _ h => h₁.trans h

theorem serve_disks {buffer : Nat} (request : DriverRequest) :
    accounting.Always (request.serve buffer) (fun _ g' => KeepsDisks g g') g := by
  have hsame : ∀ g : Account, KeepsDisks g g := fun _ _ => le_refl _
  cases request with
  | start c =>
    refine keepsDisks_ask rfl fun (locked : EfiStatus) g => ?_
    rw [Env.always_bind]
    refine initializeVolume_disks.mono ?_
    intro status g₁ h₁
    have hrelease : accounting.Always (Prog.ask DriverCall.releaseLock >>= fun _ =>
        (pure status : Firmware EfiStatus)) (fun _ g' => KeepsDisks g₁ g') g₁ :=
      keepsDisks_ask rfl fun _ g => hsame g
    split
    · exact h₁
    · exact hrelease.mono fun _ _ h => h₁.trans h
  | stop c =>
    refine keepsDisks_ask rfl fun volume g => ?_
    cases volume with
    | error status => exact hsame g
    | ok v =>
      have habandon : (lklAbandonVolume v).Only fun c => c.onDisks = false := by
        refine Prog.Only.bind ?_ fun status => ?_
        · cases v.handle with
          | none => trivial
          | some c => exact Prog.only_ask_bind.mpr ⟨rfl, fun _ => trivial⟩
        · split
          · trivial
          · refine Prog.only_ask_bind.mpr ⟨rfl, fun (locked : EfiStatus) => ?_⟩
            dsimp only
            split
            · trivial
            · exact Prog.only_ask_bind.mpr ⟨rfl, fun _ => trivial⟩
      dsimp only
      rw [Env.always_bind]
      refine (keepsDisks_of_only habandon).mono ?_
      rintro ⟨status, w⟩ g₁ h₁
      dsimp only
      split
      · exact h₁
      have hclose : (closeDiskIo2 c v >>= fun _ => Prog.ask (DriverCall.closeDiskIo c false)).Only
          fun c => c.onDisks = false := by
        refine Prog.Only.bind ?_ fun _ => Prog.only_ask_bind.mpr ⟨rfl, fun _ => trivial⟩
        unfold closeDiskIo2
        split
        · exact Prog.only_ask_bind.mpr ⟨rfl, fun _ => trivial⟩
        · trivial
      exact (keepsDisks_of_only hclose).mono fun _ _ h => h₁.trans h

end Disks

section Runs

variable {buffer : Nat} {run : List Service} {s : Service} {g : Account}

theorem Service.Served.keepsDisks (h : s.Served buffer) :
    KeepsDisks g (s.trace.foldl Account.after g) :=
  Env.tracking_always_iff.mp (serve_disks s.request) s.trace s.status h.exec h.documented

theorem run_keepsDisks (h : ∀ s ∈ run, s.Served buffer) :
    KeepsDisks g ((run.flatMap Service.trace).foldl Account.after g) := by
  induction run generalizing g with
  | nil => exact fun _ => le_refl _
  | cons s run ih =>
    rw [List.flatMap_cons, List.foldl_append]
    exact (h s (by simp)).keepsDisks.trans (ih fun s hs => h s (by simp [hs]))

theorem count_registered {t : DriverTrace} {ptr : Nat} {c : Controller} {id : Int} (hid : 0 ≤ id)
    (hadd : ⟨.diskAdd ptr c, id⟩ ∈ t) (hkept : ∀ e ∈ t, ∀ v i, e.1 ≠ .diskRemove v i) :
    g.held.count (.disk id) < (t.foldl Account.after g).held.count (.disk id) := by
  have hstep : ∀ (g : Account) (e : DriverEvent), (∀ v i, e.1 ≠ .diskRemove v i) →
      g.held.count (.disk id) ≤ (g.after e).held.count (.disk id) := by
    intro g e he
    cases hon : e.1.onDisks with
    | false => rw [count_disk_after hon]
    | true =>
      obtain ⟨call, x⟩ := e
      cases call with
      | diskRemove v i => exact absurd rfl (he v i)
      | diskAdd v c =>
        by_cases hx : 0 ≤ x
        · have htaken : taken ⟨.diskAdd v c, x⟩ = some (.disk x) := if_pos hx
          rw [after_of_taken rfl htaken rfl rfl]
          exact Multiset.count_le_count_cons _ _ _
        · have htaken : taken ⟨.diskAdd v c, x⟩ = none := if_neg hx
          rw [after_of_quiet rfl htaken rfl rfl]
      | _ => cases hon
  have hmono : ∀ (t : DriverTrace) (g : Account), (∀ e ∈ t, ∀ v i, e.1 ≠ .diskRemove v i) →
      g.held.count (.disk id) ≤ (t.foldl Account.after g).held.count (.disk id) := by
    intro t
    induction t with
    | nil => exact fun _ _ => le_refl _
    | cons e t ih =>
      intro g h
      exact (hstep g e (h e (by simp))).trans (ih _ fun e he => h e (by simp [he]))
  obtain ⟨u, v, rfl⟩ := List.append_of_mem hadd
  have htaken : taken ⟨.diskAdd ptr c, id⟩ = some (.disk id) := if_pos hid
  rw [List.foldl_append, List.foldl_cons]
  refine lt_of_lt_of_le ?_ (hmono v _ fun e he => hkept e (by simp [he]))
  rw [after_of_taken rfl htaken rfl rfl, Multiset.count_cons_self, Nat.lt_succ_iff]
  exact hmono u g fun e he => hkept e (by simp [he])

/-- A start that succeeds, and not because there is a file system already, starts a volume. -/
theorem initializeVolume_exec {c : Controller} {t : DriverTrace} {status : EfiStatus}
    (h : (initializeVolume buffer c).Exec t status) (hdoc : ∀ e ∈ t, documented e = true)
    (hs : status.isError = false) (hown : ∀ e ∈ t, findsFileSystem e = false) :
    ∃ hasDiskIo2 media partition u w pre, t = pre ++ u ∧
      StartedWith c hasDiskIo2 media partition u w ∧ ∀ e ∈ pre, e.1.onDisks = false := by
  obtain ⟨(collation : EfiStatus), u₁, rfl, h₁⟩ := Prog.exec_ask_bind_iff.mp h
  by_cases hcollation : collation.isError = true
  · rw [if_pos hcollation] at h₁
    cases h₁
    rw [hcollation] at hs
    cases hs
  rw [if_neg hcollation] at h₁
  obtain ⟨media, u₂, rfl, h₂⟩ := Prog.exec_ask_bind_iff.mp h₁
  cases media with
  | error s =>
    cases h₂
    have herror : status.isError = true := hdoc ⟨.getBlockIo c, .error status⟩ (by simp)
    rw [herror] at hs
    cases hs
  | ok media =>
    obtain ⟨(disk : EfiStatus), u₃, rfl, h₃⟩ := Prog.exec_ask_bind_iff.mp h₂
    by_cases hdisk : disk.isError = true
    · rw [if_pos hdisk] at h₃
      cases h₃
      rw [hdisk] at hs
      cases hs
    rw [if_neg hdisk] at h₃
    obtain ⟨(disk2 : EfiStatus), u₄, rfl, h₄⟩ := Prog.exec_ask_bind_iff.mp h₃
    obtain ⟨u, u₅, allocated, rfl, halloc, h₅⟩ := Prog.exec_bind_iff.mp h₄
    by_cases hfailed : allocated.isError = true
    · rw [if_pos hfailed] at h₅
      obtain ⟨(found : EfiStatus), u₆, rfl, h₆⟩ := Prog.exec_ask_bind_iff.mp h₅
      have hfound : found.isError = true := by
        simpa [findsFileSystem] using hown ⟨.testFileSystem c, found⟩ (by simp)
      rw [if_pos hfound] at h₆
      obtain ⟨x, u₇, rfl, h₇⟩ := Prog.exec_ask_bind_iff.mp h₆
      obtain ⟨y, u₈, rfl, h₈⟩ := Prog.exec_ask_bind_iff.mp h₇
      cases h₈
      rw [hfound] at hs
      cases hs
    · rw [if_neg hfailed] at h₅
      cases h₅
      obtain ⟨partition, w, hstart⟩ :=
        lklAllocateVolume_exec halloc (fun e he => hdoc e (by simp [he])) hs
      refine ⟨_, media, partition, u, w, [_, _, _, _], by rw [List.append_nil]; rfl, hstart, ?_⟩
      intro e he
      simp only [List.mem_cons, List.not_mem_nil, or_false] at he
      rcases he with rfl | rfl | rfl | rfl <;> rfl

theorem start_exec {c : Controller} {t : DriverTrace} {status : EfiStatus}
    (h : (lklDriverBindingStart buffer c).Exec t status) (hdoc : ∀ e ∈ t, documented e = true)
    (hs : status.isError = false) (hown : ∀ e ∈ t, findsFileSystem e = false) :
    ∃ hasDiskIo2 media partition u w pre post, t = pre ++ u ++ post ∧
      StartedWith c hasDiskIo2 media partition u w ∧ ∀ e ∈ pre ++ post, e.1.onDisks = false := by
  obtain ⟨(locked : EfiStatus), u₁, rfl, h₁⟩ := Prog.exec_ask_bind_iff.mp h
  obtain ⟨u₂, u₃, result, rfl, hinit, h₂⟩ := Prog.exec_bind_iff.mp h₁
  by_cases hlocked : locked.isError = true
  · rw [if_pos hlocked] at h₂
    cases h₂
    obtain ⟨hasDiskIo2, media, partition, u, w, pre, rfl, hstart, hpre⟩ :=
      initializeVolume_exec hinit (fun e he => hdoc e (by simp [he])) hs
        (fun e he => hown e (by simp [he]))
    refine ⟨hasDiskIo2, media, partition, u, w, ⟨.acquireLock, locked⟩ :: pre, [], rfl, hstart, ?_⟩
    simpa using ⟨rfl, hpre⟩
  · rw [if_neg hlocked] at h₂
    obtain ⟨x, u₄, rfl, h₃⟩ := Prog.exec_ask_bind_iff.mp h₂
    cases h₃
    obtain ⟨hasDiskIo2, media, partition, u, w, pre, rfl, hstart, hpre⟩ :=
      initializeVolume_exec hinit (fun e he => hdoc e (by simp [he])) hs
        (fun e he => hown e (by simp [he]))
    refine ⟨hasDiskIo2, media, partition, u, w, ⟨.acquireLock, locked⟩ :: pre, [⟨.releaseLock, x⟩],
      rfl, hstart, ?_⟩
    intro e he
    simp only [List.cons_append, List.mem_cons, List.mem_append, List.not_mem_nil, or_false] at he
    rcases he with rfl | he | rfl
    · rfl
    · exact hpre e he
    · rfl

/-- Whatever came before and whatever came in between: once the driver is stopped, the disk that
it registered at the start is registered still. -/
theorem lifeCycle_unrestored {run run' : List Service} {start stop : Service} {c : Controller}
    (hserved : ∀ s ∈ run ++ start :: (run' ++ [stop]), s.Served buffer)
    (hstart : start.request = .start c) (hstarted : start.status = .success)
    (hown : ∀ e ∈ start.trace, findsFileSystem e = false)
    (_hstop : stop.request = .stop c) (_hstopped : stop.status = .success) :
    ¬Restored (accountOf run).held (accountOf (run ++ start :: (run' ++ [stop]))).held
      start.trace := by
  intro h
  have hs := hserved start (by simp)
  have hexec : (lklDriverBindingStart buffer c).Exec start.trace start.status := by
    have := hs.exec
    rwa [hstart] at this
  obtain ⟨hasDiskIo2, media, partition, u, w, pre, post, htrace, hwith, hother⟩ :=
    start_exec hexec hs.documented (by rw [hstarted]; rfl) hown
  obtain ⟨name, hplaced, -, -⟩ := hwith.placed
  have hadd : ⟨.diskAdd w.ptr c, w.lklDiskId⟩ ∈ start.trace := by
    rw [htrace]
    simp [hplaced.registered.1]
  have hkept : ∀ e ∈ start.trace, ∀ v i, e.1 ≠ .diskRemove v i := by
    rintro ⟨call, x⟩ he v i rfl
    rw [htrace, List.mem_append, List.mem_append] at he
    rcases he with (he | he) | he
    · cases hother _ (List.mem_append_left _ he)
    · cases hwith.kept.2 _ he rfl
    · cases hother _ (List.mem_append_right _ he)
  -- the start registers it, and the rest of the run keeps it
  have hmore := count_registered (g := accountOf run) hplaced.registered.2 hadd hkept
  have hrest : ∀ s ∈ run' ++ [stop], s.Served buffer := fun s hs =>
    hserved s (List.mem_append_right _ (List.mem_cons_of_mem _ hs))
  have hkeeps := run_keepsDisks (g := start.trace.foldl Account.after (accountOf run)) hrest
  have hwhole : accountOf (run ++ start :: (run' ++ [stop])) =
      ((run' ++ [stop]).flatMap Service.trace).foldl Account.after
        (start.trace.foldl Account.after (accountOf run)) := by
    simp only [accountOf, account, List.flatMap_append, List.flatMap_cons, List.foldl_append]
  have hequal := h _ hadd (.disk w.lklDiskId) (if_pos hplaced.registered.2)
  rw [hwhole] at hequal
  have hle := hkeeps w.lklDiskId
  omega

end Runs

def firstVolume : VolumeRecord :=
  { newVolume 1 0 true ⟨0, false⟩ (.plain (asciiString "ext4")) with
    lklDiskId := 0
    lklMountPoint := mountPoint 0
    valid := true }

/-- A plain partition; the disks are numbered, and so are their mount points. -/
def lifeKernel : Handler DriverCall DriverCall.Ans Nat
  | .allocatePool _, n => (some (n + 1), n)
  | .diskAdd _ _, n => ((n : Int), n + 1)
  | .mountDev id _ _ _, n => (((0 : Int), mountPoint id.toNat), n)
  | .getFileSystem _, n => (.ok firstVolume, n)
  | call, n => ((startKernel [] call ()).1, n)

def serviceAt (n : Nat) (request : DriverRequest) : Service where
  request := request
  trace := (request.serve 0).trace lifeKernel n
  status := ((request.serve 0).run lifeKernel n).1

theorem serviceAt_served {n : Nat} {request : DriverRequest}
    (h : ∀ e ∈ (serviceAt n request).trace, documented e = true) :
    (serviceAt n request).Served 0 := ⟨Prog.exec_trace _ _ _, h⟩

/-- One start and one stop. -/
theorem lifeCycle_unrestored_once :
    (serviceAt 0 (.start 0)).status = .success ∧ (serviceAt 1 (.stop 0)).status = .success ∧
      ¬Restored (accountOf []).held (accountOf [serviceAt 0 (.start 0), serviceAt 1 (.stop 0)]).held
        (serviceAt 0 (.start 0)).trace := by
  have hserved : ∀ s ∈ [] ++ serviceAt 0 (.start 0) :: ([] ++ [serviceAt 1 (.stop 0)]),
      s.Served 0 := by
    intro s hs
    simp only [List.nil_append, List.mem_cons, List.not_mem_nil, or_false] at hs
    rcases hs with rfl | rfl
    · exact serviceAt_served (by decide)
    · exact serviceAt_served (by decide)
  exact ⟨by decide, by decide,
    lifeCycle_unrestored hserved rfl (by decide) (by decide) rfl (by decide)⟩

/-- After a start, a stop and another start the partition is mounted twice. -/
theorem lifeCycle_mounted_twice :
    ∃ start stop start' : Service, (∀ s ∈ [start, stop, start'], s.Served 0 ∧ s.status = .success) ∧
      start.request = .start 0 ∧ stop.request = .stop 0 ∧ start'.request = .start 0 ∧
      ¬Restored (accountOf []).held (accountOf [start, stop]).held start.trace ∧
      .mount (mountPoint 0) ∈ (accountOf [start, stop, start']).held ∧
      .mount (mountPoint 1) ∈ (accountOf [start, stop, start']).held := by
  refine ⟨serviceAt 0 (.start 0), serviceAt 1 (.stop 0), serviceAt 1 (.start 0), ?_, rfl, rfl, rfl,
    ?_,
    by decide, by decide⟩
  · intro s hs
    simp only [List.mem_cons, List.not_mem_nil, or_false] at hs
    rcases hs with rfl | rfl | rfl
    · exact ⟨serviceAt_served (by decide), by decide⟩
    · exact ⟨serviceAt_served (by decide), by decide⟩
    · exact ⟨serviceAt_served (by decide), by decide⟩
  · -- the disk of the first start
    intro h
    have hcount := h ((serviceAt 0 (.start 0)).trace.get ⟨8, by decide⟩) (List.get_mem _ _)
      (.disk 0) rfl
    exact absurd hcount (by decide)

end UefiLkl
