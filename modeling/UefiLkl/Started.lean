import UefiLkl.Info
import UefiLkl.KeyTable
set_option autoImplicit false

/-!
What the structure of a started volume says: the disk, the mount point, the name of the file
system, and the key.
-/

namespace UefiLkl
open Interaction

/-- Either a disk that is registered in the kernel, or a device node. -/
inductive BlockDevice where
  | disk (id : Int)
  | node (path : Bytes)
  deriving DecidableEq, Repr

def mounted : DriverEvent → Option (BlockDevice × Bytes)
  | ⟨.mountDev id part _ _, (rc, dir)⟩ => if part = 0 ∧ 0 ≤ rc then some (.disk id, dir) else none
  | ⟨.sysMount dev dir _ _, rc⟩ => if 0 ≤ rc then some (.node dev, dir) else none
  | _ => none

def installed : DriverEvent → Option VolumeRecord
  | ⟨.installFileSystem v, status⟩ => if status.isError then none else some v
  | _ => none

/-- A call that installs a volume, or undoes a step of the start. -/
def DriverCall.settles : DriverCall → Bool
  | .installFileSystem _ | .sysUmount _ | .diskRemove _ _ | .dmDevRemove _ _ => true
  | _ => false

/-- Installs, registers and undoes nothing, and a table has these parameters. -/
def DriverCall.setsUp (params : Bytes) : DriverCall → Bool
  | .dmTableLoad _ _ target => target.params = params
  | .diskAdd _ _ => false
  | c => !c.settles

def keyParams (key blkDevice : Bytes) : Bytes :=
  asciiString "aes-cbc-essiv:sha256" ++ blank :: convertKeyToHexAscii key key.length ++
    asciiString " 0 " ++ blkDevice ++ asciiString " 0 "

/-- The device whose files the volume shows. -/
def VolumeRecord.device (v : VolumeRecord) : BlockDevice :=
  if v.isEncrypted then .node v.lklBlkDeviceDecrypted else .disk v.lklDiskId

/-- One of the probes found the name on the device; a disk is probed through the controller. -/
def Probed (c : Controller) (mediaId : Nat) (t : DriverTrace) : BlockDevice → Bytes → Prop
  | .disk _, name => ∃ u, u <:+: t ∧ (getFsType c mediaId).Exec u (.ok name)
  | .node path, name => ∃ u, u <:+: t ∧ (getFsTypeLkl path).Exec u (.ok name)

/-- The disk of the volume is registered, and its device, on which `name` was found, is mounted
on its mount point. -/
structure Placed (c : Controller) (mediaId : Nat) (t : DriverTrace) (v : VolumeRecord)
    (name : Bytes) : Prop where
  registered : ⟨.diskAdd v.ptr c, v.lklDiskId⟩ ∈ t ∧ 0 ≤ v.lklDiskId
  mounted : ∃ e ∈ t, mounted e = some (v.device, v.lklMountPoint)
  probed : Probed c mediaId t v.device name
  kept : ∀ e ∈ t, e.1.settles = true → installed e = some v

/-- The table of dm-crypt has the bytes that were read of the key file, whose size is taken as a
word. -/
def KeyHanded (t : DriverTrace) (v : VolumeRecord) : Prop :=
  ∃ keyFile size data, ⟨.fileGetSize keyFile, .ok size⟩ ∈ t ∧
    ⟨.fileRead keyFile (word size), .ok data⟩ ∈ t ∧
    ∀ fd name target rc, ⟨.dmTableLoad fd name target, rc⟩ ∈ t →
      target.params = keyParams (data.take (word size)) v.lklBlkDevice

/-- The table of dm-crypt has the content of the file that the key was read of. -/
def KeyWhole (content : Nat → Bytes) (t : DriverTrace) (v : VolumeRecord) : Prop :=
  ∀ file size data fd name target rc, ⟨.fileRead file size, data⟩ ∈ t →
    ⟨.dmTableLoad fd name target, rc⟩ ∈ t →
    target.params = keyParams (content file) v.lklBlkDevice

/-- The volume as the file protocol finds it; a name that was never set may be any. -/
structure VolumeRecord.ReadAs (v : VolumeRecord) (volume : LklVolume) : Prop where
  mountPoint : volume.lklMountPoint.val = v.lklMountPoint
  readOnly : volume.readOnly = v.media.readOnly
  fsType : ∀ name, v.fsType = some name → volume.fsType.val = name

/-- `LKLGetVolumeInfo` reports the name. -/
def ReportsName (v : VolumeRecord) (name : Bytes) : Prop :=
  ∀ (volume : LklVolume) (w bufferSize : Nat) (u : List (Event Call Call.Ans)) (status : EfiStatus)
    (size : Nat) (info : EfiFileSystemInfo), v.ReadAs volume →
    (lklGetVolumeInfo w volume bufferSize).Exec u (status, size, some (.fileSystem info)) →
    info.volumeLabel = asciiStrToUnicodeStr name

/-- The structure tells the truth about the volume. -/
def WellDescribed (content : Nat → Bytes) (c : Controller) (mediaId : Nat) (t : DriverTrace)
    (v : VolumeRecord) : Prop :=
  ∃ name, Placed c mediaId t v name ∧ v.fsType = some name ∧ KeyWhole content t v ∧
    ReportsName v name

section SetsUp

variable {params : Bytes} {c : Controller}

theorem getFsType_setsUp {mediaId : Nat} :
    (getFsType c mediaId).Only fun c => c.setsUp params = true := by
  refine (probeLoop_only (fun offset => ?_) _).bind fun found => ?_
  · refine Prog.only_ask_bind.mpr ⟨rfl, fun x => ?_⟩
    cases x with
    | error s => trivial
    | ok block => trivial
  · cases found with
    | none => trivial
    | some name => trivial

theorem DriverCall.Prepares.setsUp {P : DmTarget → Prop} {c : DriverCall} (h : c.Prepares P)
    (hP : ∀ target, P target → target.params = params) : c.setsUp params = true := by
  cases c with
  | dmTableLoad fd name target => exact decide_eq_true (hP target h)
  | _ => first | rfl | exact h.elim

theorem getFsTypeLkl_setsUp {path : Bytes} :
    (getFsTypeLkl path).Only fun c => c.setsUp params = true :=
  getFsTypeLkl_prepares.mono fun _ hc => hc.setsUp (P := fun _ => False) fun _ => False.elim

theorem lklGetKeyLocation_setsUp : (lklGetKeyLocation c).Only fun c => c.setsUp params = true := by
  refine Prog.only_ask_bind.mpr ⟨rfl, fun path => ?_⟩
  cases path with
  | none => trivial
  | some path =>
    dsimp only
    split
    · trivial
    · split <;> trivial

theorem searchPartitions_setsUp {path : List UInt16} (handles : List Controller) :
    (searchPartitions path handles).Only fun c => c.setsUp params = true := by
  induction handles with
  | nil => trivial
  | cons c rest ih =>
    refine Prog.only_ask_bind.mpr ⟨rfl, fun (status : EfiStatus) => ?_⟩
    by_cases h : status.isError = true
    · simp only [h, if_true]
      exact ih
    simp only [h]
    refine Prog.only_ask_bind.mpr ⟨rfl, fun (status : EfiStatus) => ?_⟩
    by_cases h : status.isError = true
    · simp only [h, if_true]
      exact ih
    simp only [h]
    refine Prog.only_ask_bind.mpr ⟨rfl, fun root => ?_⟩
    cases root with
    | error s => exact ih
    | ok root =>
      refine Prog.only_ask_bind.mpr ⟨rfl, fun file => ?_⟩
      refine Prog.only_ask_bind.mpr ⟨rfl, fun _ => ?_⟩
      cases file with
      | error s => exact ih
      | ok file => trivial

theorem getFileFromAnyPartition_setsUp {path : List UInt16} :
    (getFileFromAnyPartition path).Only fun c => c.setsUp params = true := by
  refine Prog.only_ask_bind.mpr ⟨rfl, fun handles => ?_⟩
  cases handles with
  | error s => trivial
  | ok handles =>
    refine (searchPartitions_setsUp handles.2).bind fun found => ?_
    refine Prog.only_ask_bind.mpr ⟨rfl, fun _ => ?_⟩
    cases found with
    | none => trivial
    | some file => trivial

theorem lookPlain_setsUp {media : Media} :
    (lookPlain c media).Only fun c => c.setsUp params = true := by
  refine getFsType_setsUp.bind fun found => ?_
  cases found with
  | error s => trivial
  | ok fsType => trivial

theorem lookEncrypted_setsUp : (lookEncrypted c).Only fun c => c.setsUp params = true := by
  refine lklGetKeyLocation_setsUp.bind fun path => ?_
  cases path with
  | error s => trivial
  | ok path =>
    refine getFileFromAnyPartition_setsUp.bind fun file => ?_
    cases file with
    | error s => trivial
    | ok keyFile =>
      refine Prog.only_ask_bind.mpr ⟨rfl, fun size => ?_⟩
      cases size with
      | error s => trivial
      | ok size =>
        refine Prog.only_ask_bind.mpr ⟨rfl, fun key => ?_⟩
        cases key with
        | none => trivial
        | some key =>
          refine Prog.only_ask_bind.mpr ⟨rfl, fun data => ?_⟩
          cases data with
          | error s => trivial
          | ok data => trivial

theorem look_setsUp {media : Media} : (look c media).Only fun c => c.setsUp params = true := by
  refine Prog.only_ask_bind.mpr ⟨rfl, fun name => ?_⟩
  cases name with
  | error s => exact lookPlain_setsUp
  | ok name =>
    dsimp only
    split
    · exact lookEncrypted_setsUp
    · exact lookPlain_setsUp

theorem dropPartition_setsUp {p : Partition} :
    (dropPartition p).Only fun c => c.setsUp params = true := by
  cases p with
  | plain fsType => trivial
  | encrypted keyFile key size data =>
    exact Prog.only_ask_bind.mpr ⟨rfl, fun _ => Prog.only_ask_bind.mpr ⟨rfl, fun _ => trivial⟩⟩

theorem cryptfsSetupExtVolume_setsUp {buffer : Nat} {label realBlkdev key : Bytes}
    {keysize : Nat} :
    (cryptfsSetupExtVolume buffer label realBlkdev key keysize).Only fun c =>
      c.setsUp (keyParams (key.take keysize) realBlkdev) = true := by
  have hparams : ∀ nrSec, (cryptTarget buffer ⟨keysize, nrSec, asciiString "aes-cbc-essiv:sha256"⟩
      key realBlkdev []).params = keyParams (key.take keysize) realBlkdev := by
    intro nrSec
    have hkey : convertKeyToHexAscii (key.take keysize) (key.take keysize).length =
        convertKeyToHexAscii key keysize := by
      rw [convertKeyToHexAscii, List.take_length, convertKeyToHexAscii]
    rw [cryptTarget, keyParams, hkey]
    simp
  refine (cryptfsSetupExtVolume_prepares
    (P := fun target => target.params = keyParams (key.take keysize) realBlkdev) hparams).mono ?_
  exact fun _ hc => hc.setsUp fun _ => id

end SetsUp

section Parts

variable {c : Controller} {media : Media} {u : DriverTrace}

inductive Looked (c : Controller) (media : Media) :
    Except EfiStatus (List UInt16) → DriverTrace → Partition → Prop where
  | plain {partition : Except EfiStatus (List UInt16)} {u : DriverTrace} {fsType : Bytes}
      (hname : partition ≠ .ok (wideString "android_expand"))
      (hprobe : (getFsType c media.mediaId).Exec u (.ok fsType)) :
      Looked c media partition u (.plain fsType)
  | encrypted {u : DriverTrace} {keyFile key size : Nat} {data : Bytes}
      (hsize : ⟨.fileGetSize keyFile, .ok size⟩ ∈ u)
      (hread : ⟨.fileRead keyFile (word size), .ok data⟩ ∈ u) :
      Looked c media (.ok (wideString "android_expand")) u (.encrypted keyFile key size data)

theorem lookPlain_exec {p : Partition} (h : (lookPlain c media).Exec u (.goOn p)) :
    ∃ fsType, p = .plain fsType ∧ (getFsType c media.mediaId).Exec u (.ok fsType) := by
  obtain ⟨u₁, u₂, found, rfl, hprobe, h⟩ := Prog.exec_bind_iff.mp h
  cases found with
  | error s => cases h
  | ok fsType =>
    cases h
    rw [List.append_nil]
    exact ⟨fsType, rfl, hprobe⟩

theorem lookEncrypted_exec {p : Partition} (h : (lookEncrypted c).Exec u (.goOn p)) :
    ∃ keyFile key size data, p = .encrypted keyFile key size data ∧
      ⟨.fileGetSize keyFile, .ok size⟩ ∈ u ∧
      ⟨.fileRead keyFile (word size), .ok data⟩ ∈ u := by
  obtain ⟨u₁, v₁, path, rfl, -, h₁⟩ := Prog.exec_bind_iff.mp h
  cases path with
  | error s => cases h₁
  | ok path =>
    obtain ⟨u₂, v₂, file, rfl, -, h₂⟩ := Prog.exec_bind_iff.mp h₁
    cases file with
    | error s => cases h₂
    | ok keyFile =>
      obtain ⟨size, v₃, rfl, h₃⟩ := Prog.exec_ask_bind_iff.mp h₂
      cases size with
      | error s => cases h₃
      | ok size =>
        obtain ⟨key, v₄, rfl, h₄⟩ := Prog.exec_ask_bind_iff.mp h₃
        cases key with
        | none => cases h₄
        | some key =>
          obtain ⟨data, v₅, rfl, h₅⟩ := Prog.exec_ask_bind_iff.mp h₄
          cases data with
          | error s => cases h₅
          | ok data =>
            cases h₅
            exact ⟨keyFile, key, size, data, rfl, by simp, by simp⟩

theorem look_exec {p : Partition} (h : (look c media).Exec u (.goOn p)) :
    ∃ partition u', u = ⟨.partitionName c, partition⟩ :: u' ∧ Looked c media partition u' p := by
  obtain ⟨partition, u', rfl, h₁⟩ := Prog.exec_ask_bind_iff.mp h
  refine ⟨partition, u', rfl, ?_⟩
  cases partition with
  | error s =>
    obtain ⟨fsType, rfl, hprobe⟩ := lookPlain_exec h₁
    exact .plain (by simp) hprobe
  | ok name =>
    dsimp only at h₁
    by_cases hname : name = wideString "android_expand"
    · rw [if_pos hname] at h₁
      obtain ⟨keyFile, key, size, data, rfl, hsize, hread⟩ := lookEncrypted_exec h₁
      rw [hname]
      exact .encrypted hsize hread
    · rw [if_neg hname] at h₁
      obtain ⟨fsType, rfl, hprobe⟩ := lookPlain_exec h₁
      exact .plain (fun h => hname (Except.ok.inj h)) hprobe

inductive MountedPartition (v : VolumeRecord) : Partition → DriverTrace → VolumeRecord → Prop where
  | plain {fsType dir : Bytes} {flags : Nat} {rc : Int} (hrc : 0 ≤ rc) :
      MountedPartition v (.plain fsType) [⟨.mountDev v.lklDiskId 0 fsType flags, (rc, dir)⟩]
        { v with lklMountPoint := dir }
  | encrypted {keyFile key size flags : Nat} {data blk label dev dir name : Bytes}
      {u₁ u₂ u₃ : DriverTrace} {rc : Int}
      (hset : ∀ e ∈ u₁ ++ u₂ ++ u₃, e.1.setsUp (keyParams (data.take (word size)) blk) = true)
      (hprobe : (getFsTypeLkl dev).Exec u₂ (.ok name)) (hrc : 0 ≤ rc)
      (hmount : ⟨.sysMount dev dir (some name) flags, rc⟩ ∈ u₃) :
      MountedPartition v (.encrypted keyFile key size data) (u₁ ++ u₂ ++ u₃)
        { v with
          lklBlkDevice := blk
          lklCryptFSName := label
          lklBlkDeviceDecrypted := dev
          lklMountPoint := dir }

theorem mountPlain_exec {v v' : VolumeRecord} {fsType : Bytes} {status : EfiStatus}
    (h : (mountPlain v fsType).Exec u (status, v')) (hs : status.isError = false) :
    MountedPartition v (.plain fsType) u v' := by
  obtain ⟨⟨rc, dir⟩, u', rfl, h₁⟩ := Prog.exec_ask_bind_iff.mp h
  dsimp only at h₁
  by_cases hrc : rc < 0
  · rw [if_pos hrc] at h₁
    cases h₁
    rw [isError_of_neg hrc] at hs
    cases hs
  · rw [if_neg hrc] at h₁
    cases h₁
    exact .plain (by omega)

theorem mountDecrypted_exec {v v' : VolumeRecord} {devId : Nat} {status : EfiStatus}
    (h : (mountDecrypted v devId).Exec u (status, v')) (hdoc : ∀ e ∈ u, documented e = true)
    (hs : status.isError = false) :
    ∃ u₁ u₂ name flags rc, u = u₁ ++ u₂ ∧
      (getFsTypeLkl v.lklBlkDeviceDecrypted).Exec u₁ (.ok name) ∧ 0 ≤ rc ∧
      ⟨.sysMount v.lklBlkDeviceDecrypted (mountPoint devId) (some name) flags, rc⟩ ∈ u₂ ∧
      (∀ params, ∀ e ∈ u₂, e.1.setsUp params = true) ∧
      v' = { v with lklMountPoint := mountPoint devId } := by
  obtain ⟨u₁, u₂, found, rfl, hprobe, h₁⟩ := Prog.exec_bind_iff.mp h
  cases found with
  | error s =>
    have hfound := Env.tracking_always_iff.mp (getFsTypeLkl_account (g := .empty)) u₁ _ hprobe
      fun e he => hdoc e (by simp [he])
    cases h₁
    rw [hfound.2 status rfl] at hs
    cases hs
  | ok name =>
    obtain ⟨u₃, u₄, made, rfl, hmake, h₂⟩ := Prog.exec_bind_iff.mp h₁
    by_cases hmade : made.isError = true
    · rw [if_pos hmade] at h₂
      cases h₂
      rw [hmade] at hs
      cases hs
    rw [if_neg hmade] at h₂
    obtain ⟨(rc : Int), u₅, rfl, h₃⟩ := Prog.exec_ask_bind_iff.mp h₂
    by_cases hrc : rc < 0
    · rw [if_pos hrc] at h₃
      cases h₃
      rw [isError_of_neg hrc] at hs
      cases hs
    rw [if_neg hrc] at h₃
    cases h₃
    refine ⟨u₁, _, name, MS_SYNCHRONOUS ||| MS_DIRSYNC, rc, rfl, hprobe, Int.not_lt.mp hrc,
      List.mem_append_right _ (List.mem_singleton_self _), fun params e he => ?_, rfl⟩
    rcases List.mem_append.mp he with he | he
    · have honly : (lklMakeDir (mountPoint devId)).Only fun c => c.setsUp params = true := by
        refine Prog.only_ask_bind.mpr ⟨rfl, fun (rc : Int) => ?_⟩
        split <;> trivial
      exact honly.exec hmake e he
    · rw [List.mem_singleton.mp he]
      rfl

theorem mountEncrypted_exec {v v' : VolumeRecord} {buffer keyFile key size : Nat} {data : Bytes}
    {status : EfiStatus} (h : (mountEncrypted buffer v data size).Exec u (status, v'))
    (hdoc : ∀ e ∈ u, documented e = true) (hs : status.isError = false) :
    MountedPartition v (.encrypted keyFile key size data) u v' := by
  obtain ⟨⟨rc₁, devId⟩, u₁, rfl, h₁⟩ := Prog.exec_ask_bind_iff.mp h
  dsimp only at h₁
  by_cases hrc : rc₁ < 0
  · rw [if_pos hrc] at h₁
    cases h₁
    rw [isError_of_neg hrc] at hs
    cases hs
  rw [if_neg hrc] at h₁
  obtain ⟨(rc₂ : Int), u₂, rfl, h₂⟩ := Prog.exec_ask_bind_iff.mp h₁
  by_cases hrc : rc₂ < 0
  · rw [if_pos hrc] at h₂
    cases h₂
    rw [isError_of_neg hrc] at hs
    cases hs
  rw [if_neg hrc] at h₂
  obtain ⟨u₃, u₄, ⟨rc, dev⟩, rfl, hcrypt, h₃⟩ := Prog.exec_bind_iff.mp h₂
  dsimp only at h₃ hcrypt
  by_cases hrc : rc < 0
  · rw [if_pos hrc] at h₃
    cases h₃
    rw [isError_of_neg hrc] at hs
    cases hs
  rw [if_neg hrc] at h₃
  obtain ⟨w₁, w₂, name, flags, rc, rfl, hprobe, hrc, hmount, hset, rfl⟩ :=
    mountDecrypted_exec h₃ (fun e he => hdoc e (by simp_all)) hs
  have htrace : ⟨.getVirtioBlkdev v.lklDiskId 0, (rc₁, devId)⟩ ::
      ⟨.sysMknod (blkDevice devId) (S_IFBLK ||| 0o600) devId, rc₂⟩ :: (u₃ ++ (w₁ ++ w₂)) =
      (⟨.getVirtioBlkdev v.lklDiskId 0, (rc₁, devId)⟩ ::
        ⟨.sysMknod (blkDevice devId) (S_IFBLK ||| 0o600) devId, rc₂⟩ :: u₃) ++ w₁ ++ w₂ := by
    simp
  dsimp only at hprobe hmount ⊢
  rw [htrace]
  refine .encrypted (fun e he => ?_) hprobe hrc hmount
  simp only [List.mem_append, List.mem_cons] at he
  rcases he with ((rfl | rfl | he) | he) | he
  · rfl
  · rfl
  · exact cryptfsSetupExtVolume_setsUp.exec hcrypt e he
  · exact getFsTypeLkl_setsUp.exec hprobe e he
  · exact hset _ e he

/-- How a volume was started: the partition is looked at, the disk is registered and mounted, and
`w` is installed. -/
inductive StartedWith (c : Controller) (hasDiskIo2 : Bool) (media : Media)
    (partition : Except EfiStatus (List UInt16)) : DriverTrace → VolumeRecord → Prop where
  | started {u m rest : DriverTrace} {p : Partition} {ptr : Nat} {id : Int} {w : VolumeRecord}
      {status : EfiStatus} (hlook : Looked c media partition u p)
      (hquiet : ∀ params, ∀ e ∈ u ++ rest, e.1.setsUp params = true) (hid : 0 ≤ id)
      (hmount : MountedPartition { newVolume ptr c hasDiskIo2 media p with lklDiskId := id } p m w)
      (hinst : status.isError = false) :
      StartedWith c hasDiskIo2 media partition
        (⟨.partitionName c, partition⟩ :: u ++ (⟨.allocatePool lklVolumeSize, some ptr⟩ ::
          ⟨.diskAdd ptr c, id⟩ :: (m ++ ⟨.installFileSystem w, status⟩ :: rest))) w

theorem mountPartition_exec {buffer : Nat} {v v' : VolumeRecord} {p : Partition}
    {status : EfiStatus} (h : (mountPartition buffer v p).Exec u (status, v'))
    (hdoc : ∀ e ∈ u, documented e = true) (hs : status.isError = false) :
    MountedPartition v p u v' := by
  cases p with
  | plain fsType => exact mountPlain_exec h hs
  | encrypted keyFile key size data => exact mountEncrypted_exec h hdoc hs

theorem startVolume_exec {buffer : Nat} {v v' : VolumeRecord} {p : Partition} {status : EfiStatus}
    (h : (startVolume buffer c v p).Exec u (status, v')) (hdoc : ∀ e ∈ u, documented e = true)
    (hs : status.isError = false) :
    ∃ id m w, u = ⟨.diskAdd v.ptr c, id⟩ :: (m ++ [⟨.installFileSystem w, status⟩]) ∧ 0 ≤ id ∧
      MountedPartition { v with lklDiskId := id } p m w := by
  obtain ⟨(id : Int), u₁, rfl, h₁⟩ := Prog.exec_ask_bind_iff.mp h
  by_cases hid : id < 0
  · rw [if_pos hid] at h₁
    cases h₁
    rw [isError_of_neg hid] at hs
    cases hs
  rw [if_neg hid] at h₁
  obtain ⟨m, u₂, ⟨mountStatus, w⟩, rfl, hmount, h₂⟩ := Prog.exec_bind_iff.mp h₁
  dsimp only at h₂
  by_cases hmounted : mountStatus.isError = true
  · rw [if_pos hmounted] at h₂
    cases h₂
    rw [hmounted] at hs
    cases hs
  rw [if_neg hmounted] at h₂
  obtain ⟨(installed : EfiStatus), u₃, rfl, h₃⟩ := Prog.exec_ask_bind_iff.mp h₂
  by_cases hinst : installed.isError = true
  · rw [if_pos hinst] at h₃
    cases h₃
    rw [hinst] at hs
    cases hs
  rw [if_neg hinst] at h₃
  cases h₃
  have hm := mountPartition_exec hmount (fun e he => hdoc e (by simp [he]))
    (by simpa using hmounted)
  exact ⟨id, m, w, rfl, Int.not_lt.mp hid, hm⟩

theorem lklAllocateVolume_exec {buffer : Nat} {hasDiskIo2 : Bool} {status : EfiStatus}
    (h : (lklAllocateVolume buffer c hasDiskIo2 media).Exec u status)
    (hdoc : ∀ e ∈ u, documented e = true) (hs : status.isError = false) :
    ∃ partition w, StartedWith c hasDiskIo2 media partition u w := by
  obtain ⟨u₁, u₂, l, rfl, hlook, h₁⟩ := Prog.exec_bind_iff.mp h
  have hlooked := Env.tracking_always_iff.mp (look_account (g := .empty)) u₁ l hlook
    fun e he => hdoc e (by simp [he])
  cases l with
  | leave left =>
    cases h₁
    rw [hlooked.1] at hs
    cases hs
  | done left keyFile key =>
    obtain ⟨v₁, v₂, _, rfl, -, h₂⟩ := Prog.exec_bind_iff.mp h₁
    cases h₂
    rw [hlooked.1] at hs
    cases hs
  | goOn p =>
    obtain ⟨ptr, u₃, rfl, h₂⟩ := Prog.exec_ask_bind_iff.mp h₁
    cases ptr with
    | none =>
      cases h₂
      cases hs
    | some ptr =>
      obtain ⟨m, u₄, ⟨started, w⟩, rfl, hstart, h₃⟩ := Prog.exec_bind_iff.mp h₂
      obtain ⟨v₁, v₂, _, rfl, hundo, h₄⟩ := Prog.exec_bind_iff.mp h₃
      obtain ⟨v₃, v₄, _, rfl, hdrop, h₅⟩ := Prog.exec_bind_iff.mp h₄
      cases h₅
      rw [if_neg (by simp [hs])] at hundo
      cases hundo
      obtain ⟨partition, u₅, rfl, hp⟩ := look_exec hlook
      obtain ⟨id, m, w, rfl, hid, hmount⟩ :=
        startVolume_exec hstart (fun e he => hdoc e (by simp_all)) hs
      have hquiet : ∀ params, ∀ e ∈ u₅ ++ v₃, e.1.setsUp params = true := by
        intro params e he
        rcases List.mem_append.mp he with he | he
        · exact look_setsUp.exec hlook e (List.mem_cons_of_mem _ he)
        · exact dropPartition_setsUp.exec hdrop e he
      refine ⟨partition, w, ?_⟩
      rw [List.nil_append, List.append_nil, List.cons_append, List.cons_append, List.append_assoc,
        List.singleton_append]
      exact .started hp hquiet hid hmount hs

end Parts

section Whole

variable {c : Controller} {hasDiskIo2 : Bool} {media : Media}
  {partition : Except EfiStatus (List UInt16)} {t : DriverTrace} {w : VolumeRecord}

theorem installed_of_setsUp {params : Bytes} {e : DriverEvent} (h : e.1.setsUp params = true) :
    installed e = none := by
  obtain ⟨c, x⟩ := e
  cases c <;> first | rfl | cases h

theorem settles_of_setsUp {params : Bytes} {e : DriverEvent} (h : e.1.setsUp params = true) :
    e.1.settles = false := by
  obtain ⟨c, x⟩ := e
  cases c <;> first | rfl | cases h

theorem setsUp_tableLoad {fd : Int} {name params : Bytes} {target : DmTarget} :
    (DriverCall.dmTableLoad fd name target).setsUp params = true ↔ target.params = params :=
  decide_eq_true_iff

theorem Looked.isEncrypted {u : DriverTrace} {p : Partition} (h : Looked c media partition u p)
    (ptr : Nat) : (newVolume ptr c hasDiskIo2 media p).isEncrypted = true ↔
      partition = .ok (wideString "android_expand") := by
  cases h with
  | plain hname _ => exact iff_of_false (by simp [newVolume]) hname
  | encrypted _ _ => exact iff_of_true rfl rfl

theorem MountedPartition.setsUp {v : VolumeRecord} {p : Partition} {m : DriverTrace}
    (h : MountedPartition v p m w) : ∃ params, ∀ e ∈ m, e.1.setsUp params = true := by
  cases h with
  | plain _ => exact ⟨[], by simp [DriverCall.setsUp, DriverCall.settles]⟩
  | encrypted hset _ _ _ => exact ⟨_, hset⟩

theorem StartedWith.kept (h : StartedWith c hasDiskIo2 media partition t w) :
    t.findSome? installed = some w ∧ ∀ e ∈ t, e.1.settles = true → installed e = some w := by
  cases h with
  | @started u m rest p ptr id w status hlook hquiet hid hmount hinst =>
  obtain ⟨params, hm⟩ := hmount.setsUp
  have hu : u.findSome? installed = none := List.findSome?_eq_none_iff.mpr fun e he =>
    installed_of_setsUp (hquiet params e (List.mem_append_left _ he))
  have hm' : m.findSome? installed = none := List.findSome?_eq_none_iff.mpr fun e he =>
    installed_of_setsUp (hm e he)
  have hw : installed ⟨.installFileSystem w, status⟩ = some w := if_neg (by simp [hinst])
  constructor
  · simp only [List.cons_append, List.findSome?_cons, List.findSome?_append, hu, hm', hw]
    rfl
  · intro e he hsettles
    have hfalse : ∀ {params}, e.1.setsUp params = true → installed e = some w := by
      intro params h
      rw [settles_of_setsUp h] at hsettles
      cases hsettles
    simp only [List.cons_append, List.mem_cons, List.mem_append] at he
    rcases he with rfl | he | rfl | rfl | he | rfl | he
    · cases hsettles
    · exact hfalse (hquiet params e (List.mem_append_left _ he))
    · cases hsettles
    · cases hsettles
    · exact hfalse (hm e he)
    · exact hw
    · exact hfalse (hquiet params e (List.mem_append_right _ he))

theorem StartedWith.placed (h : StartedWith c hasDiskIo2 media partition t w) :
    ∃ name, Placed c media.mediaId t w name ∧
      (partition ≠ .ok (wideString "android_expand") → w.fsType = some name) ∧
      (partition = .ok (wideString "android_expand") → w.fsType = none) := by
  have hkept := h.kept.2
  cases h with
  | @started u m rest p ptr id w status hlook hquiet hid hmount hinst =>
  cases hmount with
  | @plain fsType dir flags rc hrc =>
    cases hlook with
    | plain hname hprobe =>
    refine ⟨fsType, ⟨⟨by simp [newVolume], hid⟩, ?_, ?_, hkept⟩, fun _ => rfl,
      fun h => absurd h hname⟩
    · refine ⟨⟨.mountDev id 0 fsType flags, (rc, dir)⟩, by simp, ?_⟩
      exact if_pos ⟨rfl, hrc⟩
    · exact ⟨u, ⟨[_], _, rfl⟩, hprobe⟩
  | @encrypted keyFile key size flags data blk label dev dir name u₁ u₂ u₃ rc hset hprobe hrc
      hmount =>
    cases hlook with
    | encrypted hsize hread =>
    refine ⟨name, ⟨⟨by simp [newVolume], hid⟩, ?_, ?_, hkept⟩, fun h => absurd rfl h, fun _ => rfl⟩
    · exact ⟨⟨.sysMount dev dir (some name) flags, rc⟩, by simp [hmount], if_pos hrc⟩
    · refine ⟨u₂, (List.infix_append u₁ u₂ u₃).trans ?_, hprobe⟩
      exact ((List.prefix_append _ _).isInfix.trans (List.suffix_cons _ _).isInfix).trans
        ((List.suffix_cons _ _).isInfix.trans (List.suffix_append _ _).isInfix)

theorem StartedWith.keyWhole (h : StartedWith c hasDiskIo2 media partition t w)
    (hpartition : partition ≠ .ok (wideString "android_expand")) (content : Nat → Bytes) :
    KeyWhole content t w := by
  intro file size data fd name target rc _ hload
  cases h with
  | @started u m rest p ptr id w status hlook hquiet hid hmount hinst =>
  cases hlook with
  | encrypted => exact absurd rfl hpartition
  | plain =>
    cases hmount with
    | plain =>
    have hother := hquiet (0 :: target.params) ⟨.dmTableLoad fd name target, rc⟩
      (by simpa using hload)
    exact absurd (setsUp_tableLoad.mp hother) (by simp)

theorem StartedWith.keyHanded
    (h : StartedWith c hasDiskIo2 media (.ok (wideString "android_expand")) t w) :
    KeyHanded t w := by
  cases h with
  | @started u m rest p ptr id w status hlook hquiet hid hmount hinst =>
  cases hlook with
  | plain hname => exact absurd rfl hname
  | @encrypted _ keyFile key size data hsize hread =>
    cases hmount with
    | encrypted hset _ _ _ =>
    refine ⟨keyFile, size, data, by simp [hsize], by simp [hread], ?_⟩
    intro fd name target rc hload
    have hparams : ∀ {params}, (DriverCall.dmTableLoad fd name target).setsUp params = true →
        target.params = params := setsUp_tableLoad.mp
    simp only [List.cons_append, List.mem_cons, List.mem_append] at hload
    rcases hload with h | h | h | h | h | h | h
    · cases h
    · exact hparams (hquiet _ _ (List.mem_append_left _ h))
    · cases h
    · cases h
    · exact hparams (hset ⟨.dmTableLoad fd name target, rc⟩ (by simpa [or_assoc] using h))
    · cases h
    · exact hparams (hquiet _ _ (List.mem_append_right _ h))

theorem reportsName_of_fsType {name : Bytes} (h : w.fsType = some name) : ReportsName w name := by
  intro volume width bufferSize u status size info hread hexec
  obtain ⟨⟨rc, st⟩, v, rfl, h₁⟩ := Prog.exec_ask_bind_iff.mp hexec
  dsimp only at h₁
  by_cases hrc : rc = 0
  swap
  · rw [if_pos hrc] at h₁
    cases h₁
  rw [if_neg (not_not.mpr hrc)] at h₁
  split at h₁
  · cases h₁
    dsimp only
    rw [hread.fsType name h]
  · cases h₁

/-- Once `LKLAllocateVolume` succeeded, one volume is installed, its disk is registered and its
device mounted as it says, and an encrypted partition was set up with what was read of the key;
but the name of the file system is set for plain partitions only. -/
theorem startedVolume_described_iff (content : Nat → Bytes) {buffer : Nat}
    (h : (lklAllocateVolume buffer c hasDiskIo2 media).Exec t .success)
    (hdoc : ∀ e ∈ t, documented e = true) :
    ∃ partition v, t.head? = some ⟨.partitionName c, partition⟩ ∧
      t.findSome? installed = some v ∧
      (∃ name, Placed c media.mediaId t v name) ∧
      (partition = .ok (wideString "android_expand") → KeyHanded t v) ∧
      (WellDescribed content c media.mediaId t v ↔
        partition ≠ .ok (wideString "android_expand")) := by
  obtain ⟨partition, v, hstart⟩ := lklAllocateVolume_exec h hdoc rfl
  obtain ⟨name, hplaced, hplain, hencrypted⟩ := hstart.placed
  refine ⟨partition, v, ?_, hstart.kept.1, ⟨name, hplaced⟩, ?_, ?_⟩
  · cases hstart
    rfl
  · rintro rfl
    exact hstart.keyHanded
  · constructor
    · rintro ⟨name, _, hname, _⟩ heq
      rw [hencrypted heq] at hname
      cases hname
    · intro hne
      exact ⟨name, hplaced, hplain hne, hstart.keyWhole hne content,
        reportsName_of_fsType (hplain hne)⟩

end Whole

/-- Everything succeeds, for a partition of this name; each device has the magic of an ext file
system in its second kilobyte. -/
def startKernel (partition : List UInt16) : Handler DriverCall DriverCall.Ans Unit
  | .partitionName _, g => (.ok partition, g)
  | .devicePath _, g =>
    (some [⟨MEDIA_DEVICE_PATH, MEDIA_HARDDRIVE_DP, SIGNATURE_TYPE_GUID, List.replicate 16 0⟩], g)
  | .locateFileSystems, g => (.ok (7, [0]), g)
  | .readDisk _ _ _ _, g => (.ok (List.replicate 0x38 0 ++ [0o123, 0o357]), g)
  | .sysRead _ _, g => (.ok (List.replicate 0x38 0 ++ [0o123, 0o357]), g)
  | .mountDev _ _ _ _, g => (((0 : Int), mountPoint 0), g)
  | c, g => (c.granted, g)

def startTrace (partition : List UInt16) : DriverTrace :=
  (lklAllocateVolume 0 0 false ⟨0, false⟩).trace (startKernel partition) ()

theorem startTrace_exec (partition : List UInt16)
    (h : ((lklAllocateVolume 0 0 false ⟨0, false⟩).run (startKernel partition) ()).1 = .success) :
    (lklAllocateVolume 0 0 false ⟨0, false⟩).Exec (startTrace partition) .success := by
  have hexec := Prog.exec_trace (startKernel partition) (lklAllocateVolume 0 0 false ⟨0, false⟩) ()
  rwa [h] at hexec

/-- A partition without a name. -/
theorem startedVolume_described_iff_plain :
    ∃ v, (startTrace []).findSome? installed = some v ∧
      WellDescribed (fun _ => []) 0 0 (startTrace []) v := by
  obtain ⟨partition, v, hname, hinst, -, -, hiff⟩ := startedVolume_described_iff
    (c := 0) (t := startTrace []) (fun _ => []) (startTrace_exec [] (by decide)) (by decide)
  refine ⟨v, hinst, hiff.mpr ?_⟩
  cases hname
  decide

/-- The name of the file system on an encrypted partition is never set. -/
theorem startedVolume_undescribed :
    (lklAllocateVolume 0 0 false ⟨0, false⟩).Exec (startTrace (wideString "android_expand"))
        .success ∧
      ∃ v, (startTrace (wideString "android_expand")).findSome? installed = some v ∧
        v.fsType = none ∧
        ∀ content, ¬WellDescribed content 0 0 (startTrace (wideString "android_expand")) v := by
  refine ⟨startTrace_exec _ (by decide), _, rfl, rfl, ?_⟩
  rintro content ⟨name, -, hname, -⟩
  cases hname

end UefiLkl
