import UefiLkl.FileProtocol
import UefiLkl.Block
set_option autoImplicit false

/-!
The sizes that are reported: of records, and how much of a buffer they take, of volumes
and of disks.
-/

namespace UefiLkl
open Interaction

structure BufferWrite where
  off : Nat
  len : Nat
  deriving DecidableEq, Repr

/-- A program that writes to a buffer, and what it has written. -/
abbrev Writing (α : Type) := StateT (List BufferWrite) (Prog Call Call.Ans) α

def write (off len : Nat) : Writing Unit := modify (· ++ [⟨off, len⟩])

/-- `EpochToEfiTime`, for a structure at offset `off`, writes year, month, day, hour, minute,
second and nanosecond. -/
def writeTime (off : Nat) : Writing Unit := do
  write off 2
  write (off + 2) 1
  write (off + 3) 1
  write (off + 4) 1
  write (off + 5) 1
  write (off + 6) 1
  write (off + 8) 4

/-- The fixed part is zeroed, then the size and the name are written. -/
def writeNewFileInfo (name : Bytes) : Writing Unit := do
  write 0 SIZE_OF_EFI_FILE_INFO
  write 0 8
  write SIZE_OF_EFI_FILE_INFO (unicodeSize name)

/-- `FileSize`, `PhysicalSize`, the times of access, modification and creation, `Attribute`. -/
def writeFill : Writing Unit := do
  write 8 8
  write 16 8
  writeTime 40
  writeTime 56
  writeTime 24
  write 72 8

def lklFillFileInfoWriting (w : Nat) (fd : Int) (info : EfiFileInfo) :
    Writing (EfiStatus × EfiFileInfo) := do
  let (rc, st) ← lklSysFstat fd
  if rc ≠ 0 then pure (.deviceError, info)
  else
    writeFill
    pure (.success, fillFileInfo w st info)

def lklGetFileInfoWriting (w : Nat) (f : LklIfile) (bufferSize : Nat) :
    Writing (EfiStatus × Nat × Option EfiInfo) := do
  let name := ifileName f
  let resultSize := SIZE_OF_EFI_FILE_INFO + unicodeSize name
  if resultSize > bufferSize then pure (.bufferTooSmall, resultSize, none)
  else
    writeNewFileInfo name
    let (_, info) ← lklFillFileInfoWriting w f.fd (newFileInfo resultSize name)
    write 72 8
    pure (.success, bufferSize, some (.file { info with attr := handleAttribute f info.attr }))

/-- Behind the zeroed fixed part comes the label. -/
def writeVolumeInfo (fsType : Bytes) : Writing Unit := do
  write 0 SIZE_OF_EFI_FILE_SYSTEM_INFO
  write 0 8
  write 8 1
  write 32 4
  write 16 8
  write 24 8
  write SIZE_OF_EFI_FILE_SYSTEM_INFO (unicodeSize fsType)

def lklGetVolumeInfoWriting (w : Nat) (volume : LklVolume) (bufferSize : Nat) :
    Writing (EfiStatus × Nat × Option EfiInfo) := do
  let (status, size, info) ← lklGetVolumeInfo w volume bufferSize
  if info.isSome then writeVolumeInfo volume.fsType
  pure (status, size, info)

def entryInfoWriting (w : Nat) (f : LklIfile) (resultSize : Nat) (name : Bytes) :
    Writing EfiFileInfo := do
  writeNewFileInfo name
  let info := newFileInfo resultSize name
  let fd ← lklSysOpenat f.fd name O_RDONLY 0o644
  if fd ≥ 0 then
    let (_, info) ← lklFillFileInfoWriting w fd info
    let _ ← lklSysClose fd
    pure info
  else pure info

def lklIFileReadDirWriting (w : Nat) (f : LklIfile) (bufferSize : Nat) :
    Writing (EfiStatus × Nat × Option EfiFileInfo × LklIfile) := do
  match ← openDir f with
  | .error status => pure (status, bufferSize, none, f)
  | .ok dir =>
    let f := { f with dir := some dir }
    match ← (match f.dirEnt with
      | none => lklReaddir dir
      | some name => pure (some name)) with
    | none =>
      let err ← lklErrdir dir
      if err ≠ 0 then pure (.deviceError, 0, none, f)
      else pure (.success, 0, none, { f with dirEnt := none })
    | some name =>
      let resultSize := SIZE_OF_EFI_FILE_INFO + unicodeSize name
      if resultSize > bufferSize then
        pure (.bufferTooSmall, resultSize, none, { f with dirEnt := some name })
      else
        let info ← entryInfoWriting w f resultSize name
        pure (.success, bufferSize, some info, { f with dirEnt := none })

def lklGetInfoWriting (w : Nat) (f : LklIfile) (type : EfiGuid) (bufferSize : Nat) :
    Writing (EfiStatus × Nat × Option EfiInfo) :=
  match type with
  | .fileInfo => lklGetFileInfoWriting w f bufferSize
  | .fileSystemInfo => lklGetVolumeInfoWriting w f.volume bufferSize
  | .other => pure (.unsupported, bufferSize, none)

def lklReadWriting (w : Nat) (f : LklIfile) (bufferSize : Nat) :
    Writing (EfiStatus × Nat × IoData × LklIfile) := do
  if isDirMode f.statBuf.mode then
    let (status, size, info, f) ← lklIFileReadDirWriting w f bufferSize
    pure (status, size, .entry info, f)
  else
    match ← lklSysRead f.fd bufferSize with
    | .error rc => pure (lklError2EfiError rc, bufferSize, .none, f)
    | .ok data =>
      write 0 data.length
      pure (.success, data.length, .bytes data, f)

section Erasing

variable {α β : Type} {w bufferSize : Nat}

/-- The program is `p`, but for what it writes. -/
def Writing.Erases (x : Writing α) (p : Lkl α) : Prop :=
  ∀ log, (x.run log >>= fun r => pure r.1) = p

theorem Writing.erases_pure (a : α) : Erases (pure a) (pure a) := fun _ => rfl

theorem Writing.erases_lift (p : Lkl α) : Erases (liftM p) p := by
  intro log
  change ((p >>= fun a => pure (a, log)) >>= fun r => pure r.1) = p
  rw [bind_assoc]
  exact bind_pure p

theorem Writing.Erases.bind {x : Writing α} {p : Lkl α} {f : α → Writing β} {g : α → Lkl β}
    (hx : Erases x p) (hf : ∀ a, Erases (f a) (g a)) : Erases (x >>= f) (p >>= g) := by
  intro log
  change ((x.run log >>= fun r => (f r.1).run r.2) >>= fun r => pure r.1) = p >>= g
  rw [← hx log, bind_assoc, bind_assoc]
  refine bind_congr fun r => ?_
  rw [pure_bind]
  exact hf r.1 r.2

theorem Writing.Erases.then {x : Writing Unit} {f : Writing β} {p : Lkl β}
    (hx : Erases x (pure ())) (hf : Erases f p) : Erases (x >>= fun _ => f) p := by
  have hbind := hx.bind fun _ => hf
  rwa [pure_bind] at hbind

theorem erases_write (off len : Nat) : (write off len).Erases (pure ()) := fun _ => rfl

theorem erases_writeNewFileInfo (name : Bytes) : (writeNewFileInfo name).Erases (pure ()) :=
  fun _ => rfl

theorem erases_writeFill : writeFill.Erases (pure ()) := fun _ => rfl

theorem erases_lklFillFileInfo (fd : Int) (info : EfiFileInfo) :
    (lklFillFileInfoWriting w fd info).Erases (lklFillFileInfo w fd info) := by
  refine (Writing.erases_lift _).bind fun r => ?_
  obtain ⟨rc, st⟩ := r
  dsimp only
  split
  · exact Writing.erases_pure _
  · exact erases_writeFill.then (Writing.erases_pure _)

theorem erases_lklGetFileInfo (f : LklIfile) :
    (lklGetFileInfoWriting w f bufferSize).Erases (lklGetFileInfo w f bufferSize) := by
  dsimp only [lklGetFileInfoWriting, lklGetFileInfo]
  split
  · exact Writing.erases_pure _
  · refine (erases_writeNewFileInfo _).then ((erases_lklFillFileInfo _ _).bind fun r => ?_)
    exact (erases_write _ _).then (Writing.erases_pure _)

theorem erases_lklGetVolumeInfo (volume : LklVolume) :
    (lklGetVolumeInfoWriting w volume bufferSize).Erases
      (lklGetVolumeInfo w volume bufferSize) := by
  have hbind := (Writing.erases_lift (lklGetVolumeInfo w volume bufferSize)).bind
    (f := fun r => do
      if r.2.2.isSome then writeVolumeInfo volume.fsType
      pure (r.1, r.2.1, r.2.2)) (g := fun r => pure r) fun r => by
      obtain ⟨status, size, info⟩ := r
      cases info <;> exact fun _ => rfl
  rwa [bind_pure] at hbind

theorem erases_entryInfo (f : LklIfile) (resultSize : Nat) (name : Bytes) :
    (entryInfoWriting w f resultSize name).Erases (entryInfo w f resultSize name) := by
  refine (erases_writeNewFileInfo _).then ((Writing.erases_lift _).bind fun fd => ?_)
  split
  · refine (erases_lklFillFileInfo _ _).bind fun r => ?_
    exact (Writing.erases_lift _).bind fun _ => Writing.erases_pure _
  · exact Writing.erases_pure _

theorem erases_lklIFileReadDir (f : LklIfile) :
    (lklIFileReadDirWriting w f bufferSize).Erases (lklIFileReadDir w f bufferSize) := by
  refine (Writing.erases_lift _).bind fun dir => ?_
  cases dir with
  | error status => exact Writing.erases_pure _
  | ok dir =>
    refine Writing.Erases.bind ?_ fun name => ?_
    · cases f.dirEnt with
      | none => exact Writing.erases_lift _
      | some name => exact Writing.erases_pure _
    · cases name with
      | none =>
        refine (Writing.erases_lift _).bind fun err => ?_
        split
        · exact Writing.erases_pure _
        · exact Writing.erases_pure _
      | some name =>
        dsimp only
        split
        · exact Writing.erases_pure _
        · exact (erases_entryInfo _ _ _).bind fun _ => Writing.erases_pure _

/-- The calls with their writes are those of the protocol. -/
theorem erases_lklGetInfo (f : LklIfile) (type : EfiGuid) :
    (lklGetInfoWriting w f type bufferSize).Erases (lklGetInfo w f type bufferSize) := by
  cases type with
  | fileInfo => exact erases_lklGetFileInfo f
  | fileSystemInfo => exact erases_lklGetVolumeInfo f.volume
  | other => exact Writing.erases_pure _

theorem erases_lklRead (f : LklIfile) :
    (lklReadWriting w f bufferSize).Erases (lklRead w f bufferSize) := by
  unfold lklReadWriting lklRead lklIFileAccess
  by_cases hdir : isDirMode f.statBuf.mode = true
  · simp only [hdir, if_true, reduceCtorEq, and_false, if_false, false_and]
    exact (erases_lklIFileReadDir f).bind fun _ => Writing.erases_pure _
  · simp only [hdir, if_false, reduceCtorEq, and_false, false_and]
    refine (Writing.erases_lift _).bind fun r => ?_
    cases r with
    | error rc => exact Writing.erases_pure _
    | ok data => exact (erases_write _ _).then (Writing.erases_pure _)

end Erasing

def obliging (entry : Bytes) : Env Call Call.Ans Unit where
  may _ c x _ := match c, x with
    | .sysFstat _, x => x.1 = 0
    | .sysStatfs _, x => x.1 = 0
    | .sysOpenat _ _ _ _, x => 0 ≤ x
    | .sysClose _, x => x = 0
    | .fdopendir _, x => x.1.isSome
    | .readdir _, x => x = some entry
    | _, _ => True

inductive Inquiry where
  | fileInfo | fileSystemInfo | readDir
  deriving DecidableEq, Repr

def EfiInfo.size : EfiInfo → Nat
  | .file info => info.size
  | .fileSystem info => info.size

def IoData.size : IoData → Option Nat
  | .entry info => info.map EfiFileInfo.size
  | _ => Option.none

/-- The status, `*BufferSize` and the `Size` field of the record. -/
def Inquiry.ask (w : Nat) (f : LklIfile) (bufferSize : Nat) :
    Inquiry → Writing (EfiStatus × Nat × Option Nat)
  | .fileInfo => do
    let (status, size, info) ← lklGetInfoWriting w f .fileInfo bufferSize
    pure (status, size, info.map EfiInfo.size)
  | .fileSystemInfo => do
    let (status, size, info) ← lklGetInfoWriting w f .fileSystemInfo bufferSize
    pure (status, size, info.map EfiInfo.size)
  | .readDir => do
    let (status, size, data, _) ← lklReadWriting w f bufferSize
    pure (status, size, data.size)

/-- The fixed part, and two bytes for each character of the name and the terminator. -/
def Inquiry.recordSize (f : LklIfile) (entry : Bytes) : Inquiry → Nat
  | .fileInfo => SIZE_OF_EFI_FILE_INFO + unicodeSize (ifileName f)
  | .fileSystemInfo => SIZE_OF_EFI_FILE_SYSTEM_INFO + unicodeSize f.volume.fsType
  | .readDir => SIZE_OF_EFI_FILE_INFO + unicodeSize entry

/-- A directory is read at `entry`, be it the next or one that did not fit before. -/
def Inquiry.Positioned (f : LklIfile) (entry : Bytes) (i : Inquiry) : Prop :=
  i = .readDir → isDirMode f.statBuf.mode = true ∧ ∀ name, f.dirEnt = some name → name = entry

/-- A buffer that is too small is left alone and its size asked for; any other takes the record. -/
structure Negotiated (need bufferSize : Nat) (r : EfiStatus × Nat × Option Nat)
    (writes : List BufferWrite) : Prop where
  tooSmall : r.1 = .bufferTooSmall ↔ bufferSize < need
  asked : r.1 = .bufferTooSmall → r.2.1 = need ∧ writes = []
  filled : r.1 ≠ .bufferTooSmall → r.1 = .success ∧ r.2.2 = some need ∧ r.2.1 = need ∧
    ∀ x ∈ writes, x.off + x.len ≤ r.2.1

/-- What a call does: on success `size` is left in `*BufferSize`. -/
inductive InquiryAnswer (need bufferSize size : Nat) :
    EfiStatus × Nat × Option Nat → List BufferWrite → Prop where
  | tooSmall (h : bufferSize < need) :
      InquiryAnswer need bufferSize size (.bufferTooSmall, need, none) []
  | filled {writes : List BufferWrite} (h : need ≤ bufferSize)
      (hwrites : ∀ x ∈ writes, x.off + x.len ≤ need) :
      InquiryAnswer need bufferSize size (.success, size, some need) writes

section Negotiation

variable {α β : Type} {entry : Bytes} {need bufferSize size w n : Nat}

/-- What the program returns and writes, when the system calls succeed. -/
def Writing.Spec (entry : Bytes) (x : Writing α) (Q : α → List BufferWrite → Prop) : Prop :=
  ∀ log, (obliging entry).Always (x.run log)
    (fun r _ => ∃ writes, r.2 = log ++ writes ∧ Q r.1 writes) ()

theorem Writing.spec_pure {Q : α → List BufferWrite → Prop} {a : α} (h : Q a []) :
    Spec entry (pure a) Q := fun log => ⟨[], (List.append_nil log).symm, h⟩

theorem Writing.spec_lift {Q : α → List BufferWrite → Prop} {p : Lkl α}
    (h : (obliging entry).Always p (fun a _ => Q a []) ()) : Spec entry (liftM p) Q := by
  intro log
  change (obliging entry).Always (p >>= fun a => pure (a, log)) _ ()
  exact Env.always_bind.mpr (h.mono fun a _ ha => ⟨[], (List.append_nil log).symm, ha⟩)

theorem Writing.Spec.bind {x : Writing α} {f : α → Writing β} {P : α → List BufferWrite → Prop}
    {Q : β → List BufferWrite → Prop} (hx : Spec entry x P)
    (hf : ∀ a ws, P a ws → Spec entry (f a) fun b ws' => Q b (ws ++ ws')) :
    Spec entry (x >>= f) Q := by
  intro log
  change (obliging entry).Always (x.run log >>= fun r => (f r.1).run r.2) _ ()
  refine Env.always_bind.mpr ((hx log).mono fun r _ hr => ?_)
  obtain ⟨ws, hlog, hws⟩ := hr
  refine (hf r.1 ws hws r.2).mono fun r' _ hr' => ?_
  obtain ⟨ws', hlog', hws'⟩ := hr'
  exact ⟨ws ++ ws', by rw [hlog', hlog, List.append_assoc], hws'⟩

theorem Writing.Spec.mono {x : Writing α} {P Q : α → List BufferWrite → Prop}
    (hx : Spec entry x P) (h : ∀ a ws, P a ws → Q a ws) : Spec entry x Q := fun log =>
  (hx log).mono fun _ _ ⟨ws, hlog, hws⟩ => ⟨ws, hlog, h _ ws hws⟩

/-- The program writes only the first `n` bytes, and returns what satisfies `P`. -/
def Writing.Below (entry : Bytes) (n : Nat) (x : Writing α) (P : α → Prop) : Prop :=
  Spec entry x fun a writes => P a ∧ ∀ y ∈ writes, y.off + y.len ≤ n

theorem Writing.below_pure {P : α → Prop} {a : α} (h : P a) : Below entry n (pure a) P :=
  spec_pure ⟨h, by simp⟩

theorem Writing.Below.bind {x : Writing α} {f : α → Writing β} {P : α → Prop} {Q : β → Prop}
    (hx : Below entry n x P) (hf : ∀ a, P a → Below entry n (f a) Q) :
    Below entry n (x >>= f) Q :=
  Spec.bind hx fun a _ ⟨ha, hws⟩ => (hf a ha).mono fun _ _ ⟨hb, hws'⟩ =>
    ⟨hb, fun y hy => (List.mem_append.mp hy).elim (hws y) (hws' y)⟩

theorem Writing.Below.weaken {m : Nat} {x : Writing α} {P : α → Prop} (hx : Below entry n x P)
    (h : n ≤ m) : Below entry m x P :=
  hx.mono fun _ _ ⟨ha, hws⟩ => ⟨ha, fun y hy => (hws y hy).trans h⟩

theorem Writing.Below.spec {x : Writing α} {P : α → Prop} {Q : α → List BufferWrite → Prop}
    (hx : Below entry n x P) (h : ∀ a ws, P a → (∀ y ∈ ws, y.off + y.len ≤ n) → Q a ws) :
    Spec entry x Q :=
  hx.mono fun a ws ⟨ha, hws⟩ => h a ws ha hws

theorem below_write {off len : Nat} (h : off + len ≤ n) :
    (write off len).Below entry n fun _ => True := by
  intro log
  exact ⟨[⟨off, len⟩], rfl, trivial, by simpa using h⟩

theorem Writing.below_lift {P : α → Prop} {p : Lkl α}
    (h : (obliging entry).Always p (fun a _ => P a) ()) : Below entry n (liftM p) P :=
  spec_lift (h.mono fun _ _ ha => ⟨ha, by simp⟩)

theorem Writing.Below.then {x : Writing Unit} {f : Writing β} {Q : β → Prop}
    (hx : Below entry n x fun _ => True) (hf : Below entry n f Q) :
    Below entry n (x >>= fun _ => f) Q :=
  hx.bind fun _ _ => hf

theorem below_writeTime {off : Nat} (h : off + 16 ≤ n) :
    (writeTime off).Below entry n fun _ => True := by
  refine (below_write (by omega)).then ((below_write (by omega)).then ?_)
  refine (below_write (by omega)).then ((below_write (by omega)).then ?_)
  refine (below_write (by omega)).then ((below_write (by omega)).then ?_)
  exact below_write (by omega)

theorem below_writeNewFileInfo (name : Bytes) :
    (writeNewFileInfo name).Below entry (SIZE_OF_EFI_FILE_INFO + unicodeSize name)
      fun _ => True := by
  simp only [SIZE_OF_EFI_FILE_INFO]
  exact (below_write (by simp [SIZE_OF_EFI_FILE_INFO])).then
    ((below_write (by omega)).then (below_write (Nat.le_refl _)))

theorem below_writeFill : writeFill.Below entry SIZE_OF_EFI_FILE_INFO fun _ => True := by
  refine (below_write (by decide)).then ((below_write (by decide)).then ?_)
  refine (below_writeTime (by decide)).then ((below_writeTime (by decide)).then ?_)
  exact (below_writeTime (by decide)).then (below_write (by decide))

theorem below_lklFillFileInfo (fd : Int) (info : EfiFileInfo) :
    (lklFillFileInfoWriting w fd info).Below entry SIZE_OF_EFI_FILE_INFO
      fun r => r.2.size = info.size := by
  refine (Writing.below_lift (P := fun _ => True) (Prog.ends_true.always)).bind fun r _ => ?_
  obtain ⟨rc, st⟩ := r
  dsimp only
  split
  · exact Writing.below_pure rfl
  · exact below_writeFill.then (Writing.below_pure rfl)

theorem spec_lklGetFileInfo (f : LklIfile) :
    (lklGetFileInfoWriting w f bufferSize).Spec entry fun r writes =>
      InquiryAnswer (Inquiry.fileInfo.recordSize f entry) bufferSize bufferSize
        (r.1, r.2.1, r.2.2.map EfiInfo.size) writes := by
  dsimp only [lklGetFileInfoWriting]
  split
  · exact Writing.spec_pure (.tooSmall ‹_›)
  · rename_i hsize
    refine Writing.Below.spec (n := Inquiry.fileInfo.recordSize f entry)
      (P := fun r => r.1 = .success ∧ r.2.1 = bufferSize ∧
        r.2.2.map EfiInfo.size = some (Inquiry.fileInfo.recordSize f entry)) ?_ ?_
    · refine (below_writeNewFileInfo _).then ?_
      refine ((below_lklFillFileInfo _ _).weaken (Nat.le_add_right _ _)).bind fun r hr => ?_
      refine (below_write ?_).then (Writing.below_pure ⟨rfl, rfl, congrArg some hr⟩)
      simp only [SIZE_OF_EFI_FILE_INFO]
      omega
    · intro r ws hr hws
      rw [hr.1, hr.2.1, hr.2.2]
      exact .filled (Nat.le_of_not_lt hsize) hws

theorem spec_lklGetVolumeInfo (f : LklIfile) :
    (lklGetVolumeInfoWriting w f.volume bufferSize).Spec entry fun r writes =>
      InquiryAnswer (Inquiry.fileSystemInfo.recordSize f entry) bufferSize
        (Inquiry.fileSystemInfo.recordSize f entry)
        (r.1, r.2.1, r.2.2.map EfiInfo.size) writes := by
  have hinfo : (obliging entry).Always (lklGetVolumeInfo w f.volume bufferSize) (fun r _ =>
      bufferSize < Inquiry.fileSystemInfo.recordSize f entry ∧
        r = (.bufferTooSmall, Inquiry.fileSystemInfo.recordSize f entry, none) ∨
      Inquiry.fileSystemInfo.recordSize f entry ≤ bufferSize ∧ ∃ info,
        r = (.success, Inquiry.fileSystemInfo.recordSize f entry, some info) ∧
        info.size = Inquiry.fileSystemInfo.recordSize f entry) () := by
    refine Env.always_ask_bind.mpr fun x _ hx => ?_
    obtain ⟨rc, st⟩ := x
    have hrc : rc = 0 := hx
    simp only [hrc, ne_eq, not_true_eq_false, if_false]
    split
    · exact .inr ⟨‹_›, _, rfl, rfl⟩
    · exact .inl ⟨Nat.lt_of_not_le ‹_›, rfl⟩
  refine (Writing.spec_lift (Q := fun r writes => writes = [] ∧ _) (hinfo.mono fun r _ hr =>
    ⟨rfl, hr⟩)).bind fun r ws hr => ?_
  obtain ⟨rfl, ⟨hsize, rfl⟩ | ⟨hsize, info, rfl, hinfo⟩⟩ := hr
  · exact Writing.spec_pure (.tooSmall hsize)
  · refine Writing.Below.spec (n := Inquiry.fileSystemInfo.recordSize f entry)
      (P := fun r => r = (.success, Inquiry.fileSystemInfo.recordSize f entry, some info)) ?_ ?_
    · have hfixed : SIZE_OF_EFI_FILE_SYSTEM_INFO ≤ Inquiry.fileSystemInfo.recordSize f entry :=
        Nat.le_add_right _ _
      simp only [SIZE_OF_EFI_FILE_SYSTEM_INFO] at hfixed
      refine Writing.Below.then (x := writeVolumeInfo f.volume.fsType) ?_ (Writing.below_pure rfl)
      refine (below_write hfixed).then ((below_write (by omega)).then ?_)
      refine (below_write (by omega)).then ((below_write (by omega)).then ?_)
      refine (below_write (by omega)).then ((below_write (by omega)).then ?_)
      exact below_write (Nat.le_refl _)
    · rintro r ws rfl hws
      simp only [Option.map_some, hinfo]
      exact .filled hsize hws

theorem below_entryInfo (f : LklIfile) (resultSize : Nat) (name : Bytes) :
    (entryInfoWriting w f resultSize name).Below entry (SIZE_OF_EFI_FILE_INFO + unicodeSize name)
      fun info => info.size = resultSize := by
  refine (below_writeNewFileInfo _).then ?_
  refine (Writing.below_lift (P := fun _ => True) Prog.ends_true.always).bind fun fd _ => ?_
  split
  · refine ((below_lklFillFileInfo _ _).weaken (Nat.le_add_right _ _)).bind fun r hr => ?_
    refine (Writing.below_lift (P := fun _ => True) Prog.ends_true.always).bind fun _ _ => ?_
    exact Writing.below_pure hr
  · exact Writing.below_pure rfl

theorem openDir_obliging (f : LklIfile) :
    (obliging entry).Always (openDir f) (fun r _ => ∃ dir, r = .ok dir) () := by
  unfold openDir
  cases f.dir with
  | some dir => exact ⟨dir, rfl⟩
  | none =>
    refine Env.always_ask_bind.mpr fun x _ hx => ?_
    obtain ⟨dir, rc⟩ := x
    cases dir with
    | some dir => exact ⟨dir, rfl⟩
    | none => cases hx

theorem spec_lklIFileReadDir (f : LklIfile) (hent : ∀ name, f.dirEnt = some name → name = entry) :
    (lklIFileReadDirWriting w f bufferSize).Spec entry fun r writes =>
      InquiryAnswer (Inquiry.readDir.recordSize f entry) bufferSize bufferSize
        (r.1, r.2.1, r.2.2.1.map EfiFileInfo.size) writes := by
  refine (Writing.spec_lift (Q := fun r writes => writes = [] ∧ ∃ dir, r = .ok dir)
    ((openDir_obliging f).mono fun r _ hr => ⟨rfl, hr⟩)).bind fun r ws hr => ?_
  obtain ⟨rfl, dir, rfl⟩ := hr
  refine Writing.Spec.bind (P := fun name writes => writes = [] ∧ name = some entry) ?_
    fun name ws hname => ?_
  · cases hname : f.dirEnt with
    | none =>
      refine Writing.spec_lift fun x _ hx => ⟨rfl, ?_⟩
      exact hx
    | some name => exact Writing.spec_pure ⟨rfl, congrArg some (hent name hname)⟩
  · obtain ⟨rfl, rfl⟩ := hname
    dsimp only
    split
    · exact Writing.spec_pure (.tooSmall ‹_›)
    · rename_i hsize
      refine Writing.Below.spec (n := Inquiry.readDir.recordSize f entry)
        (P := fun r => r.1 = .success ∧ r.2.1 = bufferSize ∧
          r.2.2.1.map EfiFileInfo.size = some (Inquiry.readDir.recordSize f entry)) ?_ ?_
      · refine (below_entryInfo _ _ _).bind fun info hinfo => ?_
        exact Writing.below_pure ⟨rfl, rfl, congrArg some hinfo⟩
      · intro r ws hr hws
        rw [hr.1, hr.2.1, hr.2.2]
        exact .filled (Nat.le_of_not_lt hsize) hws

/-- What is left in `*BufferSize` after a call that succeeds. -/
def Inquiry.left (f : LklIfile) (entry : Bytes) (bufferSize : Nat) : Inquiry → Nat
  | .fileSystemInfo => Inquiry.fileSystemInfo.recordSize f entry
  | _ => bufferSize

theorem Inquiry.spec_ask {i : Inquiry} {f : LklIfile} (hpos : i.Positioned f entry) :
    (i.ask w f bufferSize).Spec entry
      (InquiryAnswer (i.recordSize f entry) bufferSize (i.left f entry bufferSize)) := by
  cases i with
  | fileInfo =>
    refine (spec_lklGetFileInfo f).bind fun r ws hr => Writing.spec_pure ?_
    rw [List.append_nil]
    exact hr
  | fileSystemInfo =>
    refine (spec_lklGetVolumeInfo f).bind fun r ws hr => Writing.spec_pure ?_
    rw [List.append_nil]
    exact hr
  | readDir =>
    obtain ⟨hdir, hent⟩ := hpos rfl
    have hread : (lklReadWriting w f bufferSize).Spec entry fun r writes =>
        InquiryAnswer (Inquiry.readDir.recordSize f entry) bufferSize bufferSize
          (r.1, r.2.1, r.2.2.1.size) writes := by
      simp only [lklReadWriting, hdir, if_true]
      refine (spec_lklIFileReadDir f hent).bind fun r ws hr => Writing.spec_pure ?_
      rw [List.append_nil]
      exact hr
    refine hread.bind fun r ws hr => Writing.spec_pure ?_
    rw [List.append_nil]
    exact hr

theorem InquiryAnswer.negotiated_iff {r : EfiStatus × Nat × Option Nat} {writes : List BufferWrite}
    (h : InquiryAnswer need bufferSize size r writes) :
    Negotiated need bufferSize r writes ↔ bufferSize < need ∨ size = need := by
  cases h with
  | tooSmall h =>
    refine ⟨fun _ => .inl h, fun _ => ⟨by simpa using h, fun _ => ⟨rfl, rfl⟩, ?_⟩⟩
    exact fun hne => absurd rfl hne
  | filled h hwrites =>
    constructor
    · intro hn
      exact .inr (hn.filled EfiStatus.noConfusion).2.2.1
    · rintro (hlt | rfl)
      · omega
      · exact ⟨by simpa using h, fun he => EfiStatus.noConfusion he,
          fun _ => ⟨rfl, rfl, rfl, hwrites⟩⟩

/-- Every call asks for the size of its record, but only that for a volume says, when it was
given more, how much it took. -/
theorem inquiry_negotiated_iff {i : Inquiry} {f : LklIfile} (hpos : i.Positioned f entry)
    {r : EfiStatus × Nat × Option Nat} {writes : List BufferWrite}
    (hrun : (obliging entry).Ran ((i.ask w f bufferSize).run []) () (r, writes) ()) :
    (Negotiated (i.recordSize f entry) bufferSize r writes ↔
      i = .fileSystemInfo ∨ bufferSize ≤ i.recordSize f entry) ∧
    (bufferSize = i.recordSize f entry → r.1 = .success) := by
  obtain ⟨ws, hlog, hanswered⟩ := ((i.spec_ask hpos) []).ran hrun
  rw [List.nil_append] at hlog
  subst hlog
  constructor
  · rw [hanswered.negotiated_iff]
    cases i with
    | fileInfo =>
      simp only [Inquiry.left, reduceCtorEq, false_or]
      omega
    | fileSystemInfo => simp [Inquiry.left]
    | readDir =>
      simp only [Inquiry.left, reduceCtorEq, false_or]
      omega
  · intro hsize
    cases hanswered with
    | tooSmall h => omega
    | filled h hwrites => rfl

end Negotiation

def plainRoot : LklIfile :=
  ⟨1, ⟨.of (ascii ['/', 'm']), false, .of (ascii ['e', 'x', 't'])⟩, 3, O_RDONLY,
    ⟨S_IFDIR, 0, 0, 0, 0⟩, .of [], none, none⟩

theorem inquiry_negotiated_same_size :
    ∃ r writes, (obliging []).Ran ((Inquiry.fileInfo.ask 32 plainRoot 82).run []) ()
        (r, writes) () ∧
      Negotiated 82 82 r writes ∧ r.1 = .success := by
  have hrun : (obliging []).Ran ((Inquiry.fileInfo.ask 32 plainRoot 82).run []) () _ () :=
    .call (x := ((0 : Int), (default : Stat))) (by exact (rfl : (0 : Int) = 0)) (.ret _ _)
  have hpos : Inquiry.fileInfo.Positioned plainRoot [] := fun h => Inquiry.noConfusion h
  obtain ⟨hiff, hsuccess⟩ := inquiry_negotiated_iff hpos hrun
  exact ⟨_, _, hrun, hiff.mpr (.inr (by decide)), hsuccess rfl⟩

/-- A buffer of 200 bytes, of which 82 are taken: its size is left as it was. -/
theorem inquiry_negotiated_larger_buffer :
    ∃ r writes, (obliging []).Ran ((Inquiry.fileInfo.ask 32 plainRoot 200).run []) ()
        (r, writes) () ∧
      r.2.1 = 200 ∧ r.2.2 = some 82 ∧ ¬Negotiated 82 200 r writes := by
  have hrun : (obliging []).Ran ((Inquiry.fileInfo.ask 32 plainRoot 200).run []) () _ () :=
    .call (x := ((0 : Int), (default : Stat))) (by exact (rfl : (0 : Int) = 0)) (.ret _ _)
  refine ⟨_, _, hrun, rfl, rfl, fun hn => ?_⟩
  have hsize := (hn.filled EfiStatus.noConfusion).2.2.1
  exact absurd hsize (by decide)

theorem uefiBlkGetCapacity_toNat {media : BlockMedia}
    (h : (media.lastBlock.toNat + 1) * media.blockSize.toNat < 2 ^ 64) :
    (uefiBlkGetCapacity media).toNat = (media.lastBlock.toNat + 1) * media.blockSize.toNat := by
  have hone : (1 : BitVec 64).toNat = 1 := rfl
  rw [uefiBlkGetCapacity, BitVec.toNat_mul, BitVec.toNat_add,
    BitVec.toNat_setWidth_of_le (by decide), hone]
  by_cases hzero : media.blockSize.toNat = 0
  · simp [hzero]
  · have hle : media.lastBlock.toNat + 1 ≤ (media.lastBlock.toNat + 1) * media.blockSize.toNat :=
      Nat.le_mul_of_pos_right _ (Nat.pos_of_ne_zero hzero)
    rw [Nat.mod_eq_of_lt (hle.trans_lt h), Nat.mod_eq_of_lt h]

theorem mul_toNat_of_words {a b : Nat} (ha : a < 2 ^ 32) (hb : b < 2 ^ 32) :
    (BitVec.ofNat 32 a * BitVec.ofNat 32 b).toNat = a * b % 2 ^ 32 := by
  rw [BitVec.toNat_mul, BitVec.toNat_ofNat, BitVec.toNat_ofNat, Nat.mod_eq_of_lt ha,
    Nat.mod_eq_of_lt hb]

/-- The products that a volume is described by are exact while they are words; the capacity of
a disk is computed in 64 bits. -/
theorem reported_sizes_exact_iff {st : Statfs} (hblocks : st.blocks < 2 ^ 32)
    (hbsize : st.bsize < 2 ^ 32) (hfree : st.bfree ≤ st.blocks) {volume : LklVolume}
    {bufferSize size : Nat} {status : EfiStatus} {info : EfiFileSystemInfo}
    (hexec : (lklGetVolumeInfo 32 volume bufferSize).Exec
      [⟨.sysStatfs volume.lklMountPoint, ((0 : Int), st)⟩]
      (status, size, some (.fileSystem info))) :
    (info.volumeSize = st.blocks * st.bsize ∧ info.freeSpace = st.bfree * st.bsize ∧
      info.freeSpace ≤ info.volumeSize ↔ st.blocks * st.bsize < 2 ^ 32) ∧
    ∀ media : BlockMedia, (media.lastBlock.toNat + 1) * media.blockSize.toNat < 2 ^ 64 →
      (uefiBlkGetCapacity media).toNat =
        (media.lastBlock.toNat + 1) * media.blockSize.toNat := by
  refine ⟨?_, fun media => uefiBlkGetCapacity_toNat⟩
  obtain ⟨x, u, ht, hu⟩ := Prog.exec_ask_bind_iff.mp hexec
  cases ht
  simp only [ne_eq, not_true_eq_false, if_false] at hu
  split at hu
  · obtain ⟨-, hr⟩ := Prog.exec_ret_iff.mp hu
    simp only [Prod.mk.injEq, Option.some.injEq, EfiInfo.fileSystem.injEq] at hr
    obtain ⟨-, -, rfl⟩ := hr
    have hproduct : st.bfree * st.bsize ≤ st.blocks * st.bsize :=
      Nat.mul_le_mul_right st.bsize hfree
    simp only [Nat.mod_eq_of_lt hbsize, mul_toNat_of_words hblocks hbsize,
      mul_toNat_of_words (hfree.trans_lt hblocks) hbsize]
    constructor
    · intro h
      rw [← h.1]
      exact Nat.mod_lt _ (by decide)
    · intro h
      rw [Nat.mod_eq_of_lt h, Nat.mod_eq_of_lt (hproduct.trans_lt h)]
      exact ⟨rfl, rfl, hproduct⟩
  · obtain ⟨-, hr⟩ := Prog.exec_ret_iff.mp hu
    cases hr

/-- Two blocks of 512 bytes, one of them free. -/
theorem reported_sizes_exact_small : ∃ size info,
    (lklGetVolumeInfo 32 plainRoot.volume 100).Exec
      [⟨.sysStatfs plainRoot.volume.lklMountPoint, ((0 : Int), (⟨512, 2, 1⟩ : Statfs))⟩]
      (.success, size, some (.fileSystem info)) ∧
    info.volumeSize = 1024 ∧ info.freeSpace = 512 := by
  have hexec : (lklGetVolumeInfo 32 plainRoot.volume 100).Exec
      [⟨.sysStatfs plainRoot.volume.lklMountPoint, ((0 : Int), (⟨512, 2, 1⟩ : Statfs))⟩] _ :=
    .call (.ret _)
  have hexact := (reported_sizes_exact_iff (by decide) (by decide) (by decide) hexec).1.mpr
    (by decide)
  exact ⟨_, _, hexec, hexact.1, hexact.2.1⟩

/-- A volume of four gigabytes is reported to have no space at all. -/
theorem reported_sizes_four_gigabytes : ∃ size info,
    (lklGetVolumeInfo 32 plainRoot.volume 100).Exec
      [⟨.sysStatfs plainRoot.volume.lklMountPoint,
        ((0 : Int), (⟨4096, 2 ^ 20, 2 ^ 19⟩ : Statfs))⟩]
      (.success, size, some (.fileSystem info)) ∧
    info.volumeSize = 0 ∧ info.volumeSize ≠ 2 ^ 20 * 4096 :=
  ⟨_, _, .call (.ret _), rfl, by decide⟩

end UefiLkl
