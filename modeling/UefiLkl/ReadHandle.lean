import UefiLkl.Targets
set_option autoImplicit false

/-!
Handles that were opened for reading only, and what changes their files nevertheless.
-/

namespace UefiLkl
open Interaction

/-- A handle of the file or directory `ino`, opened with `EFI_FILE_MODE_READ` only. -/
structure ReadHandle (k : Linux) (f : LklIfile) (ino : Nat) : Prop where
  descriptor : ∃ pos, k.fd f.fd = some ⟨ino, O_RDONLY, pos⟩
  kind : isDirMode f.statBuf.mode = (k.inode ino).isDir

def OpenedWith (flags : Nat) (r : EfiStatus × Option LklIfile) : Prop :=
  ∀ f, r.2 = some f → f.linuxOpenFlags = flags

theorem openedWith_none {flags : Nat} (status : EfiStatus) : OpenedWith flags (status, none) := by
  intro f hf
  cases hf

theorem openDone_openedWith {flags : Nat} (l : OpenLocals) {status : EfiStatus}
    {ifile : Option LklIfile} (h : OpenedWith flags (status, ifile)) :
    (openDone l status ifile).Ends (OpenedWith flags) := by
  have hfree : (openDone.openFree l status ifile).Ends (OpenedWith flags) :=
    Prog.ends_true.bind fun _ _ => Prog.ends_true.bind fun _ _ =>
      Prog.ends_true.bind fun _ _ => h
  unfold openDone
  split
  · exact Prog.ends_true.bind fun _ _ => hfree
  · exact hfree

theorem openFile_openedWith (volume : LklVolume) (l : OpenLocals) (path : Bytes)
    (flags mode : Nat) : (openFile volume l path flags mode).Ends (OpenedWith flags) := by
  unfold openFile
  split
  · exact openDone_openedWith l (openedWith_none _)
  · refine Prog.ends_ask_bind.mpr fun fd => ?_
    split
    · exact openDone_openedWith l (openedWith_none _)
    · refine Prog.ends_true.bind fun r _ => ?_
      obtain ⟨status, ifile⟩ := r
      dsimp only
      split
      · exact openDone_openedWith _ (openedWith_none _)
      · refine openDone_openedWith _ fun f hf => ?_
        obtain ⟨g, -, rfl⟩ := Option.map_eq_some_iff.mp hf
        rfl

theorem lklOpen_read_openedWith (parent : LklIfile) (fileName : Option (List UInt16))
    (attributes : UInt64) :
    (lklOpen parent fileName EFI_FILE_MODE_READ attributes).Ends (OpenedWith O_RDONLY) := by
  unfold lklOpen
  cases fileName with
  | none => exact openedWith_none _
  | some fileName =>
    dsimp only
    rw [openFlags_read]
    dsimp only
    refine Prog.ends_ask_bind.mpr fun ascii => ?_
    cases ascii with
    | none => exact openDone_openedWith _ (openedWith_none _)
    | some ascii =>
      refine Prog.ends_ask_bind.mpr fun newFileName => ?_
      cases newFileName with
      | none => exact openDone_openedWith _ (openedWith_none _)
      | some newFileName =>
        dsimp only
        rw [if_neg (by decide)]
        refine Prog.ends_true.bind fun r _ => ?_
        cases r with
        | none => exact openDone_openedWith _ (openedWith_none _)
        | some r => exact openFile_openedWith _ _ _ _ _

theorem readHandle_of_lklOpen {k k' : Linux} {f parent : LklIfile}
    {fileName : Option (List UInt16)} {attributes : UInt64}
    (h : (lklOpen parent fileName EFI_FILE_MODE_READ attributes).run Linux.handle k =
      ((.success, some f), k')) : ∃ ino, ReadHandle k' f ino := by
  obtain ⟨ino, pos, hfd, hkind⟩ := lklOpen_describes h
  have hexec := Prog.exec_trace Linux.handle
    (lklOpen parent fileName EFI_FILE_MODE_READ attributes) k
  rw [h] at hexec
  rw [(lklOpen_read_openedWith parent fileName attributes).exec hexec f rfl] at hfd
  exact ⟨ino, ⟨pos, hfd⟩, hkind⟩

structure FileKept (k k' : Linux) (ino : Nat) : Prop where
  content : (k'.inode ino).content = (k.inode ino).content
  size : (k'.inode ino).size = (k.inode ino).size
  atime : (k'.inode ino).atime = (k.inode ino).atime
  mtime : (k'.inode ino).mtime = (k.inode ino).mtime

/-- The time that the request leaves to be stored is a new one, and the path of the handle below
the mount point leads to its file. -/
def Retimes (w : Nat) (f : LklIfile) (bufferSize : Nat) (info : EfiFileInfo) (k : Linux)
    (ino : Nat) : Prop :=
  FitsRequest f bufferSize info ∧ TimesAcceptable info ∧
    requestedTime w info (k.inode ino).mtime ≠ (k.inode ino).mtime ∧
    ∃ n, k.lookup true (ifilePath f.volume f) = .ok n ∧ n.ino = ino

/-- The request is for the root, or it comes to the attributes, asks for none that does not
exist, and is refused there because of a directory. -/
def DeniedAsDirectory (w : Nat) (f : LklIfile) (bufferSize : Nat) (info : EfiFileInfo) (k : Linux)
    (ino : Nat) : Prop :=
  f.filePath.val = [] ∨
    FitsRequest f bufferSize info ∧ TimesAcceptable info ∧
      (AsksTime w info (k.inode ino).mtime →
        ∃ n, k.lookup true (ifilePath f.volume f) = .ok n) ∧
      info.attr &&& ~~~EFI_FILE_VALID_ATTR = 0 ∧
      (info.attr &&& EFI_FILE_DIRECTORY ≠ 0 ∨ (k.inode ino).isDir = true)

section Requests

variable {w : Nat} {f : LklIfile} {bufferSize : Nat} {info : EfiFileInfo} {k k' k₁ : Linux}
  {ino pos : Nat}

theorem fileKept_refl (k : Linux) (ino : Nat) : FileKept k k ino := ⟨rfl, rfl, rfl, rfl⟩

theorem FileKept.trans {k₂ : Linux} (h : FileKept k k₁ ino) (h' : FileKept k₁ k₂ ino) :
    FileKept k k₂ ino :=
  ⟨h'.content.trans h.content, h'.size.trans h.size, h'.atime.trans h.atime,
    h'.mtime.trans h.mtime⟩

structure HandleKept (k k' : Linux) (f : LklIfile) (ino : Nat) : Prop where
  fds : k'.fds = k.fds
  isDir : (k'.inode ino).isDir = (k.inode ino).isDir

theorem handleKept_refl (k : Linux) (f : LklIfile) (ino : Nat) : HandleKept k k f ino := ⟨rfl, rfl⟩

theorem HandleKept.trans {k₂ : Linux} (h : HandleKept k k₁ f ino) (h' : HandleKept k₁ k₂ f ino) :
    HandleKept k k₂ f ino := ⟨h'.fds.trans h.fds, h'.isDir.trans h.isDir⟩

theorem HandleKept.readHandle (h : HandleKept k k' f ino) (hread : ReadHandle k f ino) :
    ReadHandle k' f ino := by
  obtain ⟨pos, hfd⟩ := hread.descriptor
  refine ⟨⟨pos, ?_⟩, hread.kind.trans h.isDir.symm⟩
  unfold Linux.fd at hfd ⊢
  rw [h.fds]
  exact hfd

theorem lookup_error_ne_accessDenied {path : Bytes} {rc : Int}
    (h : k.lookup true path = .error rc) : lklError2EfiError rc ≠ .accessDenied := by
  unfold Linux.lookup at h
  split at h
  · split at h <;> cases h
    decide
  · cases h
    decide
  · cases h
    rename_i e _
    cases e <;> decide

theorem setMode_kept (f : LklIfile) (info : EfiFileInfo) (k : Linux) (ino : Nat) (st : Stat) :
    FileKept k (setMode f info k st).2 ino ∧ HandleKept k (setMode f info k st).2 f ino ∧
      ((setMode f info k st).1 ≠ 0 →
        lklError2EfiError (setMode f info k st).1 ≠ .accessDenied) := by
  rcases setMode_cases f info k st with ⟨-, h⟩ | ⟨-, rc, hl, -, h⟩ | ⟨-, n, -, h⟩
  · rw [h]
    exact ⟨fileKept_refl k ino, handleKept_refl k f ino, fun h0 => absurd rfl h0⟩
  · rw [h]
    exact ⟨fileKept_refl k ino, handleKept_refl k f ino, fun _ => lookup_error_ne_accessDenied hl⟩
  · rw [h]
    refine ⟨?_, ⟨rfl, ?_⟩, fun h0 => absurd rfl h0⟩
    · by_cases hn : ino = n.ino
      · subst hn
        constructor <;> simp
      · constructor <;> simp [Linux.inode_setInode_of_ne _ _ hn]
    · by_cases hn : ino = n.ino
      · subst hn
        simp
      · simp [Linux.inode_setInode_of_ne _ _ hn]

theorem setSize_kept (info : EfiFileInfo) (hfd : k.fd f.fd = some ⟨ino, O_RDONLY, pos⟩)
    (st : Stat) :
    (setSize f info k st).2 = k ∧
      (info.fileSize ≠ st.size → (setSize f info k st).1 = -EINVAL) := by
  unfold setSize
  by_cases hsize : info.fileSize = st.size
  · rw [if_neg (not_not.mpr hsize)]
    exact ⟨rfl, fun h => absurd hsize h⟩
  · have hflags : (k.inode ino).isDir = true ∨ O_RDONLY &&& 3 = O_RDONLY := .inr rfl
    rw [if_pos hsize, Linux.ftruncate, hfd]
    dsimp only
    rw [if_pos hflags]
    exact ⟨rfl, fun _ => rfl⟩

theorem setAttributes_kept (info : EfiFileInfo) (hfd : k.fd f.fd = some ⟨ino, O_RDONLY, pos⟩)
    (st : Stat) :
    FileKept k (setAttributes f info k st).2 ino ∧
      HandleKept k (setAttributes f info k st).2 f ino ∧
      (info.fileSize ≠ st.size → ((setAttributes f info k st).1 = .accessDenied ↔
        info.attr &&& ~~~EFI_FILE_VALID_ATTR = 0 ∧
          (info.attr &&& EFI_FILE_DIRECTORY ≠ 0 ∨ isDirMode st.mode = true))) := by
  unfold setAttributes
  by_cases hlate : RefusedLate st info
  · rw [if_pos hlate]
    refine ⟨fileKept_refl k ino, handleKept_refl k f ino, fun _ => ?_⟩
    unfold lateStatus
    by_cases hvalid : info.attr &&& ~~~EFI_FILE_VALID_ATTR = 0
    · simpa [hvalid] using hlate.resolve_left (not_not.mpr hvalid)
    · simp [hvalid]
  · rw [if_neg hlate]
    obtain ⟨hfile, hhandle, hdenied⟩ := setMode_kept f info k ino st
    have hno : ¬(info.attr &&& ~~~EFI_FILE_VALID_ATTR = 0 ∧
        (info.attr &&& EFI_FILE_DIRECTORY ≠ 0 ∨ isDirMode st.mode = true)) :=
      fun h => hlate (.inr h.2)
    dsimp only
    split
    case isTrue hrc => exact ⟨hfile, hhandle, fun _ => iff_of_false (hdenied hrc) hno⟩
    case isFalse hrc =>
      have hfd' : (setMode f info k st).2.fd f.fd = some ⟨ino, O_RDONLY, pos⟩ := by
        unfold Linux.fd at hfd ⊢
        rw [hhandle.fds]
        exact hfd
      obtain ⟨hsame, hstatus⟩ := setSize_kept info hfd' st
      dsimp only
      rw [hsame]
      refine ⟨hfile, hhandle, fun hsize => iff_of_false ?_ hno⟩
      rw [hstatus hsize]
      decide

theorem setTime_kept (w : Nat) (f : LklIfile) (info : EfiFileInfo) (k : Linux) (ino : Nat) :
    HandleKept k (setTime w f.volume f info k ino).2 f ino ∧
      ((setTime w f.volume f info k ino).1 = 0 ↔ (AsksTime w info (k.inode ino).mtime →
        ∃ n, k.lookup true (ifilePath f.volume f) = .ok n)) ∧
      ((setTime w f.volume f info k ino).1 ≠ 0 →
        lklError2EfiError (setTime w f.volume f info k ino).1 ≠ .accessDenied) ∧
      (FileKept k (setTime w f.volume f info k ino).2 ino ↔
        (requestedTime w info (k.inode ino).mtime ≠ (k.inode ino).mtime →
          ∀ n, k.lookup true (ifilePath f.volume f) = .ok n → n.ino ≠ ino)) := by
  unfold setTime
  by_cases hasks : AsksTime w info (k.inode ino).mtime
  · rw [if_pos hasks, Linux.utime]
    dsimp only
    rw [Linux.lookup_alloc]
    cases hl : k.lookup true (ifilePath f.volume f) with
    | error rc =>
      have hrc := (Linux.lookup_error_neg hl).ne
      refine ⟨⟨rfl, rfl⟩, ?_, fun _ => lookup_error_ne_accessDenied hl, ?_⟩
      · simp [hrc, hasks]
      · exact iff_of_true ⟨rfl, rfl, rfl, rfl⟩ fun _ n hn => by cases hn
    | ok n =>
      dsimp only
      refine ⟨⟨rfl, ?_⟩, ?_, fun h0 => absurd rfl h0, ?_⟩
      · by_cases hn : ino = n.ino
        · subst hn
          rw [Linux.inode_setInode_self]
          rfl
        · rw [Linux.inode_setInode_of_ne _ _ hn]
          rfl
      · simp
      · by_cases hn : ino = n.ino
        · subst hn
          constructor
          · intro hkept hne
            have := hkept.mtime
            rw [Linux.inode_setInode_self] at this
            exact absurd this hne
          · intro hall
            have hsame : requestedTime w info (k.inode n.ino).mtime = (k.inode n.ino).mtime := by
              by_contra hne
              exact hall hne n rfl rfl
            constructor <;> rw [Linux.inode_setInode_self]
            · rfl
            · rfl
            · exact hsame
        · refine iff_of_true ?_ fun _ n' hn' h => ?_
          · constructor <;> rw [Linux.inode_setInode_of_ne _ _ hn] <;> rfl
          · cases hn'
            exact hn h.symm
  · rw [if_neg hasks]
    refine ⟨handleKept_refl k f ino, by simp [hasks], fun h0 => absurd rfl h0, ?_⟩
    refine iff_of_true (fileKept_refl k ino) fun hne => ?_
    exact absurd (requestedTime_of_not_asks hasks) hne

theorem lklSetFileInfo_kept (w bufferSize : Nat) (info : EfiFileInfo)
    (hfd : k.fd f.fd = some ⟨ino, O_RDONLY, pos⟩) :
    let r := (lklSetFileInfo w f.volume f bufferSize info).run Linux.handle k
    HandleKept k r.2 f ino ∧
      (FileKept k r.2 ino ↔ ¬Retimes w f bufferSize info k ino) ∧
      (info.fileSize ≠ (k.inode ino).size →
        (r.1 = .accessDenied ↔ DeniedAsDirectory w f bufferSize info k ino)) := by
  have hrefl := fileKept_refl k ino
  have hhandle := handleKept_refl k f ino
  dsimp only
  rw [lklSetFileInfo_run hfd]
  by_cases hfits : FitsRequest f bufferSize info
  · have hroot := hfits.1
    rw [if_pos hfits]
    by_cases htimes : TimesAcceptable info
    · rw [if_pos htimes]
      obtain ⟨hhandle₁, hsucc, hdenied, hfile⟩ := setTime_kept w f info k ino
      have hretimes : FileKept k (setTime w f.volume f info k ino).2 ino ↔
          ¬Retimes w f bufferSize info k ino := by
        rw [hfile]
        simp [Retimes, hfits, htimes]
      unfold setAll
      dsimp only
      by_cases hrc : (setTime w f.volume f info k ino).1 = 0
      · rw [if_neg (not_not.mpr hrc)]
        have hfd' : (setTime w f.volume f info k ino).2.fd f.fd = some ⟨ino, O_RDONLY, pos⟩ := by
          unfold Linux.fd at hfd ⊢
          rw [hhandle₁.fds]
          exact hfd
        obtain ⟨hfile₂, hhandle₂, hdenied₂⟩ :=
          setAttributes_kept info hfd' (k.inode ino).stat
        refine ⟨hhandle₁.trans hhandle₂, ?_, fun hsize => ?_⟩
        · rw [← hretimes]
          constructor
          · intro h
            exact ⟨hfile₂.content.symm.trans h.content, hfile₂.size.symm.trans h.size,
              hfile₂.atime.symm.trans h.atime, hfile₂.mtime.symm.trans h.mtime⟩
          · intro h
            exact h.trans hfile₂
        · rw [hdenied₂ hsize]
          have hmode : isDirMode (k.inode ino).stat.mode = (k.inode ino).isDir :=
            (k.inode ino).isDirMode_mode
          rw [hmode]
          unfold DeniedAsDirectory
          simp [hroot, hfits, htimes, ← hsucc, hrc]
      · rw [if_pos hrc]
        refine ⟨hhandle₁, hretimes, fun _ => iff_of_false (hdenied hrc) fun h => ?_⟩
        rcases h with h | h
        · exact hroot h
        · exact hrc (hsucc.mpr h.2.2.1)
    · rw [if_neg htimes]
      refine ⟨hhandle, iff_of_true hrefl fun h => htimes h.2.1, fun _ => ?_⟩
      refine iff_of_false EfiStatus.noConfusion fun h => ?_
      rcases h with h | h
      · exact hroot h
      · exact htimes h.2.1
  · rw [if_neg hfits]
    refine ⟨hhandle, iff_of_true hrefl fun h => hfits h.1, fun _ => ?_⟩
    unfold DeniedAsDirectory
    by_cases hroot : f.filePath.val = []
    · simp [hroot]
    · simp [hroot, hfits]

theorem lklWrite_kept (h : ReadHandle k f ino) (buffer : Bytes) :
    ((lklWrite w f buffer).run Linux.handle k).2 = k ∧
      ((lklWrite w f buffer).run Linux.handle k).1.2.2.2 = f := by
  obtain ⟨pos, hfd⟩ := h.descriptor
  unfold lklWrite lklIFileAccess
  by_cases hdir : isDirMode f.statBuf.mode = true
  · rw [if_pos ⟨hdir, rfl⟩]
    exact ⟨rfl, rfl⟩
  rw [if_neg fun hd => hdir hd.1]
  by_cases hro : f.volume.readOnly = true
  · rw [if_pos ⟨rfl, hro⟩]
    exact ⟨rfl, rfl⟩
  rw [if_neg fun hr => hro hr.2, if_neg hdir, if_pos rfl]
  have hwrite : k.write f.fd buffer = (-EBADF, k) := by
    unfold Linux.write
    rw [hfd]
    dsimp only
    rw [if_pos (show O_RDONLY &&& 3 = O_RDONLY from rfl)]
  unfold lklSysWrite
  rw [Prog.run_ask_bind]
  simp only [Linux.handle, hwrite]
  exact ⟨rfl, rfl⟩

end Requests

def Request.changes : Request → Bool
  | .setInfo _ _ _ | .write _ => true
  | _ => false

/-- A request that asks for another size than the file has is refused. -/
def SizeDenied (k : Linux) (ino : Nat) (r : Request) (status : EfiStatus) : Prop :=
  ∀ bufferSize info, r = .setInfo .fileInfo bufferSize info →
    info.fileSize ≠ (k.inode ino).size → status = .accessDenied

/-- From `k`, every request of the list leaves the file as it is, and no size is changed without
`EFI_ACCESS_DENIED`. -/
def Protected (w : Nat) (f : LklIfile) (ino : Nat) : Linux → List Request → Prop
  | _, [] => True
  | k, r :: rs =>
    let x := (r.serve w f).run Linux.handle k
    FileKept k x.2 ino ∧ SizeDenied k ino r x.1.1 ∧ Protected w f ino x.2 rs

/-- When a request leaves the file as it is, and refuses another size. -/
def KeepsFile (w : Nat) (f : LklIfile) (ino : Nat) (k : Linux) : Request → Prop
  | .setInfo .fileInfo bufferSize info =>
    if f.volume.readOnly = true then info.fileSize = (k.inode ino).size
    else ¬Retimes w f bufferSize info k ino ∧
      (info.fileSize ≠ (k.inode ino).size → DeniedAsDirectory w f bufferSize info k ino)
  | _ => True

def EachRequest (w : Nat) (f : LklIfile) (P : Linux → Request → Prop) :
    Linux → List Request → Prop
  | _, [] => True
  | k, r :: rs => P k r ∧ EachRequest w f P ((r.serve w f).run Linux.handle k).2 rs

section Sequences

variable {w : Nat} {f : LklIfile} {k : Linux} {ino : Nat} {r : Request}

/-- One request keeps the handle what it is; it leaves the file alone and refuses another size
exactly where it keeps the file. -/
theorem serve_kept (h : ReadHandle k f ino) (hr : r.changes = true) :
    HandleKept k ((r.serve w f).run Linux.handle k).2 f ino ∧
      (FileKept k ((r.serve w f).run Linux.handle k).2 ino ∧
        SizeDenied k ino r ((r.serve w f).run Linux.handle k).1.1 ↔ KeepsFile w f ino k r) := by
  have hrefl := fileKept_refl k ino
  have hhandle := handleKept_refl k f ino
  cases r with
  | write buffer =>
    have hstate : (((Request.write buffer).serve w f).run Linux.handle k).2 = k := by
      unfold Request.serve
      rw [Prog.run_bind]
      exact (lklWrite_kept h buffer).1
    rw [hstate]
    exact ⟨hhandle, iff_of_true ⟨hrefl, fun _ _ hreq => by cases hreq⟩ trivial⟩
  | setInfo type bufferSize info =>
    have hrun : ((Request.setInfo type bufferSize info).serve w f).run Linux.handle k =
        ((((lklSetInfo w f type bufferSize info).run Linux.handle k).1, .kept f),
          ((lklSetInfo w f type bufferSize info).run Linux.handle k).2) := by
      unfold Request.serve
      rw [Prog.run_bind]
      rfl
    rw [hrun]
    cases type with
    | fileInfo =>
      unfold lklSetInfo KeepsFile
      dsimp only
      by_cases hro : f.volume.readOnly = true
      · rw [if_pos hro, if_pos hro]
        refine ⟨hhandle, ?_⟩
        constructor
        · intro hgood
          by_contra hsize
          cases hgood.2 bufferSize info rfl hsize
        · intro hsize
          refine ⟨hrefl, fun _ _ hreq hne => ?_⟩
          cases hreq
          exact absurd hsize hne
      · rw [if_neg hro, if_neg hro]
        obtain ⟨pos, hfd⟩ := h.descriptor
        obtain ⟨hkept, hfile, hdenied⟩ :=
          lklSetFileInfo_kept w bufferSize info hfd
        refine ⟨hkept, and_congr hfile ?_⟩
        constructor
        · intro hsize hne
          exact (hdenied hne).mp (hsize bufferSize info rfl hne)
        · intro hall bufferSize' info' hreq hne
          cases hreq
          exact (hdenied hne).mpr (hall hne)
    | fileSystemInfo =>
      exact ⟨hhandle, iff_of_true ⟨hrefl, fun _ _ hreq => by cases hreq⟩ trivial⟩
    | other => exact ⟨hhandle, iff_of_true ⟨hrefl, fun _ _ hreq => by cases hreq⟩ trivial⟩
  | _ => cases hr

theorem readHandle_protected_iff (h : ReadHandle k f ino) {rs : List Request}
    (hrs : ∀ r ∈ rs, r.changes = true) :
    Protected w f ino k rs ↔ EachRequest w f (KeepsFile w f ino) k rs := by
  induction rs generalizing k with
  | nil => exact Iff.rfl
  | cons r rs ih =>
    obtain ⟨hr, hrest⟩ := List.forall_mem_cons.mp hrs
    obtain ⟨hkept, hstep⟩ := serve_kept (w := w) h hr
    unfold Protected EachRequest
    dsimp only
    rw [← and_assoc, hstep, ih (hkept.readHandle h) hrest]

def readFile : LklIfile :=
  ⟨4, mountedVolume, 4, O_RDONLY, ⟨fileMode false 0o644, 0, 0, 0, 0⟩, .of (ascii ['a']), none, none⟩

def readKernel : Linux :=
  ((lklOpen rootHandle (some [0x61]) EFI_FILE_MODE_READ 0).run Linux.handle
    { twoFiles with nextFd := 4 }).2

theorem readHandle_readFile : ReadHandle readKernel readFile 3 where
  descriptor := ⟨0, by decide⟩
  kind := by decide

theorem readHandle_protected_iff_touched :
    Protected 32 readFile 3 readKernel [.setInfo .fileInfo 200 touchedInfo] ↔
      EachRequest 32 readFile (KeepsFile 32 readFile 3) readKernel
        [.setInfo .fileInfo 200 touchedInfo] :=
  readHandle_protected_iff readHandle_readFile (by decide)

/-- The time of a file is set through a handle that was opened for reading. -/
theorem readHandle_touches :
    ((lklOpen rootHandle (some [0x61]) EFI_FILE_MODE_READ 0).run Linux.handle
        { twoFiles with nextFd := 4 }).1 = (.success, some readFile) ∧
      ¬Protected 32 readFile 3 readKernel [.setInfo .fileInfo 200 touchedInfo] := by
  refine ⟨by decide, fun h => ?_⟩
  have hkept := h.1.mtime
  revert hkept
  decide

end Sequences

end UefiLkl
