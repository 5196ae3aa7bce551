import UefiLkl.SetInfo
set_option autoImplicit false

/-!
Which files `LKLSetFileInfo` changes: the one behind the descriptor, the one below the mount
point that has the path of the handle, and the one that has this path below the root.
-/

namespace UefiLkl
open Interaction

instance (f : LklIfile) (bufferSize : Nat) (info : EfiFileInfo) :
    Decidable (FitsRequest f bufferSize info) := instDecidableAnd

instance (info : EfiFileInfo) : Decidable (TimesAcceptable info) := instDecidableAnd

instance (st : Stat) (info : EfiFileInfo) : Decidable (RefusedLate st info) := instDecidableOr

section Effects

variable (w : Nat) (volume : LklVolume) (f : LklIfile) (info : EfiFileInfo) (k : Linux)

/-- The time goes to the file that the path below the mount point leads to. -/
def setTime (ino : Nat) : Int × Linux :=
  if AsksTime w info (k.inode ino).mtime then
    k.alloc.2.utime (some (ifilePath volume f)) (k.inode ino).atime
      (requestedTime w info (k.inode ino).mtime)
  else (0, k)

/-- The permissions go to the file that the path of the handle leads to from the root. -/
def setMode (st : Stat) : Int × Linux :=
  if info.attr &&& EFI_FILE_READ_ONLY ≠ 0 then
    k.chmod f.filePath (newMode info.attr.toUInt8 st.mode)
  else (0, k)

/-- The size goes to the file behind the descriptor. -/
def setSize (st : Stat) : Int × Linux :=
  if info.fileSize ≠ st.size then k.ftruncate f.fd info.fileSize else (0, k)

/-- What becomes of the attributes and the size. -/
def setAttributes (st : Stat) : EfiStatus × Linux :=
  if RefusedLate st info then (lateStatus info, k)
  else
    let (rc, k₁) := setMode f info k st
    if rc ≠ 0 then (lklError2EfiError rc, k₁)
    else
      let (rc, k₂) := setSize f info k₁ st
      (lklError2EfiError rc, k₂)

/-- What becomes of a request that passes the first checks. -/
def setAll (ino : Nat) : EfiStatus × Linux :=
  let (rc, k₁) := setTime w volume f info k ino
  if rc ≠ 0 then (lklError2EfiError rc, k₁) else setAttributes f info k₁ (k.inode ino).stat

end Effects

section Runs

variable {w : Nat} {volume : LklVolume} {f : LklIfile} {bufferSize : Nat} {info : EfiFileInfo}
  {k : Linux} {ino flags pos : Nat} {st : Stat}

theorem Linux.lookup_alloc (k : Linux) (follow : Bool) (path : Bytes) :
    k.alloc.2.lookup follow path = k.lookup follow path := rfl

theorem applySize_run :
    (applySize f st 0 0 info).run Linux.handle k =
      (lklError2EfiError (setSize f info k st).1, (setSize f info k st).2) := by
  unfold applySize setSize
  by_cases hsize : info.fileSize ≠ st.size
  · rw [if_pos hsize, if_pos hsize, if_neg (by decide), Linux.run_ftruncate]
    by_cases hrc : (k.ftruncate f.fd info.fileSize).1 = 0
    · rw [if_neg (not_not.mpr hrc), hrc]
      rfl
    · rw [if_pos hrc]
      rfl
  · rw [if_neg hsize, if_neg hsize]
    rfl

theorem applyAttributes_run :
    (applyAttributes f st 0 (if isDirMode st.mode then 1 else 0) info).run Linux.handle k =
      setAttributes f info k st := by
  unfold setAttributes
  by_cases hlate : RefusedLate st info
  · rw [applyAttributes_refused hlate, if_pos hlate]
    rfl
  rw [applyAttributes_accepted hlate, if_neg hlate]
  unfold setMode
  by_cases hro : info.attr &&& EFI_FILE_READ_ONLY ≠ 0
  · rw [if_pos hro, if_pos hro, Linux.run_chmod]
    dsimp only
    split
    · rfl
    · exact applySize_run
  · rw [if_neg hro, if_neg hro]
    exact applySize_run

theorem lklSetFileInfo_run (hfd : k.fd f.fd = some ⟨ino, flags, pos⟩) :
    (lklSetFileInfo w volume f bufferSize info).run Linux.handle k =
      if FitsRequest f bufferSize info then
        if TimesAcceptable info then setAll w volume f info k ino else (.invalidParameter, k)
      else (if f.filePath.val = [] then .accessDenied else .badBufferSize, k) := by
  have hfstat : k.fstat f.fd = (0, (k.inode ino).stat) := by
    unfold Linux.fstat
    rw [hfd]
  unfold lklSetFileInfo
  by_cases hroot : f.filePath.val = []
  · rw [if_pos hroot, if_neg fun h => h.1 hroot, if_pos hroot]
    rfl
  rw [if_neg hroot]
  by_cases hsize : bufferSize < SIZE_OF_EFI_FILE_INFO + 2 ∨ info.size > bufferSize
  · have hfits : ¬FitsRequest f bufferSize info := by
      intro h
      have := h.2
      omega
    rw [if_pos hsize, if_neg hfits, if_neg hroot]
    rfl
  have hfits : FitsRequest f bufferSize info := ⟨hroot, by omega, by omega⟩
  rw [if_neg hsize, if_pos hfits, Linux.run_fstat, hfstat]
  simp only [readOnly_flag, ne_eq, not_true, decide_false, true_and, if_false]
  by_cases htimes : TimesAcceptable info
  · rw [newTimes_acceptable htimes, if_pos htimes]
    dsimp only [setAll]
    have hrest : ∀ rc (k₁ : Linux), (if ¬rc = 0 then pure (lklError2EfiError rc)
        else applyAttributes f (k.inode ino).stat 0
          (if isDirMode (k.inode ino).stat.mode then 1 else 0) info : Lkl EfiStatus).run
          Linux.handle k₁ = if rc ≠ 0 then (lklError2EfiError rc, k₁)
          else setAttributes f info k₁ (k.inode ino).stat := by
      intro rc k₁
      split
      · rfl
      · exact applyAttributes_run
    by_cases hasks : AsksTime w info (k.inode ino).stat.mtime
    · have htime : (applyTime volume f (k.inode ino).stat.atime
          (requestedTime w info (k.inode ino).stat.mtime)).run Linux.handle k =
          setTime w volume f info k ino := by
        exact (if_pos hasks).symm
      rw [if_pos (decide_eq_true hasks), Prog.run_bind, htime]
      exact hrest _ _
    · have htime : setTime w volume f info k ino = (0, k) := if_neg hasks
      rw [if_neg (fun h => hasks (of_decide_eq_true h)), htime]
      exact hrest 0 k
  · rw [newTimes_unacceptable htimes, if_neg htimes]
    rfl

end Runs

def Inode.ownerWrite (i : Inode) : Bool := (i.perm : Nat) &&& S_IWUSR ≠ 0

/-- The request asks for another value of the bit `READ_ONLY` than the file has. -/
def ChangesReadOnly (info : EfiFileInfo) (i : Inode) : Prop :=
  info.attr &&& EFI_FILE_READ_ONLY ≠ 0 ↔ i.ownerWrite = true

/-- No other file is changed, and a request that succeeds has changed the write permission of
the handle's own file if it was to. -/
structure OwnFileOnly (k k' : Linux) (ino : Nat) (info : EfiFileInfo) (status : EfiStatus) :
    Prop where
  others : ∀ j, j ≠ ino → k'.inode j = k.inode j
  own : ChangesReadOnly info (k.inode ino) → status = .success →
    (k'.inode ino).ownerWrite ≠ (k.inode ino).ownerWrite

/-- The size stays, or the descriptor may be written to. -/
def SizeSettable (flags : Nat) (info : EfiFileInfo) (i : Inode) : Prop :=
  info.fileSize = i.size ∨ flags &&& 3 ≠ O_RDONLY

/-- How a request for the file `ino` misses it: the path of the handle leads from the root to
another file, whose permissions become those of `ino`, or those of `ino` stay as they are
where they were to change; or the write permission is to come back. -/
inductive Misses (f : LklIfile) (info : EfiFileInfo) (k : Linux) (ino flags : Nat) : Prop where
  | other {n : FsNode} (hro : info.attr &&& EFI_FILE_READ_ONLY ≠ 0)
      (hn : k.lookup true f.filePath = .ok n) (hne : n.ino ≠ ino)
      (hperm : (k.inode n.ino).perm ≠
        Fin.ofNat 4096 (newMode info.attr.toUInt8 (k.inode ino).mode))
  | unmarked {n : FsNode} (hro : info.attr &&& EFI_FILE_READ_ONLY ≠ 0)
      (hn : k.lookup true f.filePath = .ok n) (hne : n.ino ≠ ino)
      (hwrite : (k.inode ino).ownerWrite = true) (hsize : SizeSettable flags info (k.inode ino))
  | unheard (hro : info.attr &&& EFI_FILE_READ_ONLY = 0)
      (hwrite : (k.inode ino).ownerWrite = false) (hsize : SizeSettable flags info (k.inode ino))

section Targets

variable {w : Nat} {volume : LklVolume} {f : LklIfile} {bufferSize : Nat} {info : EfiFileInfo}
  {k k₁ : Linux} {ino flags pos : Nat}

theorem newMode_readOnly_perm (hro : info.attr &&& EFI_FILE_READ_ONLY ≠ 0) (mode : Nat) :
    (Fin.ofNat 4096 (newMode info.attr.toUInt8 mode) : Nat) &&& S_IWUSR = 0 := by
  rw [and_iwusr_eq_zero_iff, newMode, if_pos (mt readOnly_byte.mp hro)]
  change ((mode &&& (0xffffffff ^^^ S_IWUSR)) % 2 ^ 12).testBit 7 = false
  rw [Nat.testBit_mod_two_pow, Nat.testBit_and, testBit_writeMask (by decide)]
  simp

/-- The states that only differ in the file `ino`, and there not in kind, size and permissions. -/
structure SameBut (k k₁ : Linux) (ino : Nat) : Prop where
  fs : k₁.fs = k.fs
  fds : k₁.fds = k.fds
  others : ∀ j, j ≠ ino → k₁.inode j = k.inode j
  isDir : (k₁.inode ino).isDir = (k.inode ino).isDir
  size : (k₁.inode ino).size = (k.inode ino).size
  perm : (k₁.inode ino).perm = (k.inode ino).perm

theorem setTime_own {n : FsNode} (w : Nat) (info : EfiFileInfo)
    (hn : k.lookup true (ifilePath volume f) = .ok n)
    (hino : n.ino = ino) :
    ∃ k₁, setTime w volume f info k ino = (0, k₁) ∧ SameBut k k₁ ino := by
  unfold setTime
  by_cases hasks : AsksTime w info (k.inode ino).mtime
  · rw [if_pos hasks, Linux.utime]
    dsimp only
    rw [Linux.lookup_alloc, hn]
    subst hino
    refine ⟨_, rfl, rfl, rfl, fun j hj => Function.update_of_ne hj _ _, ?_, ?_, ?_⟩
    · simp [Linux.alloc]
    · simp [Linux.alloc]
    · simp [Linux.alloc]
  · rw [if_neg hasks]
    exact ⟨k, rfl, rfl, rfl, fun _ _ => rfl, rfl, rfl, rfl⟩

theorem setSize_own (info : EfiFileInfo) (k : Linux) (hfd : k₁.fd f.fd = some ⟨ino, flags, pos⟩)
    (hdir : (k₁.inode ino).isDir = false) :
    ((setSize f info k₁ (k.inode ino).stat).1 = 0 ↔ SizeSettable flags info (k.inode ino)) ∧
      (∀ j, j ≠ ino → (setSize f info k₁ (k.inode ino).stat).2.inode j = k₁.inode j) ∧
      ((setSize f info k₁ (k.inode ino).stat).2.inode ino).perm = (k₁.inode ino).perm := by
  have hstat : (k.inode ino).stat.size = (k.inode ino).size := rfl
  unfold setSize SizeSettable
  rw [hstat]
  by_cases hsame : info.fileSize = (k.inode ino).size
  · rw [if_neg (not_not.mpr hsame)]
    exact ⟨by simp [hsame], fun _ _ => rfl, rfl⟩
  · rw [if_pos hsame, Linux.ftruncate, hfd]
    dsimp only
    by_cases hflags : flags &&& 3 = O_RDONLY
    · rw [if_pos (.inr hflags)]
      refine ⟨?_, fun _ _ => rfl, rfl⟩
      simp [hsame, hflags, EINVAL]
    · rw [if_neg (by simp [hdir, hflags])]
      refine ⟨by simp [hflags], fun j hj => Function.update_of_ne hj _ _, ?_⟩
      simp

/-- What setting the permissions leaves: nothing is done, the path leads nowhere, or the file
it leads to gets the permissions of `ino` without the owner's to write. -/
theorem setMode_cases (f : LklIfile) (info : EfiFileInfo) (k₁ : Linux) (st : Stat) :
    (info.attr &&& EFI_FILE_READ_ONLY = 0 ∧ setMode f info k₁ st = (0, k₁)) ∨
    (info.attr &&& EFI_FILE_READ_ONLY ≠ 0 ∧ ∃ rc, k₁.lookup true f.filePath = .error rc ∧
      rc ≠ 0 ∧ setMode f info k₁ st = (rc, k₁)) ∨
    (info.attr &&& EFI_FILE_READ_ONLY ≠ 0 ∧ ∃ n, k₁.lookup true f.filePath = .ok n ∧
      setMode f info k₁ st = (0, k₁.setInode n.ino { k₁.inode n.ino with
        perm := Fin.ofNat 4096 (newMode info.attr.toUInt8 st.mode) })) := by
  unfold setMode
  by_cases hro : info.attr &&& EFI_FILE_READ_ONLY = 0
  · exact .inl ⟨hro, if_neg (not_not.mpr hro)⟩
  · rw [if_pos hro, Linux.chmod]
    cases hl : k₁.lookup true f.filePath with
    | error rc => exact .inr (.inl ⟨hro, rc, rfl, (Linux.lookup_error_neg hl).ne, rfl⟩)
    | ok n => exact .inr (.inr ⟨hro, n, rfl, rfl⟩)

theorem SameBut.lookup (h : SameBut k k₁ ino) (follow : Bool) (path : Bytes) :
    k₁.lookup follow path = k.lookup follow path := by
  unfold Linux.lookup Linux.walkPath
  rw [h.fs]

theorem SameBut.fd (h : SameBut k k₁ ino) (fd : Int) : k₁.fd fd = k.fd fd := by
  unfold Linux.fd
  rw [h.fds]

theorem SameBut.ownerWrite (h : SameBut k k₁ ino) :
    (k₁.inode ino).ownerWrite = (k.inode ino).ownerWrite := by
  unfold Inode.ownerWrite
  rw [h.perm]

theorem setAttributes_ownFileOnly_iff (hfd : k.fd f.fd = some ⟨ino, flags, pos⟩)
    (h : SameBut k k₁ ino) (hlate : ¬RefusedLate (k.inode ino).stat info) :
    OwnFileOnly k (setAttributes f info k₁ (k.inode ino).stat).2 ino info
        (setAttributes f info k₁ (k.inode ino).stat).1 ↔
      ¬Misses f info k ino flags := by
  have hdir : (k.inode ino).isDir = false := by
    rw [← (k.inode ino).isDirMode_mode, ← Bool.not_eq_true]
    exact fun hd => hlate (.inr (.inr hd))
  unfold setAttributes
  rw [if_neg hlate]
  rcases setMode_cases f info k₁ (k.inode ino).stat with
    ⟨hro, hmode⟩ | ⟨hro, rc, hl, hrc, hmode⟩ | ⟨hro, n, hl, hmode⟩
  · -- no permission is touched
    obtain ⟨hrc, hothers, hperm⟩ :=
      setSize_own info k ((h.fd f.fd).trans hfd) (h.isDir.trans hdir)
    rw [hmode]
    dsimp only
    rw [if_neg (not_not.mpr rfl)]
    have hkept : (((setSize f info k₁ (k.inode ino).stat).2).inode ino).ownerWrite =
        (k.inode ino).ownerWrite := by
      rw [← h.ownerWrite, Inode.ownerWrite, hperm, Inode.ownerWrite]
    constructor
    · intro hown hmiss
      cases hmiss with
      | other hro' _ _ _ => exact hro' hro
      | unmarked hro' _ _ _ _ => exact hro' hro
      | unheard _ hwrite hsize =>
        refine hown.own ?_ (lklError2EfiError_eq_success.mpr (hrc.mpr hsize)) hkept
        simp [ChangesReadOnly, hro, hwrite]
    · intro hmiss
      refine ⟨fun j hj => (hothers j hj).trans (h.others j hj), fun hchange hsucc => ?_⟩
      refine absurd (.unheard hro ?_ (hrc.mp (lklError2EfiError_eq_success.mp hsucc))) hmiss
      simpa [ChangesReadOnly, hro] using hchange
  · -- the path leads nowhere
    rw [hmode]
    dsimp only
    rw [if_pos hrc]
    rw [h.lookup] at hl
    constructor
    · intro _ hmiss
      cases hmiss with
      | other _ hn _ _ => cases hl.symm.trans hn
      | unmarked _ hn _ _ _ => cases hl.symm.trans hn
      | unheard hro' _ _ => exact hro hro'
    · intro _
      refine ⟨h.others, fun _ hsucc => ?_⟩
      exact absurd (lklError2EfiError_eq_success.mp hsucc) hrc
  · rw [hmode]
    dsimp only
    rw [if_neg (not_not.mpr rfl)]
    rw [h.lookup] at hl
    have hstat : (k.inode ino).stat.mode = (k.inode ino).mode := rfl
    rw [hstat]
    have hnew := newMode_readOnly_perm hro (k.inode ino).mode
    generalize hp : Fin.ofNat 4096 (newMode info.attr.toUInt8 (k.inode ino).mode) = perm at hnew ⊢
    by_cases hn : n.ino = ino
    · -- the file itself
      subst hn
      have hdir' : ((k₁.setInode n.ino { k₁.inode n.ino with perm := perm }).inode n.ino).isDir =
          false := by
        rw [Linux.inode_setInode_self]
        exact h.isDir.trans hdir
      obtain ⟨-, hothers, hperm⟩ := setSize_own info k
        (show (k₁.setInode n.ino { k₁.inode n.ino with perm := perm }).fd f.fd = _ from
          (h.fd f.fd).trans hfd) hdir'
      refine iff_of_true ⟨fun j hj => ?_, fun hchange _ => ?_⟩ fun hmiss => ?_
      · rw [hothers j hj, Linux.inode_setInode_of_ne _ _ hj, h.others j hj]
      · rw [hchange.mp hro, Inode.ownerWrite, hperm, Linux.inode_setInode_self]
        simp [hnew]
      · cases hmiss with
        | other _ hn' hne _ =>
          cases hl.symm.trans hn'
          exact hne rfl
        | unmarked _ hn' hne _ _ =>
          cases hl.symm.trans hn'
          exact hne rfl
        | unheard hro' _ _ => exact hro hro'
    · -- another file
      have hself : (k₁.setInode n.ino { k₁.inode n.ino with perm := perm }).inode ino =
          k₁.inode ino := Linux.inode_setInode_of_ne _ _ (Ne.symm hn)
      obtain ⟨hrc, hothers, hperm⟩ := setSize_own info k
        (show (k₁.setInode n.ino { k₁.inode n.ino with perm := perm }).fd f.fd = _ from
          (h.fd f.fd).trans hfd) (by rw [hself]; exact h.isDir.trans hdir)
      have hkept : ((setSize f info (k₁.setInode n.ino { k₁.inode n.ino with perm := perm })
          (k.inode ino).stat).2.inode ino).ownerWrite = (k.inode ino).ownerWrite := by
        rw [← h.ownerWrite, Inode.ownerWrite, hperm, hself, Inode.ownerWrite]
      constructor
      · intro hown hmiss
        cases hmiss with
        | other _ hn' hne hperm' =>
          cases hl.symm.trans hn'
          have hsame := hown.others n.ino hn
          rw [hothers n.ino hn, Linux.inode_setInode_self] at hsame
          rw [hp, ← hsame] at hperm'
          exact hperm' rfl
        | unmarked _ _ _ hwrite hsize =>
          refine hown.own ?_ (lklError2EfiError_eq_success.mpr (hrc.mpr hsize)) hkept
          simp [ChangesReadOnly, hro, hwrite]
        | unheard hro' _ _ => exact hro hro'
      · intro hmiss
        refine ⟨fun j hj => ?_, fun hchange hsucc => ?_⟩
        · rw [hothers j hj]
          by_cases hjn : j = n.ino
          · subst hjn
            have hsame : (k.inode n.ino).perm = perm := by
              by_contra hne
              exact hmiss (.other hro hl hn (hp ▸ hne))
            rw [Linux.inode_setInode_self, h.others n.ino hn, ← hsame]
          · rw [Linux.inode_setInode_of_ne _ _ hjn, h.others j hj]
        · exact absurd (.unmarked hro hl hn (hchange.mp hro)
            (hrc.mp (lklError2EfiError_eq_success.mp hsucc))) hmiss

/-- For a handle whose path below the mount point still leads to its file. -/
theorem lklSetFileInfo_ownFileOnly_iff (hfd : k.fd f.fd = some ⟨ino, flags, pos⟩)
    (hnamed : ∃ n, k.lookup true (ifilePath volume f) = .ok n ∧ n.ino = ino) :
    OwnFileOnly k ((lklSetFileInfo w volume f bufferSize info).run Linux.handle k).2 ino info
        ((lklSetFileInfo w volume f bufferSize info).run Linux.handle k).1 ↔
      ¬(FitsRequest f bufferSize info ∧ TimesAcceptable info ∧
        ¬RefusedLate (k.inode ino).stat info ∧ Misses f info k ino flags) := by
  have hrefl : ∀ {status : EfiStatus}, status ≠ .success → OwnFileOnly k k ino info status :=
    fun hne => ⟨fun _ _ => rfl, fun _ hsucc => absurd hsucc hne⟩
  rw [lklSetFileInfo_run hfd]
  by_cases hfits : FitsRequest f bufferSize info
  · rw [if_pos hfits]
    by_cases htimes : TimesAcceptable info
    · obtain ⟨n, hn, hino⟩ := hnamed
      obtain ⟨k₁, htime, hsame⟩ := setTime_own w info hn hino
      rw [if_pos htimes, setAll, htime]
      dsimp only
      rw [if_neg (not_not.mpr rfl)]
      by_cases hlate : RefusedLate (k.inode ino).stat info
      · refine iff_of_true ?_ fun hbad => hbad.2.2.1 hlate
        rw [setAttributes, if_pos hlate]
        refine ⟨hsame.others, fun _ hsucc => ?_⟩
        unfold lateStatus at hsucc
        split at hsucc <;> cases hsucc
      · rw [setAttributes_ownFileOnly_iff hfd hsame hlate]
        simp [hfits, htimes, hlate]
    · rw [if_neg htimes]
      exact iff_of_true (hrefl EfiStatus.noConfusion) fun hbad => htimes hbad.2.1
  · rw [if_neg hfits]
    refine iff_of_true (hrefl ?_) fun hbad => hfits hbad.1
    split <;> exact EfiStatus.noConfusion

def twoFiles : Linux :=
  { Linux.boot with
    fs := (mountedTree.insert [ascii ['m', 'n', 't'], ascii ['1']] (ascii ['a']) (.file 3)).insert
      [] (ascii ['a']) (.file 4)
    inode := fun ino => ⟨ino < 3, 0o644, 0, 0, 0, 0, fun _ => 0⟩
    fds := Function.update (fun _ => none) 3 (some ⟨3, O_RDWR, 0⟩) }

def protectInfo : EfiFileInfo := { newFileInfo 84 (ascii ['a']) with attr := EFI_FILE_READ_ONLY }

theorem lklSetFileInfo_ownFileOnly_iff_twoFiles :
    OwnFileOnly twoFiles ((lklSetFileInfo 32 mountedVolume createdFile 200 protectInfo).run
        Linux.handle twoFiles).2 3 protectInfo
        ((lklSetFileInfo 32 mountedVolume createdFile 200 protectInfo).run Linux.handle
          twoFiles).1 ↔
      ¬(FitsRequest createdFile 200 protectInfo ∧ TimesAcceptable protectInfo ∧
        ¬RefusedLate (twoFiles.inode 3).stat protectInfo ∧
        Misses createdFile protectInfo twoFiles 3 O_RDWR) :=
  lklSetFileInfo_ownFileOnly_iff
    (by decide : twoFiles.fd createdFile.fd = some ⟨3, O_RDWR, 0⟩) ⟨.file 3, by decide, rfl⟩

/-- The file in the root directory is protected instead of the one of the volume. -/
theorem lklSetFileInfo_changes_another :
    twoFiles.lookup true (ifilePath mountedVolume createdFile) = .ok (.file 3) ∧
      ∃ k', (lklSetFileInfo 32 mountedVolume createdFile 200 protectInfo).run Linux.handle
          twoFiles = (.success, k') ∧
        (k'.inode 4).perm = 0o444 ∧ (k'.inode 3).perm = 0o644 ∧
        ¬OwnFileOnly twoFiles k' 3 protectInfo .success := by
  have hperm : (((lklSetFileInfo 32 mountedVolume createdFile 200 protectInfo).run Linux.handle
      twoFiles).2.inode 4).perm = 0o444 := by decide
  refine ⟨by decide, ((lklSetFileInfo 32 mountedVolume createdFile 200 protectInfo).run Linux.handle
    twoFiles).2, Prod.ext ?_ rfl, hperm, ?_, fun h => ?_⟩
  · decide
  · decide
  · have hother := congrArg Inode.perm (h.others 4 (by decide))
    rw [hperm] at hother
    revert hother
    decide

end Targets

end UefiLkl
