import UefiLkl.Info
set_option autoImplicit false

/-!
Writing back what was read about a file, and reading back what was written.
-/

namespace UefiLkl
open Interaction Calendar

/-- A handle of the file or directory `ino`, on a volume that may be written to. -/
structure OpenHandle (k : Linux) (f : LklIfile) (ino : Nat) : Prop where
  named : f.filePath.val ≠ []
  writable : f.volume.readOnly = false
  descriptor : ∃ pos, k.fd f.fd = some ⟨ino, f.linuxOpenFlags, pos⟩
  kind : isDirMode f.statBuf.mode = (k.inode ino).isDir
  mtime : (k.inode ino).mtime < 2 ^ 32
  now : k.now < 2 ^ 32

section Opened

variable {k k' : Linux} {f : LklIfile} {volume : LklVolume} {l : OpenLocals} {flags mode : Nat}

theorem freeUnlessNull_run (p : Option Ptr) (k : Linux) :
    (freeUnlessNull p).run Linux.handle k = ((), k) := by
  cases p <;> rfl

theorem openFree_run (l : OpenLocals) (status : EfiStatus) (ifile : Option LklIfile) (k : Linux) :
    (openDone.openFree l status ifile).run Linux.handle k = ((status, ifile), k) := by
  unfold openDone.openFree
  simp only [Prog.run_bind, freeUnlessNull_run]
  rfl

theorem openDone_run_fst (l : OpenLocals) (status : EfiStatus) (ifile : Option LklIfile)
    (k : Linux) : ((openDone l status ifile).run Linux.handle k).1 = (status, ifile) := by
  unfold openDone
  split
  · rw [Prog.run_bind, openFree_run]
  · rw [openFree_run]

theorem openDone_none_ne {status : EfiStatus} :
    (openDone l status none).run Linux.handle k ≠ ((.success, some f), k') := by
  intro h
  have hfst := openDone_run_fst l status none k
  rw [h] at hfst
  cases hfst

theorem openDone_success (l : OpenLocals) (ifile : Option LklIfile) (k : Linux) :
    (openDone l .success ifile).run Linux.handle k = ((.success, ifile), k) := by
  have hne : ¬(EfiStatus.success.isError = true ∧ l.fd ≥ 0) := by simp [EfiStatus.isError]
  unfold openDone
  rw [if_neg hne, openFree_run]

theorem Linux.install_fd (k : Linux) (p : List Name) (n : FsNode) (flags : Nat) :
    (k.install p n flags).2.fd (k.install p n flags).1 = some ⟨n.ino, flags, 0⟩ := by
  unfold Linux.install Linux.fd
  dsimp only
  rw [if_neg (by omega), Int.toNat_natCast, Function.update_self]

theorem Linux.open_fd {path : Bytes} (h : 0 ≤ (k.open path flags mode).1) :
    ∃ ino, (k.open path flags mode).2.fd (k.open path flags mode).1 = some ⟨ino, flags, 0⟩ := by
  have hisdir : ¬0 ≤ -EISDIR := by decide
  have hnoent : ¬0 ≤ -ENOENT := by decide
  have hlong : ¬0 ≤ -ENAMETOOLONG := by decide
  revert h
  unfold Linux.open
  dsimp only
  split
  · exact fun h => absurd h hisdir
  · split
    · split
      · exact fun h => absurd h hnoent
      · split
        · exact fun h => absurd h hisdir
        · exact fun _ => ⟨_, Linux.install_fd _ _ _ _⟩
    · split
      · exact fun h => absurd h hnoent
      · split
        · exact fun _ => ⟨_, Linux.install_fd _ _ _ _⟩
        · exact fun h => absurd h hlong
    · rename_i e _
      have he : ¬0 ≤ -e.errno := by cases e <;> decide
      exact fun h => absurd h he

theorem lklAllocateIFile_run {fd : Int} {of : OpenFile} (h : k.fd fd = some of) :
    (lklAllocateIFile volume fd).run Linux.handle k =
      ((.success, some ⟨k.nextPtr, volume, fd, 0, (k.inode of.ino).stat, .of [], none, none⟩),
        k.alloc.2) := by
  have hfstat : k.alloc.2.fstat fd = (0, (k.inode of.ino).stat) := by
    have hfd : k.alloc.2.fd fd = some of := h
    unfold Linux.fstat
    rw [hfd]
    rfl
  unfold lklAllocateIFile
  rw [Linux.run_allocatePool]
  dsimp only
  rw [Linux.run_fstat, hfstat]
  rfl

def Describes (k : Linux) (f : LklIfile) : Prop :=
  ∃ ino pos, k.fd f.fd = some ⟨ino, f.linuxOpenFlags, pos⟩ ∧
    isDirMode f.statBuf.mode = (k.inode ino).isDir

theorem openFile_describes {path : Bytes}
    (h : (openFile volume l path flags mode).run Linux.handle k = ((.success, some f), k')) :
    Describes k' f := by
  unfold openFile at h
  split at h
  · exact absurd h openDone_none_ne
  · rw [Linux.run_open] at h
    by_cases hfd : (k.open path flags mode).1 < 0
    · rw [if_pos hfd] at h
      exact absurd h openDone_none_ne
    · obtain ⟨ino, hof⟩ := Linux.open_fd (Int.not_lt.mp hfd)
      rw [if_neg hfd, Prog.run_bind, lklAllocateIFile_run hof] at h
      dsimp only at h
      rw [show EfiStatus.success.isError = false from rfl, if_neg Bool.false_ne_true,
        openDone_success] at h
      cases h
      exact ⟨ino, 0, hof, Inode.isDirMode_mode _⟩

theorem openCreate_describes {abs base : Bytes} {attributes : UInt64}
    (h : (openCreate volume l abs base flags mode attributes).run Linux.handle k =
      ((.success, some f), k')) : Describes k' f := by
  unfold openCreate at h
  rw [Linux.run_allocatePool] at h
  dsimp only at h
  rw [Prog.run_bind, freeUnlessNull_run] at h
  dsimp only at h
  split at h
  · rw [Linux.run_mkdir] at h
    split at h
    · exact absurd h openDone_none_ne
    · exact openFile_describes h
  · exact openFile_describes h

theorem lklOpen_describes {parent : LklIfile} {fileName : Option (List UInt16)}
    {openMode attributes : UInt64}
    (h : (lklOpen parent fileName openMode attributes).run Linux.handle k =
      ((.success, some f), k')) : Describes k' f := by
  unfold lklOpen at h
  dsimp only at h
  cases fileName with
  | none => cases h
  | some name =>
    dsimp only at h
    split at h
    · cases h
    · rw [Linux.run_allocatePool] at h
      dsimp only at h
      rw [Linux.run_allocatePool] at h
      dsimp only at h
      split at h
      · split at h
        · exact absurd h openDone_none_ne
        · rw [Linux.run_touch, Prog.run_bind] at h
          split at h
          · exact absurd h openDone_none_ne
          · exact openCreate_describes h
      · rw [Prog.run_bind] at h
        split at h
        · exact absurd h openDone_none_ne
        · exact openFile_describes h

/-- The handles of the volume, but for the root, are such handles. -/
theorem openHandle_of_lklOpen {parent : LklIfile} {fileName : Option (List UInt16)}
    {openMode attributes : UInt64}
    (h : (lklOpen parent fileName openMode attributes).run Linux.handle k =
      ((.success, some f), k'))
    (hnamed : f.filePath.val ≠ []) (hwritable : f.volume.readOnly = false)
    (hnow : k'.now < 2 ^ 32) (hmtime : ∀ ino, (k'.inode ino).mtime < 2 ^ 32) :
    ∃ ino, OpenHandle k' f ino := by
  obtain ⟨ino, pos, hfd, hkind⟩ := lklOpen_describes h
  exact ⟨ino, hnamed, hwritable, ⟨pos, hfd⟩, hkind, hmtime ino, hnow⟩

end Opened

/-- A time from 1970 to 2105 to set a file to. -/
structure EfiTime.Settable (t : EfiTime) : Prop where
  valid : efiTimeIsValid t = true
  past : 1970 ≤ t.year.toNat
  future : t.year.toNat ≤ 2105
  nanosecond : t.nanosecond = 0
  timeZone : t.timeZone = 0
  daylight : t.daylight = 0

/-- The bytes of padding say nothing about the time. -/
def EfiTime.unpadded (t : EfiTime) : EfiTime := { t with pad1 := 0, pad2 := 0 }

theorem EfiTime.Settable.epoch_lt {t : EfiTime} (h : t.Settable) : t.epoch < 2 ^ 32 := by
  have hr := inRange_of_valid h.valid
  have hfuture := h.future
  have hmlo := hr.month.1
  have hmhi := hr.month.2
  have hh := hr.hour
  have hm := hr.minute
  have hs := hr.second
  have hday : t.day.toNat ≤ 31 := by
    have := hr.day.2
    have hall : ∀ month < 13, dayOfMonth.getD (month - 1) 0 ≤ 31 := by decide
    exact this.trans (hall _ (by omega))
  have hsod : t.secondOfDay < 86400 := by
    unfold EfiTime.secondOfDay
    omega
  have hdays : t.march.days - epochDay ≤ 49700 := by
    unfold EfiTime.march MarchDate.days yearStart monthStart epochDay
    dsimp only
    split
    · omega
    · omega
  unfold EfiTime.epoch
  omega

theorem EfiTime.Settable.ne_zeroTime {t : EfiTime} (h : t.Settable) : t ≠ zeroTime := by
  intro ht
  have := h.past
  rw [ht] at this
  revert this
  decide

theorem efiTimeToEpoch_stored {w : Nat} (hw : 32 ≤ w) {s : Nat} (hs : s < 2 ^ 32)
    (time : EfiTime) :
    (efiTimeToEpoch w (epochToEfiTime w (BitVec.ofNat w s) time)).toNat = s := by
  have hlit := toNat_lit hw hs
  rw [efiTimeToEpoch_epochToEfiTime hw, hlit]
  rw [hlit]
  exact (calendarYear_le hs).trans_lt (by omega)

theorem efiTimeToEpoch_settable {w : Nat} (hw : 32 ≤ w) {t : EfiTime} (h : t.Settable) :
    (efiTimeToEpoch w t).toNat = t.epoch := by
  have hr := inRange_of_valid h.valid
  have hM : 2 ^ 32 ≤ 2 ^ w := Nat.pow_le_pow_right Nat.two_pos hw
  exact efiTimeToEpoch_eq hw t hr.month.1 hr.month.2 hr.day.1 (hr.past h.past)
    (h.epoch_lt.trans_le hM)

theorem reported_time_iff {w : Nat} (hw : 32 ≤ w) {t : EfiTime} (h : t.Settable) {s : Nat}
    (hs : s < 2 ^ 32) :
    epochToEfiTime w (BitVec.ofNat w s) zeroTime = t.unpadded ↔ s = t.epoch := by
  have hM : 2 ^ 32 ≤ 2 ^ w := Nat.pow_le_pow_right Nat.two_pos hw
  have ht := efiTimeToEpoch_settable hw h
  have hback := epochToEfiTime_efiTimeToEpoch hw t zeroTime (inRange_of_valid h.valid) h.past
    (h.epoch_lt.trans_le hM)
  constructor
  · intro heq
    have hst := efiTimeToEpoch_stored hw hs zeroTime
    rw [heq] at hst
    exact hst.symm.trans ht
  · intro heq
    have hbv : BitVec.ofNat w s = efiTimeToEpoch w t := by
      refine BitVec.eq_of_toNat_eq ?_
      rw [toNat_lit hw hs, ht, heq]
    rw [hbv, hback]
    simp [EfiTime.unpadded, zeroTime, h.nanosecond, h.timeZone, h.daylight]

def infoSize (f : LklIfile) : Nat := SIZE_OF_EFI_FILE_INFO + unicodeSize (ifileName f)

def reportedInfo (w : Nat) (f : LklIfile) (i : Inode) : EfiFileInfo :=
  { fillFileInfo w i.stat (newFileInfo (infoSize f) (ifileName f)) with
    attr := if i.isDir then EFI_FILE_READ_ONLY ||| EFI_FILE_DIRECTORY else EFI_FILE_READ_ONLY }

/-- As `LKL_O_RDONLY` is zero, every handle counts as read-only. -/
theorem handleAttribute_eq {f : LklIfile} {st : Stat} {d : Bool}
    (hf : isDirMode f.statBuf.mode = d) (hst : isDirMode st.mode = d) :
    handleAttribute f (statAttribute st) =
      if d then EFI_FILE_READ_ONLY ||| EFI_FILE_DIRECTORY else EFI_FILE_READ_ONLY := by
  have hflags : f.linuxOpenFlags &&& O_RDONLY = 0 := Nat.and_zero _
  unfold handleAttribute statAttribute
  rw [if_pos hflags, hf, hst]
  by_cases hmode : st.mode &&& S_IWUSR = 0
  · rw [if_pos hmode]
    cases d <;> decide
  · rw [if_neg hmode]
    cases d <;> decide

theorem lklGetInfo_reports (w : Nat) {k : Linux} {f : LklIfile} {o : OpenFile} {bufferSize : Nat}
    (hfd : k.fd f.fd = some o) (hkind : isDirMode f.statBuf.mode = (k.inode o.ino).isDir)
    (hsize : infoSize f ≤ bufferSize) :
    (lklGetInfo w f .fileInfo bufferSize).run Linux.handle k =
      ((.success, bufferSize, some (.file (reportedInfo w f (k.inode o.ino)))), k) := by
  have hfstat : k.fstat f.fd = (0, (k.inode o.ino).stat) := by
    unfold Linux.fstat
    rw [hfd]
  unfold infoSize at hsize
  unfold lklGetInfo lklGetFileInfo lklFillFileInfo lklSysFstat
  dsimp only
  rw [if_neg (Nat.not_lt.mpr hsize)]
  simp only [Prog.bind_assoc, Prog.run_ask_bind, Linux.handle, hfstat, ne_eq, not_true,
    if_false, Prog.pure_eq, Prog.ret_bind, Prog.run_ret]
  have hattr := @handleAttribute_eq f (k.inode o.ino).stat _ hkind (k.inode o.ino).isDirMode_mode
  unfold reportedInfo
  rw [← hattr]
  rfl

theorem lklGetInfo_run (w : Nat) {k : Linux} {f : LklIfile} {ino bufferSize : Nat}
    (h : OpenHandle k f ino) (hsize : infoSize f ≤ bufferSize) :
    (lklGetInfo w f .fileInfo bufferSize).run Linux.handle k =
      ((.success, bufferSize, some (.file (reportedInfo w f (k.inode ino)))), k) := by
  obtain ⟨pos, hfd⟩ := h.descriptor
  exact lklGetInfo_reports w hfd h.kind hsize

theorem and_iwusr_eq_zero_iff (n : Nat) : n &&& S_IWUSR = 0 ↔ n.testBit 7 = false := by
  constructor
  · intro h
    have h7 := congrArg (Nat.testBit · 7) h
    have hw : S_IWUSR.testBit 7 = true := by decide
    rwa [Nat.testBit_and, hw, Bool.and_true, Nat.zero_testBit] at h7
  · intro h
    refine Nat.eq_of_testBit_eq fun i => ?_
    rw [Nat.testBit_and, show S_IWUSR = 2 ^ 7 from rfl, Nat.testBit_two_pow, Nat.zero_testBit]
    by_cases hi : 7 = i
    · rw [← hi, h, Bool.false_and]
    · simp [hi]

theorem testBit_writeMask {i : Nat} (hi : i < 12) :
    (0xffffffff ^^^ S_IWUSR).testBit i = decide (i ≠ 7) := by
  have hall : ∀ i < 12, (0xffffffff ^^^ S_IWUSR).testBit i = decide (i ≠ 7) := by decide
  exact hall i hi

theorem perm_newMode_readOnly (d : Bool) (p : Fin 4096) :
    Fin.ofNat 4096 (newMode EFI_FILE_READ_ONLY.toUInt8 (fileMode d p)) = p ↔
      (p : Nat) &&& S_IWUSR = 0 := by
  have hne : EFI_FILE_READ_ONLY.toUInt8 &&& EFI_FILE_READ_ONLY.toUInt8 ≠ 0 := by decide
  have hmode : fileMode d p = (if d then 4 else 8) <<< 12 ||| (p : Nat) := by
    cases d <;> rfl
  have hbit : ∀ i, (Fin.ofNat 4096 (fileMode d p &&& (0xffffffff ^^^ S_IWUSR)) : Nat).testBit i =
      ((p : Nat).testBit i && decide (i ≠ 7)) := by
    intro i
    have hmod : (Fin.ofNat 4096 (fileMode d p &&& (0xffffffff ^^^ S_IWUSR)) : Nat) =
        (fileMode d p &&& (0xffffffff ^^^ S_IWUSR)) % 2 ^ 12 := rfl
    rw [hmod, Nat.testBit_mod_two_pow, Nat.testBit_and, hmode, Nat.testBit_or,
      Nat.testBit_shiftLeft]
    by_cases hi : i < 12
    · rw [testBit_writeMask hi]
      simp [hi, Nat.not_le.mpr hi]
    · have hp : (p : Nat).testBit i = false :=
        Nat.testBit_lt_two_pow
          (p.isLt.trans_le (Nat.pow_le_pow_right Nat.two_pos (Nat.not_lt.mp hi)))
      simp [hi, hp]
  rw [newMode, if_pos hne, and_iwusr_eq_zero_iff, ← Fin.val_inj]
  constructor
  · intro h
    have h7 := hbit 7
    rw [h] at h7
    simpa using h7
  · intro h
    refine Nat.eq_of_testBit_eq fun i => ?_
    rw [hbit]
    by_cases hi : i = 7
    · simp [hi, h]
    · simp [hi]

theorem newModtime_stored {w : Nat} (hw : 32 ≤ w) {s : Nat} (hs : s < 2 ^ 32) :
    newModtime w false (epochToEfiTime w (BitVec.ofNat w s) zeroTime) (s, false) =
      .ok (s, false) := by
  have hyear : calendarYear ((BitVec.ofNat w s).toNat / 86400 + epochDay) ≤ 9999 := by
    rw [toNat_lit hw hs]
    exact (calendarYear_le hs).trans (by omega)
  have hrange := inRange_epochToEfiTime hw (BitVec.ofNat w s) zeroTime hyear
  have hvalid := efiTimeIsValid_of_inRange hrange rfl rfl rfl
  have hback := efiTimeToEpoch_stored hw hs zeroTime
  unfold newModtime
  by_cases hzero : epochToEfiTime w (BitVec.ofNat w s) zeroTime = zeroTime
  · rw [if_pos hzero]
  · rw [if_neg hzero, hvalid, hback, Nat.mod_eq_of_lt hs]
    simp

theorem newModtime_settable {w : Nat} (hw : 32 ≤ w) {t : EfiTime} (h : t.Settable)
    (modtime : Nat × Bool) :
    newModtime w false t modtime = .ok (t.epoch, modtime.2 || decide (modtime.1 ≠ t.epoch)) := by
  unfold newModtime
  rw [if_neg h.ne_zeroTime, h.valid, efiTimeToEpoch_settable hw h, Nat.mod_eq_of_lt h.epoch_lt]
  obtain ⟨m, changed⟩ := modtime
  by_cases hm : m = t.epoch
  · simp [hm]
  · simp [hm]

section Attributes

variable {f : LklIfile} {st : Stat} {ino pos : Nat} {info : EfiFileInfo} {k k' : Linux}

/-- What a handle's file becomes when only its permissions may change. -/
def SameButPerm (k k' : Linux) : Prop :=
  k'.fds = k.fds ∧ k'.now = k.now ∧ ∀ ino, ∃ p, k'.inode ino = { k.inode ino with perm := p }

theorem sameButPerm_refl (k : Linux) : SameButPerm k k := ⟨rfl, rfl, fun _ => ⟨_, rfl⟩⟩

theorem sameButPerm_chmod (k : Linux) (path : Bytes) (mode : Nat) :
    SameButPerm k (k.chmod path mode).2 := by
  unfold Linux.chmod
  cases k.lookup true path with
  | error rc => exact sameButPerm_refl k
  | ok n =>
    refine ⟨rfl, rfl, fun ino => ?_⟩
    by_cases hn : ino = n.ino
    · subst hn
      exact ⟨_, Function.update_self _ _ _⟩
    · exact ⟨(k.inode ino).perm, Function.update_of_ne hn _ _⟩

theorem applySize_success (hfd : k.fd f.fd = some ⟨ino, f.linuxOpenFlags, pos⟩)
    (hst : st.size = (k.inode ino).size)
    (h : (applySize f st 0 0 info).run Linux.handle k = (.success, k')) :
    k'.fds = k.fds ∧ k'.now = k.now ∧ (k'.inode ino).isDir = (k.inode ino).isDir ∧
      (k'.inode ino).size = info.fileSize ∧
      (k'.inode ino).mtime = if info.fileSize = st.size then (k.inode ino).mtime else k.now := by
  unfold applySize at h
  by_cases hsize : info.fileSize = st.size
  · rw [if_neg (not_not.mpr hsize)] at h
    cases h
    rw [if_pos hsize]
    exact ⟨rfl, rfl, rfl, hst.symm.trans hsize.symm, rfl⟩
  · have hbytes : ¬((0 : UInt8) ≠ 0 ∨ (0 : UInt8) ≠ 0) := by decide
    rw [if_pos hsize, if_neg hbytes] at h
    rw [Linux.run_ftruncate] at h
    simp only [Linux.ftruncate, hfd] at h
    rw [if_neg hsize]
    split at h
    · cases h
    · cases h
      simp [Linux.setInode]

theorem applyAttributes_directory :
    ((applyAttributes f st 0 1 info).run Linux.handle k).1 ≠ .success := by
  have hne : info.attr.toUInt8 &&& EFI_FILE_DIRECTORY.toUInt8 ≠ 1 := by
    intro h
    have hand : EFI_FILE_DIRECTORY.toUInt8 &&& 1 = 0 := by decide
    have h1 := congrArg (· &&& (1 : UInt8)) h
    rw [UInt8.and_assoc, hand, UInt8.and_zero] at h1
    revert h1
    decide
  unfold applyAttributes
  split
  · intro h
    cases h
  · rw [if_pos hne]
    intro h
    cases h

theorem applyAttributes_success (hfd : k.fd f.fd = some ⟨ino, f.linuxOpenFlags, pos⟩)
    (hst : st.size = (k.inode ino).size)
    (h : (applyAttributes f st 0 0 info).run Linux.handle k = (.success, k')) :
    k'.fds = k.fds ∧ k'.now = k.now ∧ (k'.inode ino).isDir = (k.inode ino).isDir ∧
      (k'.inode ino).size = info.fileSize ∧
      (k'.inode ino).mtime = if info.fileSize = st.size then (k.inode ino).mtime else k.now := by
  have apply {kc : Linux} (hperm : SameButPerm k kc)
      (h : (applySize f st 0 0 info).run Linux.handle kc = (.success, k')) :
      k'.fds = k.fds ∧ k'.now = k.now ∧ (k'.inode ino).isDir = (k.inode ino).isDir ∧
        (k'.inode ino).size = info.fileSize ∧
        (k'.inode ino).mtime = if info.fileSize = st.size then (k.inode ino).mtime else k.now := by
    obtain ⟨hfds, hnow, hinode⟩ := hperm
    obtain ⟨p, hp⟩ := hinode ino
    have hfd' : kc.fd f.fd = some ⟨ino, f.linuxOpenFlags, pos⟩ := by
      unfold Linux.fd at hfd ⊢
      rw [hfds]
      exact hfd
    have := applySize_success hfd' (by rw [hp]; exact hst) h
    rwa [hfds, hnow, hp] at this
  unfold applyAttributes at h
  split at h
  · cases h
  · dsimp only at h
    split at h
    · cases h
    · split at h
      · rw [Linux.run_chmod] at h
        have hperm := sameButPerm_chmod k f.filePath.val (newMode info.attr.toUInt8 st.mode)
        by_cases hrc : (k.chmod f.filePath.val (newMode info.attr.toUInt8 st.mode)).1 = 0
        · rw [if_neg (not_not.mpr hrc)] at h
          exact apply hperm h
        · have herr := lklError2EfiError_isError hrc
          rw [if_pos hrc] at h
          rw [Prog.pure_eq, Prog.run_ret, Prod.mk.injEq] at h
          rw [h.1] at herr
          cases herr
      · exact apply (sameButPerm_refl k) h

end Attributes

section SetInfo

variable {w : Nat} {k : Linux} {f : LklIfile} {ino setSize : Nat} {info : EfiFileInfo}

theorem setInfo_eq (h : OpenHandle k f ino) (hmin : SIZE_OF_EFI_FILE_INFO + 2 ≤ setSize)
    (hsize : info.size ≤ setSize) :
    (lklSetInfo w f .fileInfo setSize info).run Linux.handle k =
      (match newTimes w false info (k.inode ino).mtime with
      | .error status => pure status
      | .ok (modtime, timeChanged) => do
        let rc ← if timeChanged then applyTime f.volume f (k.inode ino).atime modtime else pure 0
        if rc ≠ 0 then pure (lklError2EfiError rc)
        else applyAttributes f (k.inode ino).stat 0 (if (k.inode ino).isDir then 1 else 0) info
        : Lkl EfiStatus).run Linux.handle k := by
  obtain ⟨pos, hfd⟩ := h.descriptor
  have hfstat : k.fstat f.fd = (0, (k.inode ino).stat) := by
    unfold Linux.fstat
    rw [hfd]
  have hro : (f.linuxOpenFlags &&& O_RDONLY).toUInt8 = 0 := by
    rw [show f.linuxOpenFlags &&& O_RDONLY = 0 from Nat.and_zero _]
    rfl
  have hbad : ¬(setSize < SIZE_OF_EFI_FILE_INFO + 2 ∨ info.size > setSize) := by omega
  have hdir : isDirMode (k.inode ino).stat.mode = (k.inode ino).isDir :=
    (k.inode ino).isDirMode_mode
  have hmtime : (k.inode ino).stat.mtime = (k.inode ino).mtime := rfl
  unfold lklSetInfo lklSetFileInfo
  dsimp only
  rw [h.writable, if_neg Bool.false_ne_true, if_neg h.named, if_neg hbad, Linux.run_fstat, hfstat]
  simp only [hro, hdir, hmtime, ne_eq, not_true, if_false, decide_false, true_and]
  cases newTimes w false info (k.inode ino).mtime with
  | error status => rfl
  | ok r =>
    obtain ⟨modtime, timeChanged⟩ := r
    cases timeChanged <;> rfl

theorem setInfo_unchanged (h : OpenHandle k f ino) (hmin : SIZE_OF_EFI_FILE_INFO + 2 ≤ setSize)
    (hsize : info.size ≤ setSize) {modtime : Nat}
    (hnew : newTimes w false info (k.inode ino).mtime = .ok (modtime, false)) :
    (lklSetInfo w f .fileInfo setSize info).run Linux.handle k =
      (applyAttributes f (k.inode ino).stat 0 (if (k.inode ino).isDir then 1 else 0) info).run
        Linux.handle k := by
  rw [setInfo_eq h hmin hsize, hnew]
  rfl

/-- The time is set by the path of the file, not through the handle. -/
theorem setInfo_changed (h : OpenHandle k f ino) (hmin : SIZE_OF_EFI_FILE_INFO + 2 ≤ setSize)
    (hsize : info.size ≤ setSize) {modtime : Nat}
    (hnew : newTimes w false info (k.inode ino).mtime = .ok (modtime, true)) :
    (lklSetInfo w f .fileInfo setSize info).run Linux.handle k =
      match k.lookup true (ifilePath f.volume f) with
      | .error rc => (lklError2EfiError rc, k.alloc.2)
      | .ok n =>
        (applyAttributes f (k.inode ino).stat 0 (if (k.inode ino).isDir then 1 else 0) info).run
          Linux.handle (k.alloc.2.setInode n.ino
            { k.inode n.ino with atime := (k.inode ino).atime, mtime := modtime }) := by
  rw [setInfo_eq h hmin hsize, hnew]
  dsimp only
  rw [if_pos rfl, Prog.run_bind]
  have hutime : (applyTime f.volume f (k.inode ino).atime modtime).run Linux.handle k =
      k.alloc.2.utime (some (ifilePath f.volume f)) (k.inode ino).atime modtime := rfl
  have hlookup : k.alloc.2.lookup true (ifilePath f.volume f) =
      k.lookup true (ifilePath f.volume f) := rfl
  rw [hutime, Linux.utime, hlookup]
  cases hl : k.lookup true (ifilePath f.volume f) with
  | error rc =>
    have hrc := (Linux.lookup_error_neg hl).ne
    dsimp only
    rw [if_pos hrc]
    rfl
  | ok n => rfl

theorem newModtime_error {readOnly : Bool} {t : EfiTime} {modtime : Nat × Bool}
    {status : EfiStatus} (h : newModtime w readOnly t modtime = .error status) :
    status = .invalidParameter := by
  unfold newModtime at h
  split at h
  · cases h
  · split at h
    · cases h
      rfl
    · split at h
      · cases h
      · dsimp only at h
        split at h <;> cases h

theorem newModtime_same {readOnly : Bool} {t : EfiTime} {modtime : Nat × Bool} {m : Nat}
    (h : newModtime w readOnly t modtime = .ok (m, false)) : m = modtime.1 := by
  unfold newModtime at h
  split at h
  · cases h
    rfl
  · split at h
    · cases h
    · split at h
      · cases h
        rfl
      · dsimp only at h
        split at h
        · cases h
        · cases h
          rfl

theorem setInfo_accepted (h : OpenHandle k f ino) {k' : Linux}
    (hrun : (lklSetInfo w f .fileInfo setSize info).run Linux.handle k = (.success, k')) :
    SIZE_OF_EFI_FILE_INFO + 2 ≤ setSize ∧ info.size ≤ setSize ∧
      ∃ r, newTimes w false info (k.inode ino).mtime = .ok r := by
  by_cases hbad : setSize < SIZE_OF_EFI_FILE_INFO + 2 ∨ info.size > setSize
  · unfold lklSetInfo lklSetFileInfo at hrun
    dsimp only at hrun
    rw [h.writable, if_neg Bool.false_ne_true, if_neg h.named, if_pos hbad] at hrun
    cases hrun
  · have hmin : SIZE_OF_EFI_FILE_INFO + 2 ≤ setSize := by omega
    have hsize : info.size ≤ setSize := by omega
    refine ⟨hmin, hsize, ?_⟩
    rw [setInfo_eq h hmin hsize] at hrun
    cases hnew : newTimes w false info (k.inode ino).mtime with
    | ok r => exact ⟨r, rfl⟩
    | error status =>
      rw [hnew] at hrun
      cases hrun
      unfold newTimes at hnew
      cases hcreate : newModtime w false info.createTime ((k.inode ino).mtime, false) with
      | error s =>
        rw [hcreate] at hnew
        cases hnew
        cases newModtime_error hcreate
      | ok m =>
        rw [hcreate] at hnew
        cases newModtime_error hnew

end SetInfo

/-- Writing back what is reported clears the write permission of the file that the path of
the handle leads to from the root. -/
theorem applyAttributes_readOnly {f : LklIfile} {st : Stat} {info : EfiFileInfo} (k : Linux)
    (hattr : info.attr = EFI_FILE_READ_ONLY) (hsize : info.fileSize = st.size) :
    (applyAttributes f st 0 0 info).run Linux.handle k =
      match k.lookup true f.filePath with
      | .error rc => (lklError2EfiError rc, k)
      | .ok n => (.success, k.setInode n.ino { k.inode n.ino with
          perm := Fin.ofNat 4096 (newMode EFI_FILE_READ_ONLY.toUInt8 st.mode) }) := by
  have hvalid : ¬EFI_FILE_READ_ONLY &&& ~~~EFI_FILE_VALID_ATTR ≠ 0 := by decide
  have hdir : ¬EFI_FILE_READ_ONLY.toUInt8 &&& EFI_FILE_DIRECTORY.toUInt8 ≠ 0 := by decide
  have hro : EFI_FILE_READ_ONLY.toUInt8 &&& EFI_FILE_READ_ONLY.toUInt8 ≠ 0 := by decide
  unfold applyAttributes
  rw [hattr, if_neg hvalid]
  dsimp only
  rw [if_neg hdir, if_pos hro, Linux.run_chmod]
  unfold Linux.chmod
  cases hl : k.lookup true f.filePath with
  | error rc =>
    have hrc := (Linux.lookup_error_neg hl).ne
    dsimp only
    rw [if_pos hrc]
    rfl
  | ok n =>
    unfold applySize
    dsimp only
    rw [if_neg (not_not.mpr hsize)]
    rfl

/-- What the law of reading and writing back keeps. -/
def Inode.Kept (i i' : Inode) : Prop := i'.size = i.size ∧ i'.perm = i.perm ∧ i'.mtime = i.mtime

/-- Writing back what was read succeeds and changes nothing. -/
def GetSet (w : Nat) (k : Linux) (f : LklIfile) (ino bufferSize setSize : Nat) : Prop :=
  ∃ info k', (lklGetInfo w f .fileInfo bufferSize).run Linux.handle k =
      ((.success, bufferSize, some (.file info)), k') ∧
    let r := (lklSetInfo w f .fileInfo setSize info).run Linux.handle k'
    r.1 = .success ∧ (k.inode ino).Kept (r.2.inode ino)

/-- `k` is what writing `info` left, and reading reports what was written. -/
def SetGet (w : Nat) (k : Linux) (f : LklIfile) (bufferSize : Nat) (info : EfiFileInfo) : Prop :=
  ∃ got k', (lklGetInfo w f .fileInfo bufferSize).run Linux.handle k =
      ((.success, bufferSize, some (.file got)), k') ∧
    got.fileSize = info.fileSize ∧
    got.attr &&& EFI_FILE_READ_ONLY = info.attr &&& EFI_FILE_READ_ONLY ∧
    got.modificationTime = info.modificationTime.unpadded

/-- The path of the handle, taken from the root of the kernel, names a file, and that is
another one or may not be written to by its owner. -/
def GetSetWorks (k : Linux) (f : LklIfile) (ino : Nat) : Prop :=
  (k.inode ino).isDir = false ∧
    ∃ n, k.lookup true f.filePath = .ok n ∧
      (n.ino = ino → ((k.inode ino).perm : Nat) &&& S_IWUSR = 0)

theorem getSet_iff {w : Nat} (hw : 32 ≤ w) {k : Linux} {f : LklIfile}
    {ino bufferSize setSize : Nat} (h : OpenHandle k f ino) (hbuffer : infoSize f ≤ bufferSize)
    (hset : infoSize f ≤ setSize) :
    GetSet w k f ino bufferSize setSize ↔ GetSetWorks k f ino := by
  have hmin : SIZE_OF_EFI_FILE_INFO + 2 ≤ setSize := by
    unfold infoSize unicodeSize at hset
    omega
  have htimes : newTimes w false (reportedInfo w f (k.inode ino)) (k.inode ino).mtime =
      .ok ((k.inode ino).mtime, false) := by
    have hcreate : newModtime w false (reportedInfo w f (k.inode ino)).createTime
        ((k.inode ino).mtime, false) = .ok ((k.inode ino).mtime, false) :=
      newModtime_stored hw h.mtime
    have hmodify : newModtime w false (reportedInfo w f (k.inode ino)).modificationTime
        ((k.inode ino).mtime, false) = .ok ((k.inode ino).mtime, false) :=
      newModtime_stored hw h.mtime
    unfold newTimes
    rw [hcreate]
    exact hmodify
  have hrun : (lklSetInfo w f .fileInfo setSize (reportedInfo w f (k.inode ino))).run
      Linux.handle k = _ := setInfo_unchanged h hmin hset htimes
  have hget := lklGetInfo_run w h hbuffer
  have heq : GetSet w k f ino bufferSize setSize ↔
      let r := (lklSetInfo w f .fileInfo setSize (reportedInfo w f (k.inode ino))).run
        Linux.handle k
      r.1 = .success ∧ (k.inode ino).Kept (r.2.inode ino) := by
    constructor
    · intro hlaw
      obtain ⟨info, k', hrun', hres⟩ := hlaw
      rw [hget] at hrun'
      cases hrun'
      exact hres
    · intro hres
      exact ⟨_, _, hget, hres⟩
  rw [heq, hrun]
  unfold GetSetWorks
  cases hdir : (k.inode ino).isDir with
  | true =>
    have := @applyAttributes_directory f (k.inode ino).stat (reportedInfo w f (k.inode ino)) k
    simp [this]
  | false =>
    have hattr : (reportedInfo w f (k.inode ino)).attr = EFI_FILE_READ_ONLY := by
      unfold reportedInfo
      rw [hdir]
      rfl
    have hperm := perm_newMode_readOnly (k.inode ino).isDir (k.inode ino).perm
    rw [if_neg Bool.false_ne_true, applyAttributes_readOnly k hattr rfl]
    cases hl : k.lookup true f.filePath with
    | error rc =>
      have hrc := lklError2EfiError_isError (Linux.lookup_error_neg hl).ne
      have hne : lklError2EfiError rc ≠ .success := by
        intro hsucc
        rw [hsucc] at hrc
        cases hrc
      simp [hne]
    | ok n =>
      by_cases hn : n.ino = ino
      · subst hn
        rw [← hperm]
        simp [Inode.Kept, Linux.setInode, Inode.stat, Inode.mode]
      · have hne : ino ≠ n.ino := Ne.symm hn
        simp [Inode.Kept, Linux.setInode, hn, Function.update_of_ne hne]

theorem newTimes_settable {w : Nat} (hw : 32 ≤ w) {info : EfiFileInfo} {mtime m : Nat} {c : Bool}
    (ht : info.modificationTime.Settable) (h : newTimes w false info mtime = .ok (m, c)) :
    m = info.modificationTime.epoch ∧ (c = false → mtime = info.modificationTime.epoch) := by
  unfold newTimes at h
  cases hcreate : newModtime w false info.createTime (mtime, false) with
  | error status =>
    rw [hcreate] at h
    cases h
  | ok r =>
    obtain ⟨m₁, c₁⟩ := r
    rw [hcreate] at h
    change newModtime w false info.modificationTime (m₁, c₁) = _ at h
    rw [newModtime_settable hw ht] at h
    cases h
    refine ⟨rfl, fun hc => ?_⟩
    obtain ⟨hc₁, hm₁⟩ := Bool.or_eq_false_iff.mp hc
    cases hc₁
    have hsame : m₁ = mtime := newModtime_same hcreate
    exact hsame ▸ not_not.mp (of_decide_eq_false hm₁)

/-- The write permission is asked to go; and where the size changes, the clock
shows the requested time, else the file has that time already or the path of the handle
below the mount point still leads to it. -/
def SetGetWorks (k : Linux) (f : LklIfile) (ino : Nat) (info : EfiFileInfo) : Prop :=
  info.attr &&& EFI_FILE_READ_ONLY ≠ 0 ∧
    if info.fileSize = (k.inode ino).size then
      (k.inode ino).mtime = info.modificationTime.epoch ∨
        ∃ n, k.lookup true (ifilePath f.volume f) = .ok n ∧ n.ino = ino
    else k.now = info.modificationTime.epoch

theorem setInfo_success {w : Nat} (hw : 32 ≤ w) {k k' : Linux} {f : LklIfile}
    {ino setSize : Nat} {info : EfiFileInfo} (h : OpenHandle k f ino)
    (ht : info.modificationTime.Settable)
    (hrun : (lklSetInfo w f .fileInfo setSize info).run Linux.handle k = (.success, k')) :
    ∃ m, OpenHandle k' f ino ∧ (k'.inode ino).isDir = false ∧
      (k'.inode ino).size = info.fileSize ∧
      (k'.inode ino).mtime = (if info.fileSize = (k.inode ino).size then m else k.now) ∧
      (m = info.modificationTime.epoch ↔ (k.inode ino).mtime = info.modificationTime.epoch ∨
        ∃ n, k.lookup true (ifilePath f.volume f) = .ok n ∧ n.ino = ino) := by
  obtain ⟨hmin, hsize, ⟨m, changed⟩, hnew⟩ := setInfo_accepted h hrun
  obtain ⟨rfl, hsame⟩ := newTimes_settable hw ht hnew
  obtain ⟨pos, hfd⟩ := h.descriptor
  have hepoch := ht.epoch_lt
  -- the state in which the attributes are applied
  obtain ⟨kt, hfds, hnow, hdir, htsize, hlt, htime, hrest⟩ : ∃ kt : Linux, kt.fds = k.fds ∧
      kt.now = k.now ∧ (kt.inode ino).isDir = (k.inode ino).isDir ∧
      (kt.inode ino).size = (k.inode ino).size ∧ (kt.inode ino).mtime < 2 ^ 32 ∧
      ((kt.inode ino).mtime = info.modificationTime.epoch ↔
        (k.inode ino).mtime = info.modificationTime.epoch ∨
          ∃ n, k.lookup true (ifilePath f.volume f) = .ok n ∧ n.ino = ino) ∧
      (applyAttributes f (k.inode ino).stat 0 (if (k.inode ino).isDir then 1 else 0) info).run
        Linux.handle kt = (.success, k') := by
    cases changed with
    | false =>
      rw [setInfo_unchanged h hmin hsize hnew] at hrun
      exact ⟨k, rfl, rfl, rfl, rfl, h.mtime, by simp [hsame rfl], hrun⟩
    | true =>
      rw [setInfo_changed h hmin hsize hnew] at hrun
      cases hl : k.lookup true (ifilePath f.volume f) with
      | error rc =>
        rw [hl] at hrun
        have herr := lklError2EfiError_isError (Linux.lookup_error_neg hl).ne
        rw [(Prod.mk.inj hrun).1] at herr
        cases herr
      | ok n =>
        rw [hl] at hrun
        dsimp only at hrun
        refine ⟨k.alloc.2.setInode n.ino { k.inode n.ino with
          atime := (k.inode ino).atime
          mtime := info.modificationTime.epoch }, rfl, rfl, ?_⟩
        by_cases hn : n.ino = ino
        · subst hn
          rw [Linux.inode_setInode_self]
          exact ⟨rfl, rfl, hepoch, by simp, hrun⟩
        · rw [Linux.inode_setInode_of_ne _ _ (Ne.symm hn)]
          exact ⟨rfl, rfl, h.mtime, by simp [hn, Linux.alloc], hrun⟩
  have hfd' : kt.fd f.fd = some ⟨ino, f.linuxOpenFlags, pos⟩ := by
    unfold Linux.fd at hfd ⊢
    rw [hfds]
    exact hfd
  cases hd : (k.inode ino).isDir with
  | true =>
    rw [hd, if_pos rfl] at hrest
    exact absurd (congrArg Prod.fst hrest) applyAttributes_directory
  | false =>
    rw [hd, if_neg Bool.false_ne_true] at hrest
    obtain ⟨hfds', hnow', hdir', hsize', hmtime'⟩ := applyAttributes_success hfd' htsize.symm hrest
    have hfile : (k'.inode ino).isDir = false := hdir'.trans (hdir.trans hd)
    refine ⟨(kt.inode ino).mtime, ⟨h.named, h.writable, ⟨pos, ?_⟩, ?_, ?_, ?_⟩, hfile, hsize', ?_,
      htime⟩
    · unfold Linux.fd at hfd' ⊢
      rw [hfds']
      exact hfd'
    · rw [hfile, ← hd]
      exact h.kind
    · rw [hmtime']
      split
      · exact hlt
      · rw [hnow]
        exact h.now
    · rw [hnow', hnow]
      exact h.now
    · rw [hmtime', hnow]
      rfl

theorem and_readOnly (attr : UInt64) :
    attr &&& EFI_FILE_READ_ONLY = 0 ∨ attr &&& EFI_FILE_READ_ONLY = EFI_FILE_READ_ONLY := by
  have hmod : (attr &&& EFI_FILE_READ_ONLY).toNat = attr.toNat % 2 := by
    rw [UInt64.toNat_and]
    exact Nat.and_one_is_mod _
  rcases Nat.mod_two_eq_zero_or_one attr.toNat with h | h
  · exact .inl (UInt64.toNat_inj.mp (hmod.trans h))
  · exact .inr (UInt64.toNat_inj.mp (hmod.trans h))

theorem setGet_iff {w : Nat} (hw : 32 ≤ w) {k k' : Linux} {f : LklIfile}
    {ino bufferSize setSize : Nat} {info : EfiFileInfo} (h : OpenHandle k f ino)
    (hbuffer : infoSize f ≤ bufferSize) (ht : info.modificationTime.Settable)
    (hrun : (lklSetInfo w f .fileInfo setSize info).run Linux.handle k = (.success, k')) :
    SetGet w k' f bufferSize info ↔ SetGetWorks k f ino info := by
  obtain ⟨m, hopen, hdir, hsize, hmtime, hm⟩ := setInfo_success hw h ht hrun
  have hget := lklGetInfo_run w hopen hbuffer
  have htime := reported_time_iff hw ht hopen.mtime
  have hattr : (reportedInfo w f (k'.inode ino)).attr = EFI_FILE_READ_ONLY := by
    unfold reportedInfo
    rw [hdir]
    rfl
  have hbit : (reportedInfo w f (k'.inode ino)).attr &&& EFI_FILE_READ_ONLY =
      info.attr &&& EFI_FILE_READ_ONLY ↔ info.attr &&& EFI_FILE_READ_ONLY ≠ 0 := by
    rw [hattr]
    rcases and_readOnly info.attr with hbit | hbit
    · rw [hbit]
      decide
    · rw [hbit]
      decide
  have heq : SetGet w k' f bufferSize info ↔
      info.attr &&& EFI_FILE_READ_ONLY ≠ 0 ∧
        (k'.inode ino).mtime = info.modificationTime.epoch := by
    rw [← hbit, ← htime]
    constructor
    · intro hlaw
      obtain ⟨got, k'', hrun', -, hro, hmod⟩ := hlaw
      rw [hget] at hrun'
      cases hrun'
      exact ⟨hro, hmod⟩
    · intro hres
      exact ⟨_, _, hget, hsize, hres.1, hres.2⟩
  rw [heq, hmtime]
  unfold SetGetWorks
  refine and_congr_right fun _ => ?_
  split
  · exact hm
  · rfl

theorem lklInfo_laws_iff {w : Nat} (hw : 32 ≤ w) {k : Linux} {f : LklIfile}
    {ino bufferSize setSize : Nat} (h : OpenHandle k f ino) (hbuffer : infoSize f ≤ bufferSize)
    (hset : infoSize f ≤ setSize) :
    (GetSet w k f ino bufferSize setSize ↔ GetSetWorks k f ino) ∧
      ∀ (newSize : Nat) (info : EfiFileInfo) (k' : Linux), info.modificationTime.Settable →
        (lklSetInfo w f .fileInfo newSize info).run Linux.handle k = (.success, k') →
        (SetGet w k' f bufferSize info ↔ SetGetWorks k f ino info) :=
  ⟨getSet_iff hw h hbuffer hset, fun _ _ _ ht hrun => setGet_iff hw h hbuffer ht hrun⟩

/-- The file "a" of a volume on "/mnt/1", just created and opened for writing. -/
def createdFile : LklIfile where
  ptr := 5
  volume := mountedVolume
  fd := 3
  linuxOpenFlags := O_RDWR ||| O_CREAT
  statBuf := ⟨fileMode false 0o600, 0, 0, 0, 0⟩
  filePath := .of (ascii ['a'])
  dir := none
  dirEnt := none

def createdKernel : Linux :=
  ((lklOpen rootHandle (some [0x61])
    (EFI_FILE_MODE_READ ||| EFI_FILE_MODE_WRITE ||| EFI_FILE_MODE_CREATE) 0).run Linux.handle
      { Linux.boot with fs := mountedTree, nextIno := 3 }).2

example : ((lklOpen rootHandle (some [0x61])
    (EFI_FILE_MODE_READ ||| EFI_FILE_MODE_WRITE ||| EFI_FILE_MODE_CREATE) 0).run Linux.handle
      { Linux.boot with fs := mountedTree, nextIno := 3 }).1 = (.success, some createdFile) := by
  decide

theorem openHandle_created : OpenHandle createdKernel createdFile 3 where
  named := by decide
  writable := by decide
  descriptor := ⟨0, by decide⟩
  kind := by decide
  mtime := by decide
  now := by decide

def touchedInfo : EfiFileInfo :=
  { newFileInfo 84 (ascii ['a']) with modificationTime := ⟨2000, 2, 29, 12, 34, 56, 0, 0, 0, 0, 0⟩ }

theorem settable_touchedInfo : touchedInfo.modificationTime.Settable := by
  constructor <;> decide

theorem lklInfo_laws_iff_created :
    (GetSet 32 createdKernel createdFile 3 200 200 ↔ GetSetWorks createdKernel createdFile 3) ∧
      (SetGet 32 ((lklSetInfo 32 createdFile .fileInfo 200 touchedInfo).run Linux.handle
          createdKernel).2 createdFile 200 touchedInfo ↔
        SetGetWorks createdKernel createdFile 3 touchedInfo) := by
  have hsize : infoSize createdFile ≤ 200 := by decide
  have hlaws := lklInfo_laws_iff (w := 32) (by decide) openHandle_created hsize hsize
  exact ⟨hlaws.1, hlaws.2 200 touchedInfo _ settable_touchedInfo (Prod.ext (by decide) rfl)⟩

/-- Writing back what was just read fails, and a file that was made writable is still reported
to be read-only. -/
theorem lklInfo_laws_fail :
    ¬GetSet 32 createdKernel createdFile 3 200 200 ∧
      ∃ k', (lklSetInfo 32 createdFile .fileInfo 200 touchedInfo).run Linux.handle createdKernel =
        (.success, k') ∧ ¬SetGet 32 k' createdFile 200 touchedInfo := by
  have hread := openHandle_created
  refine ⟨?_, ?_⟩
  · rw [getSet_iff (by decide) hread (by decide) (by decide)]
    intro h
    obtain ⟨-, n, hn, -⟩ := h
    have hmissing : createdKernel.lookup true createdFile.filePath = .error (-ENOENT) := by decide
    rw [hmissing] at hn
    cases hn
  · have hset : ((lklSetInfo 32 createdFile .fileInfo 200 touchedInfo).run Linux.handle
        createdKernel).1 = .success := by decide
    refine ⟨_, Prod.ext hset rfl, ?_⟩
    rw [setGet_iff (by decide) hread (by decide) settable_touchedInfo (Prod.ext hset rfl)]
    intro h
    exact absurd h.1 (by decide)

end UefiLkl
