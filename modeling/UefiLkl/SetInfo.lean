import UefiLkl.InfoLaws
import UefiLkl.ReadOnly
set_option autoImplicit false

/-!
What `LKLSetFileInfo` checks, and what it asks of the kernel, in every execution.
-/

namespace UefiLkl
open Interaction Calendar

/-- Zero stands for no time at all. -/
def Acceptable (t : EfiTime) : Prop := t = zeroTime ∨ efiTimeIsValid t = true

instance (t : EfiTime) : Decidable (Acceptable t) := instDecidableOr

/-- `UINT32 NewTime`, or the old time where none is given. -/
def givenTime (w : Nat) (t : EfiTime) (old : Nat) : Nat :=
  if t = zeroTime then old else (efiTimeToEpoch w t).toNat % 2 ^ 32

theorem newModtime_acceptable {w : Nat} {t : EfiTime} (h : Acceptable t) (m : Nat) (c : Bool) :
    newModtime w false t (m, c) = .ok (givenTime w t m, c || decide (givenTime w t m ≠ m)) := by
  unfold newModtime givenTime
  by_cases hzero : t = zeroTime
  · simp [hzero]
  · have hvalid : efiTimeIsValid t = true := h.resolve_left hzero
    rw [if_neg hzero, if_neg hzero, hvalid]
    dsimp only
    generalize (efiTimeToEpoch w t).toNat % 2 ^ 32 = new
    by_cases hm : new = m
    · simp [hm]
    · simp [hm, Ne.symm hm]

theorem newModtime_unacceptable {w : Nat} {t : EfiTime} (h : ¬Acceptable t) (m : Nat × Bool) :
    newModtime w false t m = .error .invalidParameter := by
  obtain ⟨hzero, hvalid⟩ := not_or.mp h
  unfold newModtime
  rw [if_neg hzero]
  simp [hvalid]

/-- What the file's time is to be: the time of modification wins. -/
def requestedTime (w : Nat) (info : EfiFileInfo) (old : Nat) : Nat :=
  givenTime w info.modificationTime (givenTime w info.createTime old)

/-- One of the given times is not the one the file has. -/
def AsksTime (w : Nat) (info : EfiFileInfo) (old : Nat) : Prop :=
  givenTime w info.createTime old ≠ old ∨ givenTime w info.modificationTime old ≠ old

instance (w : Nat) (info : EfiFileInfo) (old : Nat) : Decidable (AsksTime w info old) :=
  instDecidableOr

def TimesAcceptable (info : EfiFileInfo) : Prop :=
  Acceptable info.createTime ∧ Acceptable info.modificationTime

theorem newTimes_acceptable {w : Nat} {info : EfiFileInfo} (h : TimesAcceptable info)
    (old : Nat) :
    newTimes w false info old = .ok (requestedTime w info old, decide (AsksTime w info old)) := by
  have hasks : (false || decide (givenTime w info.createTime old ≠ old) ||
      decide (givenTime w info.modificationTime (givenTime w info.createTime old) ≠
        givenTime w info.createTime old)) = decide (AsksTime w info old) := by
    unfold AsksTime
    by_cases hc : givenTime w info.createTime old = old
    · simp [hc]
    · simp [hc]
  unfold newTimes requestedTime
  rw [newModtime_acceptable h.1]
  change newModtime w false info.modificationTime _ = _
  rw [newModtime_acceptable h.2, hasks]

theorem newTimes_unacceptable {w : Nat} {info : EfiFileInfo} (h : ¬TimesAcceptable info)
    (old : Nat) : newTimes w false info old = .error .invalidParameter := by
  unfold newTimes
  by_cases hc : Acceptable info.createTime
  · rw [newModtime_acceptable hc]
    exact newModtime_unacceptable (fun hm => h ⟨hc, hm⟩) _
  · rw [newModtime_unacceptable hc]
    rfl

def FitsRequest (f : LklIfile) (bufferSize : Nat) (info : EfiFileInfo) : Prop :=
  f.filePath.val ≠ [] ∧ SIZE_OF_EFI_FILE_INFO + 2 ≤ bufferSize ∧ info.size ≤ bufferSize

/-- What the checks behind the times refuse. The bit of a directory is compared with one. -/
def RefusedLate (st : Stat) (info : EfiFileInfo) : Prop :=
  info.attr &&& ~~~EFI_FILE_VALID_ATTR ≠ 0 ∨ info.attr &&& EFI_FILE_DIRECTORY ≠ 0 ∨
    isDirMode st.mode = true

def timeCalls (volume : LklVolume) (f : LklIfile) (actime modtime : Nat) (ptr : Option Ptr)
    (rc : Int) : Trace :=
  [⟨.allocatePool ((ifilePath volume f).length + 1), ptr⟩,
    ⟨.sysUtime (ptr.map fun _ => ifilePath volume f) actime modtime, rc⟩,
    ⟨.freePool (ptr.getD 0), ()⟩]

/-- What can become of a request whose file is found to be `st`. -/
inductive Settled (w : Nat) (volume : LklVolume) (f : LklIfile) (info : EfiFileInfo) (st : Stat) :
    Trace → EfiStatus → Prop where
  | badTime (h : ¬TimesAcceptable info) : Settled w volume f info st [] .invalidParameter
  | untimed {ptr : Option Ptr} {rc : Int} (h : TimesAcceptable info)
      (hasks : AsksTime w info st.mtime) (hrc : rc ≠ 0) :
      Settled w volume f info st
        (timeCalls volume f st.atime (requestedTime w info st.mtime) ptr rc)
        (lklError2EfiError rc)
  | timed {ptr : Option Ptr} {u : Trace} {status : EfiStatus} (h : TimesAcceptable info)
      (hasks : AsksTime w info st.mtime)
      (hu : (applyAttributes f st 0 (if isDirMode st.mode then 1 else 0) info).Exec u status) :
      Settled w volume f info st
        (timeCalls volume f st.atime (requestedTime w info st.mtime) ptr 0 ++ u) status
  | kept {u : Trace} {status : EfiStatus} (h : TimesAcceptable info)
      (hasks : ¬AsksTime w info st.mtime)
      (hu : (applyAttributes f st 0 (if isDirMode st.mode then 1 else 0) info).Exec u status) :
      Settled w volume f info st u status

inductive Answered (w : Nat) (volume : LklVolume) (f : LklIfile) (bufferSize : Nat)
    (info : EfiFileInfo) : Trace → EfiStatus → Prop where
  | refused (h : ¬FitsRequest f bufferSize info) :
      Answered w volume f bufferSize info []
        (if f.filePath.val = [] then .accessDenied else .badBufferSize)
  | unread {rc : Int} {st : Stat} (h : FitsRequest f bufferSize info) (hrc : rc ≠ 0) :
      Answered w volume f bufferSize info [⟨.sysFstat f.fd, (rc, st)⟩] (lklError2EfiError rc)
  | read {st : Stat} {u : Trace} {status : EfiStatus} (h : FitsRequest f bufferSize info)
      (hu : Settled w volume f info st u status) :
      Answered w volume f bufferSize info (⟨.sysFstat f.fd, (0, st)⟩ :: u) status

section Executions

variable {w : Nat} {volume : LklVolume} {f : LklIfile} {bufferSize : Nat} {info : EfiFileInfo}
  {st : Stat} {t : Trace} {status : EfiStatus}

theorem applyTime_exec {actime modtime : Nat} {rc : Int} :
    (applyTime volume f actime modtime).Exec t rc ↔
      ∃ ptr, t = timeCalls volume f actime modtime ptr rc := by
  constructor
  · intro h
    obtain ⟨ptr, t₁, rfl, h₁⟩ := Prog.exec_ask_bind_iff.mp h
    obtain ⟨rc', t₂, rfl, h₂⟩ := Prog.exec_ask_bind_iff.mp h₁
    obtain ⟨_, t₃, rfl, h₃⟩ := Prog.exec_ask_bind_iff.mp h₂
    obtain ⟨rfl, rfl⟩ := Prog.exec_ret_iff.mp h₃
    exact ⟨ptr, rfl⟩
  · intro h
    obtain ⟨ptr, rfl⟩ := h
    exact .call (.call (.call (.ret rc)))

/-- As `LKL_O_RDONLY` is zero, no handle counts as read-only here. -/
theorem readOnly_flag (f : LklIfile) : (f.linuxOpenFlags &&& O_RDONLY).toUInt8 = 0 := by
  rw [show f.linuxOpenFlags &&& O_RDONLY = 0 from Nat.and_zero _]
  rfl

theorem settled_exec :
    (match newTimes w false info st.mtime with
      | .error status => pure status
      | .ok (modtime, timeChanged) => do
        let rc ← if timeChanged = true then applyTime volume f st.atime modtime else pure 0
        if rc ≠ 0 then pure (lklError2EfiError rc)
        else applyAttributes f st 0 (if isDirMode st.mode then 1 else 0) info
        : Lkl EfiStatus).Exec t status ↔ Settled w volume f info st t status := by
  by_cases htimes : TimesAcceptable info
  · rw [newTimes_acceptable htimes]
    dsimp only
    by_cases hasks : AsksTime w info st.mtime
    · rw [if_pos (decide_eq_true hasks), Prog.exec_bind_iff]
      constructor
      · intro h
        obtain ⟨u, v, rc, rfl, hu, hv⟩ := h
        obtain ⟨ptr, rfl⟩ := applyTime_exec.mp hu
        by_cases hrc : rc = 0
        · subst hrc
          exact .timed htimes hasks hv
        · rw [if_pos hrc] at hv
          obtain ⟨rfl, rfl⟩ := Prog.exec_ret_iff.mp hv
          rw [List.append_nil]
          exact .untimed htimes hasks hrc
      · intro h
        cases h with
        | badTime h => exact absurd htimes h
        | @untimed ptr rc _ _ hrc =>
          refine ⟨_, [], rc, (List.append_nil _).symm, applyTime_exec.mpr ⟨ptr, rfl⟩, ?_⟩
          rw [if_pos hrc]
          exact .ret _
        | @timed ptr u _ _ _ hu =>
          exact ⟨_, u, 0, rfl, applyTime_exec.mpr ⟨ptr, rfl⟩, hu⟩
        | kept _ hkept _ => exact absurd hasks hkept
    · rw [if_neg (by simp [hasks])]
      constructor
      · intro h
        exact .kept htimes hasks h
      · intro h
        cases h with
        | badTime h => exact absurd htimes h
        | untimed _ h _ => exact absurd h hasks
        | timed _ h _ => exact absurd h hasks
        | kept _ _ hu => exact hu
  · rw [newTimes_unacceptable htimes]
    dsimp only
    rw [Prog.pure_eq, Prog.exec_ret_iff]
    constructor
    · intro h
      obtain ⟨rfl, rfl⟩ := h
      exact .badTime htimes
    · intro h
      cases h with
      | badTime h => exact ⟨rfl, rfl⟩
      | untimed h _ _ => exact absurd h htimes
      | timed h _ _ => exact absurd h htimes
      | kept h _ _ => exact absurd h htimes

theorem answered_of_not_fits (h : ¬FitsRequest f bufferSize info) :
    Answered w volume f bufferSize info t status ↔
      t = [] ∧ status = if f.filePath.val = [] then .accessDenied else .badBufferSize := by
  constructor
  · intro ha
    cases ha with
    | refused _ => exact ⟨rfl, rfl⟩
    | unread hfits _ => exact absurd hfits h
    | read hfits _ => exact absurd hfits h
  · intro ha
    obtain ⟨rfl, rfl⟩ := ha
    exact .refused h

theorem lklSetFileInfo_exec :
    (lklSetFileInfo w volume f bufferSize info).Exec t status ↔
      Answered w volume f bufferSize info t status := by
  unfold lklSetFileInfo
  by_cases hroot : f.filePath.val = []
  · rw [if_pos hroot, Prog.pure_eq, Prog.exec_ret_iff,
      answered_of_not_fits fun h => h.1 hroot, if_pos hroot]
  rw [if_neg hroot]
  by_cases hsize : bufferSize < SIZE_OF_EFI_FILE_INFO + 2 ∨ info.size > bufferSize
  · have hfits : ¬FitsRequest f bufferSize info := by
      intro h
      have := h.2
      omega
    rw [if_pos hsize, Prog.pure_eq, Prog.exec_ret_iff, answered_of_not_fits hfits, if_neg hroot]
  rw [if_neg hsize]
  have hfits : FitsRequest f bufferSize info := ⟨hroot, by omega, by omega⟩
  refine Prog.exec_ask_bind_iff.trans ?_
  simp only [readOnly_flag, ne_eq, not_true, decide_false, true_and]
  constructor
  · intro h
    obtain ⟨⟨rc, st⟩, u, rfl, hu⟩ := h
    by_cases hrc : rc = 0
    · subst hrc
      exact .read hfits (settled_exec.mp hu)
    · rw [if_pos hrc] at hu
      obtain ⟨rfl, rfl⟩ := Prog.exec_ret_iff.mp hu
      exact .unread hfits hrc
  · intro h
    cases h with
    | refused h => exact absurd hfits h
    | @unread rc st _ hrc =>
      refine ⟨(rc, st), [], rfl, ?_⟩
      rw [if_pos hrc]
      exact .ret _
    | @read st u _ _ hu => exact ⟨(0, st), u, rfl, settled_exec.mpr hu⟩

end Executions

theorem toUInt8_and_eq_zero {a m : UInt64} (hm : m.toNat < 256) :
    a.toUInt8 &&& m.toUInt8 = 0 ↔ a &&& m = 0 := by
  have hle : (a &&& m).toNat < 256 := by
    rw [UInt64.toNat_and]
    exact Nat.and_le_right.trans_lt hm
  rw [← UInt64.toUInt8_and, ← UInt8.toNat_inj, ← UInt64.toNat_inj, UInt64.toNat_toUInt8,
    Nat.mod_eq_of_lt hle]
  rfl

section Attributes

variable {f : LklIfile} {st : Stat} {info : EfiFileInfo}

theorem directory_byte :
    info.attr.toUInt8 &&& EFI_FILE_DIRECTORY.toUInt8 = 0 ↔ info.attr &&& EFI_FILE_DIRECTORY = 0 :=
  toUInt8_and_eq_zero (by decide)

theorem readOnly_byte :
    info.attr.toUInt8 &&& EFI_FILE_READ_ONLY.toUInt8 = 0 ↔ info.attr &&& EFI_FILE_READ_ONLY = 0 :=
  toUInt8_and_eq_zero (by decide)

theorem directory_byte_ne_one : info.attr.toUInt8 &&& EFI_FILE_DIRECTORY.toUInt8 ≠ 1 := by
  intro h
  have hand : EFI_FILE_DIRECTORY.toUInt8 &&& 1 = 0 := by decide
  have h1 := congrArg (· &&& (1 : UInt8)) h
  rw [UInt8.and_assoc, hand, UInt8.and_zero] at h1
  revert h1
  decide

def lateStatus (info : EfiFileInfo) : EfiStatus :=
  if info.attr &&& ~~~EFI_FILE_VALID_ATTR ≠ 0 then .invalidParameter else .accessDenied

theorem applyAttributes_refused (h : RefusedLate st info) :
    applyAttributes f st 0 (if isDirMode st.mode then 1 else 0) info = pure (lateStatus info) := by
  unfold applyAttributes lateStatus
  by_cases hvalid : info.attr &&& ~~~EFI_FILE_VALID_ATTR ≠ 0
  · rw [if_pos hvalid, if_pos hvalid]
  · rw [if_neg hvalid, if_neg hvalid]
    dsimp only
    refine if_pos ?_
    by_cases hdir : isDirMode st.mode = true
    · rw [if_pos hdir]
      exact directory_byte_ne_one
    · rw [if_neg hdir]
      exact fun h0 => (h.resolve_left hvalid).resolve_right hdir (directory_byte.mp h0)

theorem applyAttributes_accepted (h : ¬RefusedLate st info) :
    applyAttributes f st 0 (if isDirMode st.mode then 1 else 0) info = (do
      let rc ← (if info.attr &&& EFI_FILE_READ_ONLY ≠ 0 then
          lklSysChmod f.filePath (newMode info.attr.toUInt8 st.mode)
        else pure 0)
      if rc ≠ 0 then pure (lklError2EfiError rc)
      else applySize f st 0 0 info) := by
  obtain ⟨hvalid, hbit, hdir⟩ : ¬info.attr &&& ~~~EFI_FILE_VALID_ATTR ≠ 0 ∧
      ¬info.attr &&& EFI_FILE_DIRECTORY ≠ 0 ∧ ¬isDirMode st.mode = true := by
    simpa only [RefusedLate, not_or] using h
  have hbyte := directory_byte.mpr (not_not.mp hbit)
  unfold applyAttributes
  rw [if_neg hvalid, if_neg hdir]
  dsimp only
  rw [if_neg (not_not.mpr hbyte)]
  by_cases hro : info.attr &&& EFI_FILE_READ_ONLY = 0
  · rw [if_neg (not_not.mpr hro), if_neg (not_not.mpr (readOnly_byte.mpr hro))]
  · rw [if_pos hro, if_pos (mt readOnly_byte.mp hro)]

end Attributes

def AllSucceeded (t : Trace) : Prop :=
  ∀ e ∈ t, match e with
    | ⟨.sysFstat _, x⟩ => x.1 = 0
    | ⟨.sysUtime _ _ _, rc⟩ => rc = 0
    | ⟨.sysChmod _ _, rc⟩ => rc = 0
    | ⟨.sysFtruncate _ _, rc⟩ => rc = 0
    | _ => True

/-- An error that no system call can have caused. -/
def OwnRefusal (t : Trace) (status : EfiStatus) : Prop :=
  status.isError = true ∧ AllSucceeded t

/-- Where the file is found to be `st`, a request that the function itself refuses
changes nothing. -/
def AllOrNothing (w : Nat) (volume : LklVolume) (f : LklIfile) (bufferSize : Nat)
    (info : EfiFileInfo) (st : Stat) : Prop :=
  ∀ t status, (lklSetFileInfo w volume f bufferSize info).Exec t status →
    (∀ x, (⟨.sysFstat f.fd, x⟩ : Event Call Call.Ans) ∈ t → x = (0, st)) →
    OwnRefusal t status → ¬Modifies t

section Atomicity

variable {w : Nat} {volume : LklVolume} {f : LklIfile} {bufferSize : Nat} {info : EfiFileInfo}
  {st : Stat} {t u : Trace} {status : EfiStatus}

theorem AllSucceeded.append (h : AllSucceeded (t ++ u)) : AllSucceeded t ∧ AllSucceeded u :=
  ⟨fun e he => h e (List.mem_append_left u he), fun e he => h e (List.mem_append_right t he)⟩

theorem applyAttributes_succeeded (h : ¬RefusedLate st info)
    (hu : (applyAttributes f st 0 (if isDirMode st.mode then 1 else 0) info).Exec u status)
    (hall : AllSucceeded u) : status = .success := by
  have hsize : ∀ {u : Trace}, (applySize f st 0 0 info).Exec u status → AllSucceeded u →
      status = .success := by
    intro u hu hall
    unfold applySize at hu
    split at hu
    · rw [if_neg (by decide)] at hu
      obtain ⟨rc, v, rfl, hv⟩ := Prog.exec_ask_bind_iff.mp hu
      have hrc : rc = 0 := hall _ List.mem_cons_self
      rw [if_neg (not_not.mpr hrc)] at hv
      exact (Prog.exec_ret_iff.mp hv).2
    · exact (Prog.exec_ret_iff.mp hu).2
  rw [applyAttributes_accepted h] at hu
  split at hu
  · obtain ⟨rc, v, rfl, hv⟩ := Prog.exec_ask_bind_iff.mp hu
    have hrc : rc = 0 := hall _ List.mem_cons_self
    rw [if_neg (not_not.mpr hrc)] at hv
    exact hsize hv fun e he => hall e (List.mem_cons_of_mem _ he)
  · exact hsize hu hall

theorem timeCalls_succeeded {actime modtime : Nat} {ptr : Option Ptr} {rc : Int}
    (h : AllSucceeded (timeCalls volume f actime modtime ptr rc)) : rc = 0 :=
  h ⟨.sysUtime (ptr.map fun _ => ifilePath volume f) actime modtime, rc⟩ (by simp [timeCalls])

/-- The times are set before the attributes are looked at. -/
theorem not_allOrNothing (hfits : FitsRequest f bufferSize info) (htimes : TimesAcceptable info)
    (hasks : AsksTime w info st.mtime) (hlate : RefusedLate st info) :
    ¬AllOrNothing w volume f bufferSize info st := by
  intro hall
  have hexec : (lklSetFileInfo w volume f bufferSize info).Exec
      (⟨.sysFstat f.fd, (0, st)⟩ ::
        (timeCalls volume f st.atime (requestedTime w info st.mtime) (some 0) 0 ++ []))
      (lateStatus info) := by
    refine lklSetFileInfo_exec.mpr (.read hfits (.timed htimes hasks ?_))
    rw [applyAttributes_refused hlate]
    exact .ret _
  refine hall _ _ hexec ?_ ⟨?_, ?_⟩ ?_
  · intro x hx
    simpa [timeCalls] using hx
  · unfold lateStatus
    split <;> rfl
  · intro e he
    simp only [timeCalls, List.append_nil, List.mem_cons, List.not_mem_nil, or_false] at he
    rcases he with rfl | rfl | rfl | rfl <;> trivial
  · exact ⟨⟨.sysUtime (some (ifilePath volume f)) st.atime (requestedTime w info st.mtime), 0⟩,
      by simp [timeCalls], rfl⟩

theorem lklSetFileInfo_allOrNothing_iff :
    AllOrNothing w volume f bufferSize info st ↔
      ¬(FitsRequest f bufferSize info ∧ TimesAcceptable info ∧ AsksTime w info st.mtime ∧
        RefusedLate st info) := by
  constructor
  · intro hall hbad
    obtain ⟨hfits, htimes, hasks, hlate⟩ := hbad
    exact not_allOrNothing hfits htimes hasks hlate hall
  · intro hgood t status hexec hst hown
    have hnone : ∀ st', ¬Modifies [⟨.sysFstat f.fd, (0, st')⟩] := by
      intro st' hmod
      obtain ⟨e, he, hm⟩ := hmod
      rw [List.mem_singleton.mp he] at hm
      cases hm
    obtain ⟨herror, hsucc⟩ := hown
    cases lklSetFileInfo_exec.mp hexec with
    | refused _ =>
      intro hmod
      obtain ⟨e, he, -⟩ := hmod
      cases he
    | unread _ hrc => exact absurd (hsucc _ List.mem_cons_self) hrc
    | @read st' u _ hfits hu =>
      cases hst (0, st') List.mem_cons_self
      have hsucc' : AllSucceeded u := fun e he => hsucc e (List.mem_cons_of_mem _ he)
      -- only a refusal before the first change is left
      have hlate : ∀ {v : Trace},
          (applyAttributes f st 0 (if isDirMode st.mode then 1 else 0) info).Exec v status →
          AllSucceeded v → RefusedLate st info := by
        intro v hv hallv
        by_contra hacc
        rw [applyAttributes_succeeded hacc hv hallv] at herror
        cases herror
      cases hu with
      | badTime _ => exact hnone st
      | untimed _ _ hrc => exact absurd (timeCalls_succeeded hsucc') hrc
      | timed htimes hasks hv =>
        exact absurd ⟨hfits, htimes, hasks, hlate hv hsucc'.append.2⟩ hgood
      | kept _ _ hv =>
        rw [applyAttributes_refused (hlate hv hsucc')] at hv
        obtain ⟨rfl, -⟩ := Prog.exec_ret_iff.mp hv
        exact hnone st

def touchedInvalid : EfiFileInfo := { touchedInfo with attr := 0x40 }

/-- The request is refused, and the file has the new time. -/
theorem lklSetFileInfo_half_applied :
    ¬AllOrNothing 32 mountedVolume createdFile 200 touchedInvalid (createdKernel.inode 3).stat ∧
      ∃ k', (lklSetFileInfo 32 mountedVolume createdFile 200 touchedInvalid).run Linux.handle
          createdKernel = (.invalidParameter, k') ∧
        (createdKernel.inode 3).mtime = 0 ∧ (k'.inode 3).mtime = 951827696 := by
  refine ⟨not_allOrNothing ⟨by decide, by decide, by decide⟩ ⟨.inl rfl, .inr (by decide)⟩
    (by decide) (.inl (by decide)), _, Prod.ext ?_ rfl, ?_, ?_⟩
  · decide
  · decide
  · decide

end Atomicity

/-- The time of the request that is left to be stored. -/
def Stores (info : EfiFileInfo) (t : EfiTime) : Prop :=
  info.modificationTime = t ∨ info.modificationTime = zeroTime ∧ info.createTime = t

/-- `t` is converted without loss, and every request to store it either fails, or leaves the
file with the seconds of the instant that `t` denotes. -/
structure StoredExactly (t : EfiTime) : Prop where
  asserted : epochAsserted 32 t = true
  fits : EpochFits 32 t
  passed : ∀ (volume : LklVolume) (f : LklIfile) (bufferSize : Nat) (info : EfiFileInfo)
    (tr : Trace) (status : EfiStatus), Stores info t →
    (lklSetFileInfo 32 volume f bufferSize info).Exec tr status →
    (∀ path actime modtime rc,
      (⟨.sysUtime path actime modtime, rc⟩ : Event Call Call.Ans) ∈ tr → modtime = t.utc) ∧
    (status = .success →
      (∃ path actime modtime, (⟨.sysUtime path actime modtime, 0⟩ : Event Call Call.Ans) ∈ tr) ∨
      ∃ st : Stat, (⟨.sysFstat f.fd, (0, st)⟩ : Event Call Call.Ans) ∈ tr ∧ st.mtime = t.utc)

/-- The times whose seconds a word can count, and whose zone is that of the counting. -/
def Countable (t : EfiTime) : Prop :=
  1970 ≤ t.year.toNat ∧ t.instant < unixEpoch + 2 ^ 32 ∧
    (t.timeZone = 0 ∨ t.timeZone = EFI_UNSPECIFIED_TIMEZONE)

section Stored

variable {w : Nat} {volume : LklVolume} {f : LklIfile} {bufferSize : Nat} {info : EfiFileInfo}
  {st : Stat} {t : EfiTime} {tr u : Trace} {status : EfiStatus}

theorem requestedTime_stores (h : Stores info t) (ht : t ≠ zeroTime) (old : Nat) :
    requestedTime w info old = (efiTimeToEpoch w t).toNat % 2 ^ 32 := by
  unfold requestedTime givenTime
  rcases h with hm | ⟨hm, hc⟩
  · rw [hm, if_neg ht]
  · rw [hm, if_pos rfl, hc, if_neg ht]

theorem requestedTime_of_not_asks {old : Nat} (h : ¬AsksTime w info old) :
    requestedTime w info old = old := by
  obtain ⟨hc, hm⟩ : givenTime w info.createTime old = old ∧
      givenTime w info.modificationTime old = old := by
    simpa [AsksTime] using h
  rw [requestedTime, hc, hm]

theorem applySize_no_utime : (applySize f st 0 0 info).Only fun c =>
    ∀ path actime modtime, c ≠ .sysUtime path actime modtime := by
  unfold applySize
  split
  · rw [if_neg (by decide)]
    refine Prog.only_ask_bind.mpr ⟨fun _ _ _ h => Call.noConfusion h, fun rc => ?_⟩
    split <;> trivial
  · trivial

theorem applyAttributes_no_utime :
    (applyAttributes f st 0 (if isDirMode st.mode then 1 else 0) info).Only fun c =>
      ∀ path actime modtime, c ≠ .sysUtime path actime modtime := by
  by_cases hlate : RefusedLate st info
  · rw [applyAttributes_refused hlate]
    trivial
  · rw [applyAttributes_accepted hlate]
    split
    · refine Prog.only_ask_bind.mpr ⟨fun _ _ _ h => Call.noConfusion h, fun rc => ?_⟩
      split
      · trivial
      · exact applySize_no_utime
    · exact applySize_no_utime

theorem settled_utime (h : Settled w volume f info st u status) {path : Option Bytes}
    {actime modtime : Nat} {rc : Int}
    (hmem : (⟨.sysUtime path actime modtime, rc⟩ : Event Call Call.Ans) ∈ u) :
    modtime = requestedTime w info st.mtime := by
  have hcalls : ∀ {ptr : Option Ptr} {rc' : Int},
      (⟨.sysUtime path actime modtime, rc⟩ : Event Call Call.Ans) ∈
        timeCalls volume f st.atime (requestedTime w info st.mtime) ptr rc' →
      modtime = requestedTime w info st.mtime := by
    intro ptr rc' hcall
    simp only [timeCalls, List.mem_cons, List.not_mem_nil, or_false, Sigma.mk.injEq, reduceCtorEq,
      false_and, false_or, Call.sysUtime.injEq] at hcall
    exact hcall.1.2.2
  cases h with
  | badTime _ => cases hmem
  | untimed _ _ _ => exact hcalls hmem
  | timed _ _ hu =>
    rcases List.mem_append.mp hmem with hmem | hmem
    · exact hcalls hmem
    · exact absurd rfl (applyAttributes_no_utime.exec hu _ hmem path actime modtime)
  | kept _ _ hu => exact absurd rfl (applyAttributes_no_utime.exec hu _ hmem path actime modtime)

theorem efiTimeToEpoch_fits (hr : t.InRange) (hy : 1970 ≤ t.year.toNat)
    (hfits : t.instant < unixEpoch + 2 ^ 32) :
    ((efiTimeToEpoch 32 t).toNat % 2 ^ 32 : Nat) = t.utc - t.offset := by
  have hinstant := hr.instant hy
  have hepoch : t.epoch < 2 ^ 32 := by omega
  rw [efiTimeToEpoch_eq le_rfl t hr.month.1 hr.month.2 hr.day.1 (hr.past hy) hepoch,
    Nat.mod_eq_of_lt hepoch, EfiTime.utc, hinstant]
  omega

theorem offset_eq_zero_iff :
    t.offset = 0 ↔ t.timeZone = 0 ∨ t.timeZone = EFI_UNSPECIFIED_TIMEZONE := by
  unfold EfiTime.offset
  by_cases hunspec : t.timeZone = EFI_UNSPECIFIED_TIMEZONE
  · simp [hunspec]
  · rw [if_neg hunspec, or_iff_left hunspec, ← Int16.toInt_inj]
    constructor
    · intro h
      change t.timeZone.toInt = 0
      omega
    · intro h
      change t.timeZone.toInt = 0 at h
      omega

theorem storedExactly_of_countable (hvalid : efiTimeIsValid t = true) (h : Countable t) :
    StoredExactly t := by
  obtain ⟨hy, hlt, hzone⟩ := h
  have hr := inRange_of_valid hvalid
  have hne : t ≠ zeroTime := by
    rintro rfl
    cases hvalid
  have hseconds := efiTimeToEpoch_fits hr hy hlt
  rw [offset_eq_zero_iff.mpr hzone, Int.sub_zero] at hseconds
  refine ⟨(hr.epochAsserted_iff le_rfl).mpr hy, hr.epochFits_iff.mpr ⟨hy, hlt⟩, ?_⟩
  intro volume f bufferSize info tr status hstores hexec
  have hrequested := fun old => requestedTime_stores (w := 32) hstores hne old
  have herror : ∀ {rc : Int}, rc ≠ 0 → lklError2EfiError rc ≠ .success := by
    intro rc hrc hsucc
    have := lklError2EfiError_isError hrc
    rw [hsucc] at this
    cases this
  cases lklSetFileInfo_exec.mp hexec with
  | refused _ =>
    refine ⟨fun _ _ _ _ hmem => (List.not_mem_nil hmem).elim, fun hsucc => ?_⟩
    split at hsucc <;> cases hsucc
  | unread _ hrc =>
    refine ⟨fun _ _ _ _ hmem => ?_, fun hsucc => absurd hsucc (herror hrc)⟩
    simp at hmem
  | @read st u _ _ hu =>
    refine ⟨fun path actime modtime rc hmem => ?_, fun hsucc => ?_⟩
    · have hu' : (⟨.sysUtime path actime modtime, rc⟩ : Event Call Call.Ans) ∈ u := by
        simpa using hmem
      rw [settled_utime hu hu', hrequested, hseconds]
    · cases hu with
      | badTime _ => cases hsucc
      | untimed _ _ hrc => exact absurd hsucc (herror hrc)
      | @timed ptr _ _ _ _ _ =>
        refine .inl ⟨ptr.map fun _ => ifilePath volume f, st.atime, requestedTime 32 info st.mtime,
          ?_⟩
        simp [timeCalls]
      | kept _ hasks _ =>
        refine .inr ⟨st, List.mem_cons_self, ?_⟩
        rw [← hseconds, ← hrequested st.mtime, requestedTime_of_not_asks hasks]

def olderFile (t : EfiTime) : Stat :=
  ⟨fileMode false 0o600, 0, 0, 0, (efiTimeToEpoch 32 t).toNat % 2 ^ 32 + 1⟩

def timeRequest (t : EfiTime) : EfiFileInfo :=
  { newFileInfo 84 (ascii ['a']) with modificationTime := t }

theorem timeRequest_exec (hvalid : efiTimeIsValid t = true) :
    (lklSetFileInfo 32 mountedVolume createdFile 200 (timeRequest t)).Exec
      (⟨.sysFstat createdFile.fd, (0, olderFile t)⟩ ::
        (timeCalls mountedVolume createdFile 0 ((efiTimeToEpoch 32 t).toNat % 2 ^ 32) (some 0) 0 ++
          [])) .success := by
  have hne : t ≠ zeroTime := by
    rintro rfl
    cases hvalid
  have hstores : Stores (timeRequest t) t := .inl rfl
  have hrequested := requestedTime_stores (w := 32) hstores hne (olderFile t).mtime
  have hasks : AsksTime 32 (timeRequest t) (olderFile t).mtime := by
    refine .inr ?_
    change givenTime 32 t _ ≠ _
    rw [givenTime, if_neg hne]
    exact (Nat.lt_succ_self _).ne
  have hlate : ¬RefusedLate (olderFile t) (timeRequest t) := by
    change ¬((0 : UInt64) &&& ~~~EFI_FILE_VALID_ATTR ≠ 0 ∨ (0 : UInt64) &&& EFI_FILE_DIRECTORY ≠ 0 ∨
      isDirMode (fileMode false 0o600) = true)
    decide
  have hfits : FitsRequest createdFile 200 (timeRequest t) :=
    ⟨by decide, by decide, show 84 ≤ 200 by decide⟩
  refine lklSetFileInfo_exec.mpr (.read hfits ?_)
  rw [← hrequested]
  refine .timed ⟨.inl rfl, .inr hvalid⟩ hasks ?_
  have hattr : ¬(timeRequest t).attr &&& EFI_FILE_READ_ONLY ≠ 0 := by
    change ¬(0 : UInt64) &&& EFI_FILE_READ_ONLY ≠ 0
    decide
  rw [applyAttributes_accepted hlate, if_neg hattr]
  exact .ret EfiStatus.success

theorem countable_of_storedExactly (hvalid : efiTimeIsValid t = true) (h : StoredExactly t) :
    Countable t := by
  have hr := inRange_of_valid hvalid
  obtain ⟨hy, hlt⟩ := hr.epochFits_iff.mp h.fits
  refine ⟨hy, hlt, offset_eq_zero_iff.mp ?_⟩
  have hpassed := (h.passed _ _ _ _ _ _ (.inl rfl) (timeRequest_exec hvalid)).1
    (some (ifilePath mountedVolume createdFile)) 0 ((efiTimeToEpoch 32 t).toNat % 2 ^ 32) 0
    (by simp [timeCalls])
  rw [efiTimeToEpoch_fits hr hy hlt] at hpassed
  omega

theorem lklSetFileInfo_unaccepted (hvalid : efiTimeIsValid t = false) (ht : t ≠ zeroTime)
    (hinfo : info.createTime = t ∨ info.modificationTime = t)
    (hexec : (lklSetFileInfo w volume f bufferSize info).Exec tr status) :
    status.isError = true ∧ ∀ path actime modtime rc,
      (⟨.sysUtime path actime modtime, rc⟩ : Event Call Call.Ans) ∉ tr := by
  have htimes : ¬TimesAcceptable info := by
    intro h
    have hacc : Acceptable t := by
      rcases hinfo with hc | hm
      · exact hc ▸ h.1
      · exact hm ▸ h.2
    rcases hacc with hzero | hv
    · exact ht hzero
    · rw [hvalid] at hv
      cases hv
  cases lklSetFileInfo_exec.mp hexec with
  | refused _ =>
    refine ⟨?_, fun _ _ _ _ => List.not_mem_nil⟩
    split <;> rfl
  | unread _ hrc => exact ⟨lklError2EfiError_isError hrc, fun _ _ _ _ hmem => by simp at hmem⟩
  | read _ hu =>
    cases hu with
    | badTime _ => exact ⟨rfl, fun _ _ _ _ hmem => by simp at hmem⟩
    | untimed h _ _ => exact absurd h htimes
    | timed h _ _ => exact absurd h htimes
    | kept h _ _ => exact absurd h htimes

theorem acceptedTimes_stored_iff (t : EfiTime) :
    (efiTimeIsValid t = true → (StoredExactly t ↔ Countable t)) ∧
    (efiTimeIsValid t = false → t ≠ zeroTime →
      ∀ (volume : LklVolume) (f : LklIfile) (bufferSize : Nat) (info : EfiFileInfo) (tr : Trace)
        (status : EfiStatus), info.createTime = t ∨ info.modificationTime = t →
        (lklSetFileInfo 32 volume f bufferSize info).Exec tr status →
        status.isError = true ∧ ∀ path actime modtime rc,
          (⟨.sysUtime path actime modtime, rc⟩ : Event Call Call.Ans) ∉ tr) :=
  ⟨fun hvalid => ⟨countable_of_storedExactly hvalid, storedExactly_of_countable hvalid⟩,
    fun hvalid ht _ _ _ _ _ _ hinfo hexec => lklSetFileInfo_unaccepted hvalid ht hinfo hexec⟩

theorem acceptedTimes_stored_iff_touched :
    StoredExactly touchedInfo.modificationTime ↔ Countable touchedInfo.modificationTime :=
  (acceptedTimes_stored_iff touchedInfo.modificationTime).1 (by decide)

def lastSecond : EfiTime := ⟨1969, 12, 31, 23, 59, 59, 0, 0, 0, 0, 0⟩

/-- The second before the first one is stored as the last one that a word can count. -/
theorem lklSetFileInfo_stores_wrong_time :
    efiTimeIsValid lastSecond = true ∧ epochAsserted 32 lastSecond = false ∧
      ¬StoredExactly lastSecond ∧
      ∃ k', (lklSetFileInfo 32 mountedVolume createdFile 200 (timeRequest lastSecond)).run
          Linux.handle createdKernel = (.success, k') ∧ (k'.inode 3).mtime = 2 ^ 32 - 1 := by
  have hassert : epochAsserted 32 lastSecond = false := by decide
  refine ⟨by decide, hassert, fun h => ?_, _, Prod.ext ?_ rfl, ?_⟩
  · have := h.asserted
    rw [hassert] at this
    cases this
  · decide
  · decide

end Stored

end UefiLkl
