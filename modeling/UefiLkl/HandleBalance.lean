import Mathlib.Algebra.Order.Group.Multiset
import UefiLkl.Resources
set_option autoImplicit false

/-!
What is left when every handle that was opened has been closed or deleted.
-/

namespace UefiLkl
open Interaction

def Books.held (g : Books) : Multiset Int × Multiset Ptr × Bool := (g.fds, g.pool, g.wild)

section Entries

variable {w : Nat} {g : Books} {f : LklIfile}

theorem openDir_books :
    bookkeeping.Always (openDir f) (fun _ g' => g'.held = g.held) g := by
  unfold openDir
  cases f.dir with
  | some dir => rfl
  | none =>
    refine bookkeeping_ask_bind.mpr fun x => ?_
    obtain ⟨dir, rc⟩ := x
    cases dir <;> rfl

theorem lklFillFileInfo_unbooked (fd : Int) (info : EfiFileInfo) :
    (lklFillFileInfo w fd info).Only fun c => c.booked = false := by
  refine Prog.only_ask_bind.mpr ⟨rfl, fun x => ?_⟩
  dsimp only
  split <;> trivial

theorem entryInfo_books (resultSize : Nat) (name : Bytes) :
    bookkeeping.Always (entryInfo w f resultSize name) (fun _ g' => g' = g) g := by
  refine bookkeeping_ask_bind.mpr fun (fd : Int) => ?_
  by_cases hfd : fd ≥ 0
  · rw [if_pos hfd]
    refine bookkeeping_bind (bookkeeping_unbooked (lklFillFileInfo_unbooked fd _)) fun _ => ?_
    refine bookkeeping_ask_bind.mpr fun _ => ?_
    exact Books.closed_opened
  · rw [if_neg hfd]
    exact Books.opened_of_neg (by omega)

def SameHandle (g : Books) (f f' : LklIfile) (g' : Books) : Prop :=
  f'.ptr = f.ptr ∧ f'.fd = f.fd ∧ g'.held = g.held

theorem lklIFileReadDir_books (bufferSize : Nat) :
    bookkeeping.Always (lklIFileReadDir w f bufferSize)
      (fun r g' => SameHandle g f r.2.2.2 g') g := by
  refine Env.always_bind.mpr (openDir_books.mono fun r g₁ hg₁ => ?_)
  cases r with
  | error status => exact ⟨rfl, rfl, hg₁⟩
  | ok dir =>
    refine bookkeeping_bind (bookkeeping_unbooked ?_) fun entry => ?_
    · cases f.dirEnt with
      | none => exact ⟨rfl, fun _ => trivial⟩
      | some name => trivial
    · cases entry with
      | none =>
        refine bookkeeping_ask_bind.mpr fun err => ?_
        split <;> exact ⟨rfl, rfl, hg₁⟩
      | some name =>
        dsimp only
        split
        · exact ⟨rfl, rfl, hg₁⟩
        · exact bookkeeping_bind (entryInfo_books _ name) fun _ => ⟨rfl, rfl, hg₁⟩

theorem lklIFileAccess_books (ioMode : IoMode) (bufferSize : Nat) (buffer : Bytes) :
    bookkeeping.Always (lklIFileAccess w f ioMode bufferSize buffer)
      (fun r g' => SameHandle g f r.2.2.2 g') g := by
  unfold lklIFileAccess
  split
  · exact ⟨rfl, rfl, rfl⟩
  · split
    · exact ⟨rfl, rfl, rfl⟩
    · split
      · refine Env.always_bind.mpr ((lklIFileReadDir_books bufferSize).mono fun r g' hr => ?_)
        exact hr
      · split
        · refine bookkeeping_ask_bind.mpr fun x => ?_
          split <;> exact ⟨rfl, rfl, rfl⟩
        · refine bookkeeping_ask_bind.mpr fun x => ?_
          cases x <;> exact ⟨rfl, rfl, rfl⟩

theorem lklSetPosition_books (position : UInt64) :
    bookkeeping.Always (lklSetPosition f position) (fun r g' => SameHandle g f r.2 g') g := by
  unfold lklSetPosition
  split
  · split
    · cases f.dir with
      | none => exact ⟨rfl, rfl, rfl⟩
      | some dir => exact bookkeeping_ask_bind.mpr fun _ => ⟨rfl, rfl, rfl⟩
    · exact ⟨rfl, rfl, rfl⟩
  · split
    · refine bookkeeping_ask_bind.mpr fun x => ?_
      dsimp only
      split <;> exact ⟨rfl, rfl, rfl⟩
    · refine bookkeeping_ask_bind.mpr fun x => ?_
      dsimp only
      split <;> exact ⟨rfl, rfl, rfl⟩

theorem lklGetPosition_unbooked (f : LklIfile) :
    (lklGetPosition f).Only fun c => c.booked = false := by
  refine Prog.only_ask_bind.mpr ⟨rfl, fun x => ?_⟩
  split <;> trivial

theorem lklGetInfo_unbooked (type : EfiGuid) (bufferSize : Nat) :
    (lklGetInfo w f type bufferSize).Only fun c => c.booked = false := by
  cases type with
  | fileInfo =>
    unfold lklGetInfo lklGetFileInfo
    dsimp only
    split
    · trivial
    · exact (lklFillFileInfo_unbooked f.fd _).bind fun _ => trivial
  | fileSystemInfo =>
    refine Prog.only_ask_bind.mpr ⟨rfl, fun x => ?_⟩
    dsimp only
    split
    · trivial
    · split <;> trivial
  | other => trivial

theorem applySize_unbooked (st : Stat) (readOnly isDirectory : UInt8) (info : EfiFileInfo) :
    (applySize f st readOnly isDirectory info).Only fun c => c.booked = false := by
  unfold applySize
  split
  · split
    · trivial
    · refine Prog.only_ask_bind.mpr ⟨rfl, fun rc => ?_⟩
      split <;> trivial
  · trivial

theorem applyAttributes_unbooked (st : Stat) (readOnly isDirectory : UInt8) (info : EfiFileInfo) :
    (applyAttributes f st readOnly isDirectory info).Only fun c => c.booked = false := by
  unfold applyAttributes
  split
  · trivial
  · dsimp only
    split
    · trivial
    · have hsize : ∀ rc : Int, Prog.Only (fun c => c.booked = false)
          (if rc ≠ 0 then pure (lklError2EfiError rc)
            else applySize f st readOnly isDirectory info) := by
        intro rc
        split
        · trivial
        · exact applySize_unbooked st readOnly isDirectory info
      split
      · exact Prog.only_ask_bind.mpr ⟨rfl, hsize⟩
      · exact hsize 0

/-- Where there is no memory for the path a null pointer is freed. -/
theorem applyTime_books (h0 : 0 ∉ g.pool) (volume : LklVolume) (actime modtime : Nat) :
    bookkeeping.Always (applyTime volume f actime modtime) (fun _ g' => g' = g) g := by
  refine bookkeeping_ask_bind.mpr fun ptr => bookkeeping_ask_bind.mpr fun rc =>
    bookkeeping_ask_bind.mpr fun _ => ?_
  cases ptr with
  | none =>
    show g.free 0 = g
    rw [Books.free, Multiset.erase_of_notMem h0]
  | some p => exact Books.free_alloc

theorem lklSetInfo_books (h0 : 0 ∉ g.pool) (type : EfiGuid) (bufferSize : Nat)
    (info : EfiFileInfo) :
    bookkeeping.Always (lklSetInfo w f type bufferSize info) (fun _ g' => g' = g) g := by
  unfold lklSetInfo
  cases type with
  | fileSystemInfo => rfl
  | other => rfl
  | fileInfo =>
    dsimp only
    split
    · rfl
    unfold lklSetFileInfo
    split
    · rfl
    split
    · rfl
    refine bookkeeping_ask_bind.mpr fun x => ?_
    obtain ⟨rc, st⟩ := x
    dsimp only
    split
    · rfl
    cases newTimes w _ info st.mtime with
    | error status => rfl
    | ok modtime =>
      have hattributes : ∀ (readOnly isDirectory : UInt8) (rc : Int),
          bookkeeping.Always (if rc ≠ 0 then pure (lklError2EfiError rc)
            else applyAttributes f st readOnly isDirectory info) (fun _ g' => g' = g) g := by
        intro readOnly isDirectory rc
        split
        · rfl
        · exact bookkeeping_unbooked (applyAttributes_unbooked st _ _ info)
      dsimp only
      split
      · exact bookkeeping_bind (applyTime_books h0 _ _ _) (hattributes _ _)
      · exact hattributes _ _ 0

def Books.release (g : Books) (f : LklIfile) : Books := (g.closed f.fd).free f.ptr

theorem lklIFileClose_books :
    bookkeeping.Always (lklIFileClose f) (fun _ g' => g' = g.release f) g :=
  bookkeeping_ask_bind.mpr fun _ => bookkeeping_ask_bind.mpr fun _ => rfl

theorem Books.free_release {o : Option Ptr} {p : Ptr} (ho : o = some p) :
    ((g.alloc o).release f).free p = g.release f := by
  subst ho
  rw [release, closed_alloc]
  simp only [release, free, alloc]
  rw [Multiset.erase_comm, Multiset.erase_cons_head]

theorem lklDelete_books :
    bookkeeping.Always (lklDelete f) (fun _ g' => g' = g.release f) g := by
  refine bookkeeping_ask_bind.mpr fun x => ?_
  refine bookkeeping_bind lklIFileClose_books fun _ => ?_
  cases x with
  | none => rfl
  | some ptr =>
    refine bookkeeping_ask_bind.mpr fun rc => bookkeeping_ask_bind.mpr fun _ => ?_
    exact Books.free_release rfl

def Books.Serves (g : Books) (f : LklIfile) (g' : Books) : HandleChange → Prop
  | .kept f' => SameHandle g f f' g'
  | .closed => g'.held = (g.release f).held
  | .opened f' => 0 ≤ f'.fd ∧ g'.held = (g.hold (some f')).held

theorem serve_books (h0 : 0 ∉ g.pool) (r : Request) :
    bookkeeping.Always (r.serve w f) (fun x g' => g.Serves f g' x.2) g := by
  have hkept : ∀ {α : Type} {p : Lkl α} {status : α → EfiStatus},
      bookkeeping.Always p (fun _ g' => g' = g) g →
      bookkeeping.Always (p >>= fun a => pure (status a, HandleChange.kept f))
        (fun x g' => g.Serves f g' x.2) g := fun hp =>
    bookkeeping_bind hp fun _ => ⟨rfl, rfl, rfl⟩
  cases r with
  | «open» fileName openMode attributes =>
    refine Env.always_bind.mpr ((lklOpen_books f _ _ _).mono ?_)
    rintro ⟨status, new⟩ g' (⟨-, hnew, rfl⟩ | ⟨-, f', hnew, hfd, rfl⟩)
    · cases hnew
      exact ⟨rfl, rfl, rfl⟩
    · cases hnew
      exact ⟨hfd, rfl⟩
  | close =>
    refine Env.always_bind.mpr (Env.always_bind.mpr (lklIFileClose_books.mono ?_))
    rintro _ _ rfl
    rfl
  | delete =>
    refine Env.always_bind.mpr (lklDelete_books.mono ?_)
    rintro _ _ rfl
    rfl
  | read bufferSize =>
    exact Env.always_bind.mpr ((lklIFileAccess_books _ _ _).mono fun _ _ h => h)
  | write buffer =>
    exact Env.always_bind.mpr ((lklIFileAccess_books _ _ _).mono fun _ _ h => h)
  | getPosition => exact hkept (bookkeeping_unbooked (lklGetPosition_unbooked f))
  | setPosition position =>
    exact Env.always_bind.mpr ((lklSetPosition_books position).mono fun _ _ h => h)
  | getInfo type bufferSize => exact hkept (bookkeeping_unbooked (lklGetInfo_unbooked _ _))
  | setInfo type bufferSize info => exact hkept (lklSetInfo_books h0 type bufferSize info)
  | flush => exact bookkeeping_ask_bind.mpr fun _ => ⟨rfl, rfl, rfl⟩
  | openEx fileName openMode attributes => exact ⟨rfl, rfl, rfl⟩
  | readEx => exact ⟨rfl, rfl, rfl⟩
  | writeEx => exact ⟨rfl, rfl, rfl⟩
  | flushEx => exact ⟨rfl, rfl, rfl⟩

end Entries

def touchesNothing : Event Call Call.Ans → Bool
  | ⟨.touch .ifile _ _ _, _⟩ => true
  | _ => false

def streamOpened : Event Call Call.Ans → Option Ptr
  | ⟨.fdopendir _, (d, _)⟩ => d
  | _ => none

/-- A descriptor was opened, but there was no memory for a handle, or no information for it. -/
def LosesHandle (t : Trace) : Prop :=
  (∃ path flags mode, ∃ fd : Int, 0 ≤ fd ∧
      (⟨.sysOpen path flags mode, fd⟩ : Event Call Call.Ans) ∈ t) ∧
    ((∃ size, (⟨.allocatePool size, none⟩ : Event Call Call.Ans) ∈ t) ∨
      ∃ fd, ∃ x : Int × Stat, x.1 ≠ 0 ∧ (⟨.sysFstat fd, x⟩ : Event Call Call.Ans) ∈ t)

def OpensStream (t : Trace) : Prop := ∃ e ∈ t, (streamOpened e).isSome = true

theorem lklOpenVolume_books (volume : LklVolume) {g : Books} :
    bookkeeping.Always (lklOpenVolume volume) (fun r g' => match r.2 with
      | none => (g'.fds, g'.pool) = (g.fds, g.pool)
      | some f => 0 ≤ f.fd ∧ (g'.fds, g'.pool) = ((g.hold (some f)).fds, (g.hold (some f)).pool))
      g := by
  refine bookkeeping_ask_bind.mpr fun (fd : Int) => ?_
  have hopened : g.after ⟨.sysOpen volume.lklMountPoint O_RDONLY 0o644, fd⟩ = g.opened fd := rfl
  rw [hopened]
  by_cases hfd : fd < 0
  · rw [if_pos hfd, Books.opened_of_neg hfd]
    exact rfl
  rw [if_neg hfd]
  refine Env.always_bind.mpr ((lklAllocateIFile_books volume fd).mono ?_)
  rintro ⟨status, ifile⟩ g' hr
  cases ifile with
  | some f =>
    obtain ⟨-, hf, rfl⟩ := hr
    subst hf
    exact ⟨by dsimp only; omega, rfl⟩
  | none =>
    obtain ⟨herror, rfl⟩ := hr
    refine bookkeeping_ask_bind.mpr fun _ => ?_
    dsimp only at herror ⊢
    rw [if_pos herror]
    refine bookkeeping_ask_bind.mpr fun _ => ?_
    have hclosed : (g.opened fd).closed fd = g := Books.closed_opened
    have hfd' : 0 ≤ fd := by omega
    simp only [Books.opened, Books.closed, if_pos hfd'] at hclosed
    simp [Books.after, Books.closed, Books.opened, hfd']

theorem lklOpenVolume_touches_iff {volume : LklVolume} {t : Trace} {r : EfiStatus × Option LklIfile}
    (h : (lklOpenVolume volume).Exec t r) : t.any touchesNothing = true ↔ LosesHandle t := by
  obtain ⟨(fd : Int), u, rfl, h₁⟩ := Prog.exec_ask_bind_iff.mp h
  by_cases hfd : fd < 0
  · rw [if_pos hfd] at h₁
    obtain ⟨rfl, -⟩ := Prog.exec_ret_iff.mp h₁
    simp [LosesHandle, touchesNothing]
  rw [if_neg hfd] at h₁
  obtain ⟨v, v', ⟨status, ifile⟩, rfl, halloc, h₂⟩ := Prog.exec_bind_iff.mp h₁
  have hopen : ∃ path flags mode, ∃ fd' : Int, 0 ≤ fd' ∧ (⟨.sysOpen path flags mode, fd'⟩ :
      Event Call Call.Ans) ∈ ⟨.sysOpen volume.lklMountPoint O_RDONLY 0o644, fd⟩ :: (v ++ v') :=
    ⟨_, _, _, fd, by omega, List.mem_cons_self⟩
  obtain ⟨x, v₁, rfl, h₃⟩ := Prog.exec_ask_bind_iff.mp halloc
  cases x with
  | none =>
    obtain ⟨rfl, hr⟩ := Prog.exec_ret_iff.mp h₃
    cases hr
    obtain ⟨_, v₂, rfl, -⟩ := Prog.exec_ask_bind_iff.mp h₂
    refine iff_of_true (by simp [touchesNothing]) ⟨hopen, .inl ⟨ifileSize, by simp⟩⟩
  | some ptr =>
    obtain ⟨⟨rc, st⟩, v₂, rfl, h₄⟩ := Prog.exec_ask_bind_iff.mp h₃
    dsimp only at h₄
    by_cases hrc : rc = 0
    · rw [if_neg (not_not.mpr hrc)] at h₄
      obtain ⟨rfl, hr⟩ := Prog.exec_ret_iff.mp h₄
      cases hr
      obtain ⟨rfl, -⟩ := Prog.exec_ret_iff.mp h₂
      simp [LosesHandle, touchesNothing, hrc]
    · have herror := lklError2EfiError_isError hrc
      rw [if_pos hrc, if_pos herror] at h₄
      obtain ⟨_, v₃, rfl, h₅⟩ := Prog.exec_ask_bind_iff.mp h₄
      obtain ⟨rfl, hr⟩ := Prog.exec_ret_iff.mp h₅
      cases hr
      obtain ⟨_, v₄, rfl, -⟩ := Prog.exec_ask_bind_iff.mp h₂
      exact iff_of_true (by simp [touchesNothing]) ⟨hopen, .inr ⟨fd, (rc, st), hrc, by simp⟩⟩

section Marks

variable (g : Books)

@[simp] theorem Books.alloc_streams (o : Option Ptr) : (g.alloc o).streams = g.streams := by
  cases o <;> rfl

@[simp] theorem Books.alloc_wild (o : Option Ptr) : (g.alloc o).wild = g.wild := by
  cases o <;> rfl

@[simp] theorem Books.opened_streams (fd : Int) : (g.opened fd).streams = g.streams := by
  unfold opened
  split <;> rfl

@[simp] theorem Books.opened_wild (fd : Int) : (g.opened fd).wild = g.wild := by
  unfold opened
  split <;> rfl

@[simp] theorem Books.closed_streams (fd : Int) : (g.closed fd).streams = g.streams := by
  unfold closed
  split <;> rfl

@[simp] theorem Books.closed_wild (fd : Int) : (g.closed fd).wild = g.wild := by
  unfold closed
  split <;> rfl

@[simp] theorem Books.free_streams (p : Ptr) : (g.free p).streams = g.streams := rfl

@[simp] theorem Books.free_wild (p : Ptr) : (g.free p).wild = g.wild := rfl

theorem Books.after_streams (e : Event Call Call.Ans) :
    (g.after e).streams = ↑(streamOpened e).toList + g.streams := by
  obtain ⟨c, x⟩ := e
  cases c with
  | touch buffer off len size => cases buffer <;> simp [after, streamOpened]
  | reallocatePool old new p => cases x <;> simp [after, streamOpened]
  | fdopendir fd =>
    obtain ⟨d, rc⟩ := x
    cases d <;> simp [after, streamOpened]
  | _ => simp [after, streamOpened]

theorem Books.after_wild (e : Event Call Call.Ans) :
    (g.after e).wild = (touchesNothing e || g.wild) := by
  obtain ⟨c, x⟩ := e
  cases c with
  | touch buffer off len size => cases buffer <;> simp [after, touchesNothing]
  | reallocatePool old new p => cases x <;> simp [after, touchesNothing]
  | fdopendir fd =>
    obtain ⟨d, rc⟩ := x
    cases d <;> simp [after, touchesNothing]
  | _ => simp [after, touchesNothing]

theorem books_streams (t : Trace) :
    (t.foldl Books.after g).streams = ↑(t.filterMap streamOpened) + g.streams := by
  induction t generalizing g with
  | nil => simp
  | cons e t ih =>
    rw [List.foldl_cons, ih, Books.after_streams, List.filterMap_cons]
    cases streamOpened e with
    | none => simp
    | some d => simp [← Multiset.cons_coe]

theorem books_wild (t : Trace) :
    (t.foldl Books.after g).wild = (t.any touchesNothing || g.wild) := by
  induction t generalizing g with
  | nil => rfl
  | cons e t ih =>
    rw [List.foldl_cons, ih, Books.after_wild, List.any_cons]
    cases touchesNothing e <;> simp

theorem books_streams_eq_iff (t : Trace) :
    (t.foldl Books.after g).streams = g.streams ↔ ¬OpensStream t := by
  rw [books_streams, add_eq_right, Multiset.coe_eq_zero, List.filterMap_eq_nil_iff, OpensStream]
  push Not
  exact forall₂_congr fun e _ => by simp

end Marks

/-- The pool allocator has not handed out anything twice, and no null pointer. -/
structure Books.Sound (g : Books) : Prop where
  nodup : g.pool.Nodup
  null : 0 ∉ g.pool

theorem Books.Sound.of_pool_le {g g' : Books} (h : g.Sound) (hle : g'.pool ≤ g.pool) : g'.Sound :=
  ⟨Multiset.nodup_of_le hle h.nodup, fun h0 => h.null (Multiset.mem_of_le hle h0)⟩

theorem Books.Sound.alloc {g : Books} (h : g.Sound) {p : Ptr} (hp : p ≠ 0 ∧ p ∉ g.pool) :
    (g.alloc (some p)).Sound :=
  ⟨Multiset.nodup_cons.mpr ⟨hp.2, h.nodup⟩, fun h0 => by
    rcases Multiset.mem_cons.mp h0 with h0 | h0
    · exact hp.1 h0.symm
    · exact h.null h0⟩

theorem Books.Sound.after {g : Books} {e : Event Call Call.Ans} (he : g.Fresh e) (h : g.Sound) :
    (g.after e).Sound := by
  obtain ⟨c, x⟩ := e
  have hfree : ∀ p, (g.free p).Sound := fun p => h.of_pool_le (Multiset.erase_le p g.pool)
  cases c with
  | allocatePool size =>
    cases x with
    | none => exact h
    | some p => exact h.alloc (of_decide_eq_true he)
  | reallocatePool old new p =>
    cases x with
    | none => exact h
    | some q =>
      have hq := of_decide_eq_true he
      exact (hfree p).alloc ⟨hq.1, fun hmem => hq.2 (Multiset.mem_of_mem_erase hmem)⟩
  | freePool p => exact hfree p
  | touch buffer off len size => cases buffer <;> exact h.of_pool_le le_rfl
  | fdopendir fd =>
    obtain ⟨d, rc⟩ := x
    cases d <;> exact h.of_pool_le le_rfl
  | sysOpen path flags mode =>
    refine h.of_pool_le (le_of_eq ?_)
    simp only [Books.after, Books.opened]
    split <;> rfl
  | sysOpenat fd path flags mode =>
    refine h.of_pool_le (le_of_eq ?_)
    simp only [Books.after, Books.opened]
    split <;> rfl
  | sysClose fd =>
    refine h.of_pool_le (le_of_eq ?_)
    simp only [Books.after, Books.closed]
    split <;> rfl
  | _ => exact h

/-- The open handles of the session are `hs`, and what they hold is all that was taken since the
books were `g₀`. -/
structure Session.Accounts (g₀ : Books) (s : Session) (hs : Multiset LklIfile) (g : Books) :
    Prop where
  handles : ∀ p f, s p = some f ↔ f ∈ hs ∧ f.ptr = p
  distinct : (hs.map LklIfile.ptr).Nodup
  opened : ∀ f ∈ hs, 0 ≤ f.fd
  fds : g.fds = hs.map LklIfile.fd + g₀.fds
  pool : g.pool = hs.map LklIfile.ptr + g₀.pool

section Accounts

variable {w : Nat} {v : LklVolume} {s s' : Session} {g₀ g g' : Books} {hs : Multiset LklIfile}
  {f f' : LklIfile}

theorem Session.Accounts.empty (g : Books) : Session.Accounts g (fun _ => none) 0 g := by
  constructor <;> simp

theorem Session.Accounts.of_empty (h : Session.Accounts g₀ (fun _ => none) hs g) :
    g.fds = g₀.fds ∧ g.pool = g₀.pool := by
  have hs0 : hs = 0 := Multiset.eq_zero_of_forall_notMem fun f hf => by
    cases (h.handles f.ptr f).mpr ⟨hf, rfl⟩
  rw [h.fds, h.pool, hs0]
  simp

theorem Session.Accounts.split (h : s.Accounts g₀ hs g) {p : Ptr} (hf : s p = some f) :
    f.ptr = p ∧ ∃ t, hs = f ::ₘ t ∧ ∀ f' ∈ t, f'.ptr ≠ f.ptr := by
  obtain ⟨hmem, hptr⟩ := (h.handles p f).mp hf
  obtain ⟨t, rfl⟩ := Multiset.exists_cons_of_mem hmem
  refine ⟨hptr, t, rfl, fun f' hf' heq => ?_⟩
  have hnd := h.distinct
  rw [Multiset.map_cons, Multiset.nodup_cons] at hnd
  exact hnd.1 (heq ▸ Multiset.mem_map_of_mem LklIfile.ptr hf')

theorem Session.Accounts.add (h : s.Accounts g₀ hs g) (hfd : 0 ≤ f.fd)
    (hg : (g'.fds, g'.pool) = ((g.hold (some f)).fds, (g.hold (some f)).pool))
    (hnd : g'.pool.Nodup) : (s.add (some f)).Accounts g₀ (f ::ₘ hs) g' := by
  obtain ⟨hfds, hpool⟩ := Prod.mk.inj hg
  simp only [Books.hold, Books.opened, Books.alloc, if_pos hfd] at hfds hpool
  have hnew : ∀ f' ∈ hs, f'.ptr ≠ f.ptr := by
    intro f' hf' heq
    rw [hpool, Multiset.nodup_cons, h.pool] at hnd
    exact hnd.1 (Multiset.mem_add.mpr (.inl (heq ▸ Multiset.mem_map_of_mem LklIfile.ptr hf')))
  constructor
  · intro p f'
    rw [Multiset.mem_cons]
    by_cases hp : p = f.ptr
    · subst hp
      rw [Session.add_self, Option.some_inj]
      constructor
      · rintro rfl
        exact ⟨.inl rfl, rfl⟩
      · rintro ⟨rfl | hf', heq⟩
        · rfl
        · exact absurd heq (hnew f' hf')
    · have hold : s.add (some f) p = s p := Function.update_of_ne hp _ _
      rw [hold, h.handles]
      constructor
      · rintro ⟨hf', rfl⟩
        exact ⟨.inr hf', rfl⟩
      · rintro ⟨rfl | hf', rfl⟩
        · exact absurd rfl hp
        · exact ⟨hf', rfl⟩
  · rw [Multiset.map_cons, Multiset.nodup_cons]
    refine ⟨fun hmem => ?_, h.distinct⟩
    obtain ⟨f', hf', heq⟩ := Multiset.mem_map.mp hmem
    exact hnew f' hf' heq
  · intro f' hf'
    rcases Multiset.mem_cons.mp hf' with rfl | hf'
    · exact hfd
    · exact h.opened f' hf'
  · rw [hfds, h.fds, Multiset.map_cons, Multiset.cons_add]
  · rw [hpool, h.pool, Multiset.map_cons, Multiset.cons_add]

theorem Session.Accounts.remove (h : s.Accounts g₀ hs g) {p : Ptr} (hf : s p = some f)
    (hg : g'.held = (g.release f).held) :
    ∃ hs', Session.Accounts g₀ (Function.update s p none) hs' g' := by
  obtain ⟨rfl, t, rfl, hne⟩ := h.split hf
  have hfd := h.opened f (Multiset.mem_cons_self f t)
  have hfds : g'.fds = g.fds.erase f.fd := by
    have := congrArg Prod.fst hg
    simpa [Books.held, Books.release, Books.closed, Books.free, hfd] using this
  have hpool : g'.pool = g.pool.erase f.ptr := by
    have := congrArg (Prod.fst ∘ Prod.snd) hg
    simpa [Books.held, Books.release, Books.closed, Books.free, hfd] using this
  refine ⟨t, ?_, ?_, fun f' hf' => h.opened f' (Multiset.mem_cons_of_mem hf'), ?_, ?_⟩
  · intro p f'
    by_cases hp : p = f.ptr
    · subst hp
      rw [Function.update_self]
      constructor
      · intro h
        cases h
      · rintro ⟨hf', heq⟩
        exact absurd heq (hne f' hf')
    · rw [Function.update_of_ne hp, h.handles, Multiset.mem_cons]
      constructor
      · rintro ⟨rfl | hf', rfl⟩
        · exact absurd rfl hp
        · exact ⟨hf', rfl⟩
      · rintro ⟨hf', rfl⟩
        exact ⟨.inr hf', rfl⟩
  · have hnd := h.distinct
    rw [Multiset.map_cons, Multiset.nodup_cons] at hnd
    exact hnd.2
  · rw [hfds, h.fds, Multiset.map_cons, Multiset.cons_add, Multiset.erase_cons_head]
  · rw [hpool, h.pool, Multiset.map_cons, Multiset.cons_add, Multiset.erase_cons_head]

theorem Session.Accounts.keep (h : s.Accounts g₀ hs g) {p : Ptr} (hf : s p = some f)
    (hg : SameHandle g f f' g') :
    ∃ hs', Session.Accounts g₀ (Function.update s p (some f')) hs' g' := by
  obtain ⟨rfl, t, rfl, hne⟩ := h.split hf
  obtain ⟨hptr, hfd, hheld⟩ := hg
  have hfds : g'.fds = g.fds := congrArg Prod.fst hheld
  have hpool : g'.pool = g.pool := congrArg (Prod.fst ∘ Prod.snd) hheld
  refine ⟨f' ::ₘ t, ?_, ?_, ?_, ?_, ?_⟩
  · intro p f''
    rw [Multiset.mem_cons]
    by_cases hp : p = f.ptr
    · subst hp
      rw [Function.update_self, Option.some_inj]
      constructor
      · rintro rfl
        exact ⟨.inl rfl, hptr⟩
      · rintro ⟨rfl | hf'', heq⟩
        · rfl
        · exact absurd heq (hne f'' hf'')
    · rw [Function.update_of_ne hp, h.handles, Multiset.mem_cons]
      constructor
      · rintro ⟨rfl | hf'', rfl⟩
        · exact absurd rfl hp
        · exact ⟨.inr hf'', rfl⟩
      · rintro ⟨rfl | hf'', rfl⟩
        · exact absurd hptr hp
        · exact ⟨.inr hf'', rfl⟩
  · have hnd := h.distinct
    rw [Multiset.map_cons] at hnd ⊢
    rwa [hptr]
  · intro f'' hf''
    rcases Multiset.mem_cons.mp hf'' with rfl | hf''
    · rw [hfd]
      exact h.opened f (Multiset.mem_cons_self f t)
    · exact h.opened f'' (Multiset.mem_cons_of_mem hf'')
  · rw [hfds, h.fds, Multiset.map_cons, Multiset.map_cons, hfd]
  · rw [hpool, h.pool, Multiset.map_cons, Multiset.map_cons, hptr]

theorem Session.Accounts.step (h : s.Accounts g₀ hs g) (hg : g.Sound) {r : Option Request}
    {t : Trace} (hstep : Session.Step w v s r t s') (hg' : (t.foldl Books.after g).Sound) :
    ∃ hs', s'.Accounts g₀ hs' (t.foldl Books.after g) := by
  cases hstep with
  | openVolume ht =>
    rename_i status f
    have hbooks := bookkeeping_exec (g := g) (lklOpenVolume_books v) ht
    cases f with
    | none =>
      obtain ⟨hfds, hpool⟩ := Prod.mk.inj hbooks
      exact ⟨hs, h.handles, h.distinct, h.opened, hfds.trans h.fds, hpool.trans h.pool⟩
    | some f => exact ⟨_, h.add hbooks.1 hbooks.2 hg'.nodup⟩
  | call hf ht =>
    rename_i p f r status c
    have hbooks := bookkeeping_exec (serve_books (g := g) hg.null r) ht
    cases c with
    | kept f' => exact h.keep hf hbooks
    | closed => exact h.remove hf hbooks
    | opened f' =>
      obtain ⟨hfd, hheld⟩ := hbooks
      have hfds : (t.foldl Books.after g).fds = _ := congrArg Prod.fst hheld
      have hpool : (t.foldl Books.after g).pool = _ := congrArg (Prod.fst ∘ Prod.snd) hheld
      exact ⟨_, h.add hfd (Prod.ext hfds hpool) hg'.nodup⟩

/-- Only opening the root can write to a handle that does not exist. -/
theorem Session.Step.touches_iff {r : Option Request} {t : Trace}
    (hstep : Session.Step w v s r t s') :
    t.any touchesNothing = true ↔ r = none ∧ LosesHandle t := by
  cases hstep with
  | openVolume ht => rw [lklOpenVolume_touches_iff ht, and_iff_right rfl]
  | call hf ht =>
    rename_i p f r status c
    refine iff_of_false ?_ fun hnone => by cases hnone.1
    have hbooks := bookkeeping_exec (serve_books (g := ⟨0, 0, 0, false⟩) (by simp) r) ht
    have hwild : (t.foldl Books.after ⟨0, 0, 0, false⟩).wild = false := by
      cases c with
      | kept f' => exact congrArg (Prod.snd ∘ Prod.snd) hbooks.2.2
      | closed => exact (congrArg (Prod.snd ∘ Prod.snd) hbooks).trans (Books.closed_wild _ _)
      | opened f' =>
        refine (congrArg (Prod.snd ∘ Prod.snd) hbooks.2).trans ?_
        exact (Books.alloc_wild _ _).trans (Books.opened_wild _ _)
    rw [books_wild, Bool.or_false] at hwild
    simp [hwild]

theorem Session.Run.accounts {run : List (Option Request × Trace)}
    (hrun : Session.Run w v s run s') (h : s.Accounts g₀ hs g) (hg : g.Sound)
    (hfresh : Along Books.after Books.Fresh g (run.flatMap Prod.snd)) :
    ∃ hs', s'.Accounts g₀ hs' ((run.flatMap Prod.snd).foldl Books.after g) := by
  induction hrun generalizing g hs with
  | nil s => exact ⟨hs, h⟩
  | cons hstep _ ih =>
    rw [List.flatMap_cons, along_append] at hfresh
    have hsound := hfresh.1.invariant (I := Books.Sound) (fun _ _ he h => h.after he) hg
    obtain ⟨hs₁, h₁⟩ := h.step hg hstep hsound
    rw [List.flatMap_cons, List.foldl_append]
    exact ih h₁ hsound hfresh.2

theorem Session.Run.touches_iff {run : List (Option Request × Trace)}
    (hrun : Session.Run w v s run s') :
    (run.flatMap Prod.snd).any touchesNothing = true ↔
      ∃ x ∈ run, x.1 = none ∧ LosesHandle x.2 := by
  induction hrun with
  | nil s => simp
  | cons hstep _ ih =>
    rw [List.flatMap_cons, List.any_append, Bool.or_eq_true, hstep.touches_iff, ih]
    simp

end Accounts

theorem opensStream_flatMap {run : List (Option Request × Trace)} :
    OpensStream (run.flatMap Prod.snd) ↔ ∃ x ∈ run, OpensStream x.2 := by
  simp only [OpensStream, List.mem_flatMap]
  constructor
  · rintro ⟨e, ⟨x, hx, he⟩, h⟩
    exact ⟨x, hx, e, he, h⟩
  · rintro ⟨x, hx, e, he, h⟩
    exact ⟨e, ⟨x, hx, he⟩, h⟩

/-- When every handle was closed or deleted, what is open and allocated is what it was, and no
handle was written to that does not exist, exactly if no directory was read and no opening of
the root failed after the descriptor was opened. -/
theorem handles_balance_iff {w : Nat} {v : LklVolume} {run : List (Option Request × Trace)}
    {g : Books} (hrun : Session.Run w v (fun _ => none) run (fun _ => none)) (hg : g.Sound)
    (hwild : g.wild = false)
    (hfresh : Along Books.after Books.Fresh g (run.flatMap Prod.snd)) :
    (run.flatMap Prod.snd).foldl Books.after g = g ↔
      ∀ x ∈ run, ¬OpensStream x.2 ∧ ¬(x.1 = none ∧ LosesHandle x.2) := by
  obtain ⟨hs, haccounts⟩ := hrun.accounts (.empty g) hg hfresh
  obtain ⟨hfds, hpool⟩ := haccounts.of_empty
  have hstreams := books_streams_eq_iff g (run.flatMap Prod.snd)
  have htouches := hrun.touches_iff
  have hwild' := books_wild g (run.flatMap Prod.snd)
  rw [hwild, Bool.or_false] at hwild'
  constructor
  · intro h x hx
    rw [h] at hstreams hwild'
    rw [← hwild', hwild] at htouches
    refine ⟨fun hopens => ?_, fun hloses => ?_⟩
    · exact hstreams.mp rfl (opensStream_flatMap.mpr ⟨x, hx, hopens⟩)
    · exact Bool.false_ne_true (htouches.mpr ⟨x, hx, hloses⟩)
  · intro h
    have hs' : ((run.flatMap Prod.snd).foldl Books.after g).streams = g.streams := by
      refine hstreams.mpr fun hopens => ?_
      obtain ⟨x, hx, hopen⟩ := opensStream_flatMap.mp hopens
      exact (h x hx).1 hopen
    have hw' : ((run.flatMap Prod.snd).foldl Books.after g).wild = g.wild := by
      rw [hwild', hwild, Bool.eq_false_iff]
      intro htouch
      obtain ⟨x, hx, hlose⟩ := htouches.mp htouch
      exact (h x hx).2 hlose
    exact Books.ext hfds hpool hs' hw'

/-- A volume whose root is a directory without entries, of which a stream can be opened; the
state is the next address. -/
def emptyDirectory : Handler Call Call.Ans Ptr
  | .allocatePool _, n => (some n, n + 1)
  | .sysOpen _ _ _, n => (3, n)
  | .sysFstat _, n => ((0, ⟨fileMode true 0o755, 4096, 8, 0, 0⟩), n)
  | .sysClose _, n => (0, n)
  | .fdopendir _, n => ((some n, 0), n + 1)
  | .errdir _, n => (0, n)
  | c, n => ((Linux.handle c .boot).1, n)

def directoryRoot : LklIfile :=
  ⟨1, mountedVolume, 3, O_RDONLY, ⟨fileMode true 0o755, 4096, 8, 0, 0⟩, .of [], none, none⟩

def listing : List (Option Request × Trace) :=
  [(none, (lklOpenVolume mountedVolume).trace emptyDirectory 1),
    (some (.read 0), ((Request.read 0).serve 32 directoryRoot).trace emptyDirectory 2),
    (some .close, (Request.close.serve 32 { directoryRoot with dir := some 2 }).trace
      emptyDirectory 3)]

theorem run_listing : Session.Run 32 mountedVolume (fun _ => none) listing (fun _ => none) := by
  have hroot := Prog.exec_trace emptyDirectory (lklOpenVolume mountedVolume) 1
  have hread := Prog.exec_trace emptyDirectory ((Request.read 0).serve 32 directoryRoot) 2
  have hclose := Prog.exec_trace emptyDirectory
    (Request.close.serve 32 { directoryRoot with dir := some 2 }) 3
  have hrootResult : ((lklOpenVolume mountedVolume).run emptyDirectory 1).1 =
      (.success, some directoryRoot) := by decide
  have hreadResult : (((Request.read 0).serve 32 directoryRoot).run emptyDirectory 2).1 =
      (.success, .kept { directoryRoot with dir := some 2 }) := by decide
  have hcloseResult : ((Request.close.serve 32 { directoryRoot with dir := some 2 }).run
      emptyDirectory 3).1 = (.success, .closed) := by decide
  rw [hrootResult] at hroot
  rw [hreadResult] at hread
  rw [hcloseResult] at hclose
  have hnone : (fun _ => none : Session) = Session.change (Session.change
      (Session.add (fun _ => none) (some directoryRoot)) 1
        (.kept { directoryRoot with dir := some 2 })) 1 .closed := by
    funext p
    by_cases hp : p = 1
    · subst hp
      rfl
    · simp [Session.change, Session.add, directoryRoot, Function.update_of_ne hp]
  have hrun : Session.Run 32 mountedVolume (fun _ => none) listing _ :=
    .cons (.openVolume hroot) (.cons (.call (h := 1) (Session.add_self _ _) hread)
      (.cons (.call (h := 1) (f := { directoryRoot with dir := some 2 }) rfl hclose) (.nil _)))
  rw [← hnone] at hrun
  exact hrun

theorem sound_empty : Books.Sound ⟨0, 0, 0, false⟩ := ⟨Multiset.nodup_zero, by simp⟩

theorem handles_balance_iff_listing :
    (listing.flatMap Prod.snd).foldl Books.after ⟨0, 0, 0, false⟩ = ⟨0, 0, 0, false⟩ ↔
      ∀ x ∈ listing, ¬OpensStream x.2 ∧ ¬(x.1 = none ∧ LosesHandle x.2) :=
  handles_balance_iff run_listing sound_empty rfl (by decide)

/-- The stream of the root stays. -/
theorem handles_unbalanced_listing :
    Session.Run 32 mountedVolume (fun _ => none) listing (fun _ => none) ∧
      Along Books.after Books.Fresh ⟨0, 0, 0, false⟩ (listing.flatMap Prod.snd) ∧
      (listing.flatMap Prod.snd).foldl Books.after ⟨0, 0, 0, false⟩ ≠ ⟨0, 0, 0, false⟩ :=
  ⟨run_listing, by decide, by decide⟩

end UefiLkl
