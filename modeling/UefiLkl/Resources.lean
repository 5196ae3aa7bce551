import Mathlib.Data.Multiset.AddSub
import UefiLkl.FileProtocol
set_option autoImplicit false

/-!
What the file protocol takes and gives back: descriptors, pool memory and directory streams.
-/

namespace UefiLkl
open Interaction

/-- The open descriptors, the pool memory that is not freed, the directory streams, for which
there is no call that closes them, and whether a handle was written to that does not exist. -/
@[ext]
structure Books where
  fds : Multiset Int
  pool : Multiset Ptr
  streams : Multiset Ptr
  wild : Bool
  deriving DecidableEq

def Books.alloc (g : Books) : Option Ptr → Books
  | some p => { g with pool := p ::ₘ g.pool }
  | none => g

def Books.free (g : Books) (p : Ptr) : Books := { g with pool := g.pool.erase p }

def Books.opened (g : Books) (fd : Int) : Books :=
  if 0 ≤ fd then { g with fds := fd ::ₘ g.fds } else g

def Books.closed (g : Books) (fd : Int) : Books :=
  if 0 ≤ fd then { g with fds := g.fds.erase fd } else g

/-- A descriptor is given up whatever `close` answers. -/
def Books.after (g : Books) : Event Call Call.Ans → Books
  | ⟨.allocatePool _, p⟩ => g.alloc p
  | ⟨.reallocatePool _ _ old, some p⟩ => (g.free old).alloc (some p)
  | ⟨.freePool p, _⟩ => g.free p
  | ⟨.sysOpen _ _ _, fd⟩ => g.opened fd
  | ⟨.sysOpenat _ _ _ _, fd⟩ => g.opened fd
  | ⟨.sysClose fd, _⟩ => g.closed fd
  | ⟨.fdopendir _, (some d, _)⟩ => { g with streams := d ::ₘ g.streams }
  | ⟨.touch .ifile _ _ _, _⟩ => { g with wild := true }
  | _ => g

/-- The memory is not the null pointer, and not in use. -/
def Books.fresh (g : Books) : Event Call Call.Ans → Bool
  | ⟨.allocatePool _, some p⟩ => p ≠ 0 ∧ p ∉ g.pool
  | ⟨.reallocatePool _ _ _, some p⟩ => p ≠ 0 ∧ p ∉ g.pool
  | _ => true

/-- What the pool allocator promises. -/
abbrev Books.Fresh (g : Books) (e : Event Call Call.Ans) : Prop := g.fresh e = true

def bookkeeping : Env Call Call.Ans Books := Env.tracking Books.after fun _ => True

section Rules

variable {α β : Type} {Q : α → Books → Prop} {g : Books}

theorem bookkeeping_ask_bind {c : Call} {f : c.Ans → Lkl α} :
    bookkeeping.Always (Prog.ask c >>= f) Q g ↔
      ∀ x, bookkeeping.Always (f x) Q (g.after ⟨c, x⟩) := by
  rw [bookkeeping, Env.tracking_ask_bind]
  exact forall_congr' fun x => true_imp_iff

theorem bookkeeping_ask {c : Call} {Q : c.Ans → Books → Prop} :
    bookkeeping.Always (Prog.ask c) Q g ↔ ∀ x, Q x (g.after ⟨c, x⟩) :=
  bookkeeping_ask_bind (f := .ret)

/-- Nothing is taken or given back. -/
def Call.booked : Call → Bool
  | .allocatePool _ | .reallocatePool _ _ _ | .freePool _ | .sysOpen _ _ _ | .sysOpenat _ _ _ _
  | .sysClose _ | .fdopendir _ | .touch .ifile _ _ _ => true
  | _ => false

theorem Books.after_of_unbooked {c : Call} (hc : c.booked = false) (x : c.Ans) :
    g.after ⟨c, x⟩ = g := by
  cases c with
  | touch buffer off len size => cases buffer <;> first | rfl | cases hc
  | _ => first | rfl | cases hc

theorem bookkeeping_unbooked {p : Lkl α} (hp : p.Only fun c => c.booked = false) :
    bookkeeping.Always p (fun _ g' => g' = g) g :=
  Env.tracking_idle (hp.mono fun _ hc x => Books.after_of_unbooked hc x)

theorem bookkeeping_bind {g₁ : Books} {p : Lkl β} {f : β → Lkl α}
    (hp : bookkeeping.Always p (fun _ g' => g' = g₁) g)
    (hf : ∀ a, bookkeeping.Always (f a) Q g₁) : bookkeeping.Always (p >>= f) Q g := by
  rw [Env.always_bind]
  refine hp.mono ?_
  rintro a _ rfl
  exact hf a

theorem bookkeeping_exec {p : Lkl α} (h : bookkeeping.Always p Q g) {t : Trace} {a : α}
    (ht : p.Exec t a) : Q a (t.foldl Books.after g) :=
  Env.tracking_always_iff.mp h t a ht fun _ _ => trivial

end Rules

section Books

variable {g : Books} {p : Ptr} {o : Option Ptr} {fd : Int}

@[simp] theorem Books.free_alloc : (g.alloc (some p)).free p = g := by
  simp [alloc, free]

theorem Books.alloc_comm : (g.alloc o).alloc (some p) = (g.alloc (some p)).alloc o := by
  cases o with
  | none => rfl
  | some q => simp [alloc, Multiset.cons_swap]

theorem Books.opened_alloc : (g.alloc o).opened fd = (g.opened fd).alloc o := by
  cases o <;> by_cases h : 0 ≤ fd <;> simp [alloc, opened, h]

theorem Books.closed_alloc : (g.alloc o).closed fd = (g.closed fd).alloc o := by
  cases o <;> by_cases h : 0 ≤ fd <;> simp [alloc, closed, h]

@[simp] theorem Books.closed_opened : (g.opened fd).closed fd = g := by
  by_cases h : 0 ≤ fd <;> simp [opened, closed, h]

theorem Books.opened_of_neg (h : fd < 0) : g.opened fd = g := if_neg (by omega)

theorem freeUnlessNull_books :
    bookkeeping.Always (freeUnlessNull o) (fun _ g' => g' = g) (g.alloc o) := by
  cases o with
  | none => rfl
  | some p =>
    refine bookkeeping_ask.mpr fun _ => ?_
    exact Books.free_alloc

end Books

section RealPath

variable {g : Books} {s : RpState} {start comp rest : Bytes}

theorem realPathUp_books :
    bookkeeping.Always (realPathUp s)
      (fun s' g' => g' = g ∧ s'.rpath = s.rpath ∧ s'.numLinks = s.numLinks) g := by
  unfold realPathUp
  split
  · exact bookkeeping_ask_bind.mpr fun _ => ⟨rfl, rfl, rfl⟩
  · exact ⟨rfl, rfl, rfl⟩

theorem realPathSlash_books :
    bookkeeping.Always (realPathSlash s)
      (fun s' g' => g' = g ∧ s'.rpath = s.rpath ∧ s'.numLinks = s.numLinks) g := by
  unfold realPathSlash
  split
  · exact bookkeeping_ask_bind.mpr fun _ => ⟨rfl, rfl, rfl⟩
  · exact ⟨rfl, rfl, rfl⟩

theorem realPathError_books :
    bookkeeping.Always (realPathError none s) (fun r g' => g' = g.alloc (r.map Prod.fst))
      (g.alloc (some s.rpath)) := by
  refine bookkeeping_ask_bind.mpr fun _ => ?_
  exact Books.free_alloc

theorem realPathDone_books :
    bookkeeping.Always (realPathDone s) (fun r g' => g' = g.alloc (r.map Prod.fst))
      (g.alloc (some s.rpath)) :=
  bookkeeping_ask_bind.mpr fun _ => rfl

theorem realPathGrow_books (len : Nat) :
    bookkeeping.Always (realPathGrow none s len)
      (fun o g' => match o with
        | none => g' = g.alloc (some s.rpath)
        | some s' => g' = g.alloc (some s'.rpath) ∧ s'.numLinks = s.numLinks)
      (g.alloc (some s.rpath)) := by
  unfold realPathGrow
  split
  · refine bookkeeping_ask_bind.mpr fun x => ?_
    cases x with
    | none => rfl
    | some p =>
      have hfree : ((g.alloc (some s.rpath)).free s.rpath).alloc (some p) = g.alloc (some p) := by
        rw [Books.free_alloc]
      exact ⟨hfree, rfl⟩
  · exact ⟨rfl, rfl⟩

/-- What an iteration holds at its end, `m` being the measure before. -/
def RpStep.Booked (g : Books) (m : Nat) (r : RpStep) (g' : Books) : Prop :=
  match r with
  | .break s => g' = g.alloc (some s.rpath)
  | .error s => g' = g.alloc (some s.rpath)
  | .next s start => g' = g.alloc (some s.rpath) ∧ realPathMeasure s start < m

/-- A link may be followed by any text: what it is replaced by is shorter than `path_max`. -/
theorem realPathLink_books {m : Nat} (hm : (40 - s.numLinks) * pathMax ≤ m) :
    bookkeeping.Always (realPathLink s rest) (RpStep.Booked g m) (g.alloc (some s.rpath)) := by
  unfold realPathLink
  by_cases hmany : s.numLinks + 1 > 40
  · rw [if_pos hmany]
    rfl
  rw [if_neg hmany]
  refine bookkeeping_ask_bind.mpr fun x => ?_
  cases x with
  | error rc => rfl
  | ok buf =>
    refine bookkeeping_ask_bind.mpr fun _ => ?_
    by_cases hbig : buf.length + rest.length ≥ pathMax
    · rw [if_pos hbig]
      rfl
    rw [if_neg hbig]
    refine bookkeeping_ask_bind.mpr fun _ => ?_
    have hless : ∀ s' : RpState, s'.numLinks = s.numLinks + 1 →
        realPathMeasure s' (cString (buf ++ rest)) < m :=
      fun s' => realPathMeasure_link hm hmany hbig
    dsimp only
    split
    · exact ⟨rfl, hless _ rfl⟩
    · rw [Env.always_bind]
      refine realPathUp_books.mono ?_
      rintro s' _ ⟨rfl, hrpath, hlinks⟩
      rw [← hrpath]
      exact ⟨rfl, hless s' hlinks⟩

theorem realPathComponent_books {m : Nat}
    (hm : rest.length + (40 - s.numLinks) * pathMax < m) :
    bookkeeping.Always (realPathComponent none s comp rest) (RpStep.Booked g m)
      (g.alloc (some s.rpath)) := by
  unfold realPathComponent
  rw [Env.always_bind]
  refine realPathSlash_books.mono ?_
  rintro s₁ _ ⟨rfl, hrpath, hlinks⟩
  rw [← hrpath, Env.always_bind]
  refine (realPathGrow_books comp.length).mono fun o g₁ ho => ?_
  cases o with
  | none => exact ho
  | some s₂ =>
    obtain ⟨rfl, hlinks'⟩ := ho
    refine bookkeeping_ask_bind.mpr fun _ => bookkeeping_ask_bind.mpr fun x => ?_
    have hn : s₂.numLinks = s.numLinks := hlinks'.trans hlinks
    dsimp only
    split
    · rfl
    · split
      · refine realPathLink_books (s := { s₂ with out := s₂.out ++ comp }) ?_
        dsimp only
        rw [hn]
        omega
      · refine ⟨rfl, ?_⟩
        rw [realPathMeasure, hn]
        exact hm

theorem realPathStep_books :
    bookkeeping.Always (realPathStep none s start) (RpStep.Booked g (realPathMeasure s start))
      (g.alloc (some s.rpath)) := by
  obtain ⟨comp, rest, hcomp, hrest, -, -, -, -, hlen, -⟩ := scan_split start
  unfold realPathStep
  dsimp only
  rw [hcomp, hrest]
  by_cases hnil : comp = []
  · rw [if_pos hnil]
    rfl
  have hless := realPathMeasure_read (s := s) hnil hlen
  rw [if_neg hnil]
  split
  · exact ⟨rfl, hless⟩
  · split
    · rw [Env.always_bind]
      refine realPathUp_books.mono ?_
      rintro s' _ ⟨rfl, hrpath, hlinks⟩
      rw [← hrpath]
      refine ⟨rfl, ?_⟩
      rw [realPathMeasure, hlinks]
      exact hless
    · exact realPathComponent_books hless

theorem realPathLoop_books {fuel : Nat} (hfuel : realPathMeasure s start < fuel) :
    bookkeeping.Always (realPathLoop none fuel s start)
      (fun r g' => g' = g.alloc (r.map Prod.fst)) (g.alloc (some s.rpath)) := by
  induction fuel generalizing s start with
  | zero => omega
  | succ fuel ih =>
    rw [realPathLoop]
    by_cases hstart : start = []
    · rw [if_pos hstart]
      exact realPathDone_books
    rw [if_neg hstart, Env.always_bind]
    refine realPathStep_books.mono fun r g' hr => ?_
    cases r with
    | «break» s =>
      cases hr
      exact realPathDone_books
    | error s =>
      cases hr
      exact realPathError_books
    | next s start =>
      obtain ⟨rfl, hm⟩ := hr
      exact ih (by omega)

/-- Whatever the kernel and the allocator answer, `RealPath` keeps the memory of its result
and no other. -/
theorem realPath_books (name : Option Bytes) :
    bookkeeping.Always (realPath name none) (fun r g' => g' = g.alloc (r.map Prod.fst)) g := by
  unfold realPath
  cases name with
  | none => rfl
  | some name =>
    dsimp only
    by_cases hne : name = []
    · rw [if_pos hne]
      rfl
    rw [if_neg hne]
    refine bookkeeping_ask_bind.mpr fun x => ?_
    cases x with
    | none => rfl
    | some rpath =>
      dsimp only
      split
      · exact realPathError_books (s := ⟨[], rpath, pathMax, pathMax, 0⟩)
      · refine bookkeeping_ask_bind.mpr fun _ => ?_
        exact realPathLoop_books (s := ⟨[slash], rpath, pathMax, pathMax, 0⟩)
          (Nat.lt_succ_self _)

end RealPath

def Books.hold (g : Books) : Option LklIfile → Books
  | some f => (g.opened f.fd).alloc (some f.ptr)
  | none => g

def Books.during (g : Books) (l : OpenLocals) : Books :=
  ((g.alloc l.absFilePath).alloc l.newFileName).alloc l.fileNameAscii

theorem Books.alloc_comm' {g : Books} {o p : Option Ptr} :
    (g.alloc o).alloc p = (g.alloc p).alloc o := by
  cases p with
  | none => rfl
  | some p => exact Books.alloc_comm

theorem Books.opened_during {g : Books} {l : OpenLocals} {fd : Int} :
    (g.during l).opened fd = (g.opened fd).during l := by
  simp only [during, Books.opened_alloc]

theorem Books.closed_during {g : Books} {l : OpenLocals} {fd : Int} :
    (g.during l).closed fd = (g.closed fd).during l := by
  simp only [during, Books.closed_alloc]

theorem Books.alloc_during {g : Books} {l : OpenLocals} {o : Option Ptr} :
    (g.during l).alloc o = (g.alloc o).during l := by
  simp only [during]
  rw [Books.alloc_comm' (p := o), Books.alloc_comm' (p := o), Books.alloc_comm' (p := o)]

section Opening

variable {g : Books} {l : OpenLocals} {status : EfiStatus} {ifile : Option LklIfile}

theorem openFree_books :
    bookkeeping.Always (openDone.openFree l status ifile)
      (fun r g' => r = (status, ifile) ∧ g' = g) (g.during l) := by
  unfold openDone.openFree
  refine bookkeeping_bind freeUnlessNull_books fun _ => ?_
  refine bookkeeping_bind freeUnlessNull_books fun _ => ?_
  refine bookkeeping_bind freeUnlessNull_books fun _ => ?_
  exact ⟨rfl, rfl⟩

/-- What is left when an open call ends: nothing, or a handle and its descriptor. -/
def Books.Opens (g : Books) (r : EfiStatus × Option LklIfile) (g' : Books) : Prop :=
  r.1.isError = true ∧ r.2 = none ∧ g' = g ∨
    r.1 = .success ∧ ∃ f, r.2 = some f ∧ 0 ≤ f.fd ∧ g' = g.hold f

theorem openDone_books (h : status.isError = true) :
    bookkeeping.Always (openDone l status none) g.Opens ((g.opened l.fd).during l) := by
  have hfree : bookkeeping.Always (openDone.openFree l status none) g.Opens (g.during l) :=
    openFree_books.mono fun r g' hr => .inl ⟨by rw [hr.1]; exact h, by rw [hr.1], hr.2⟩
  unfold openDone
  by_cases hfd : l.fd ≥ 0
  · rw [if_pos ⟨h, hfd⟩]
    refine bookkeeping_ask_bind.mpr fun _ => ?_
    have hclosed : ((g.opened l.fd).during l).closed l.fd = g.during l := by
      rw [Books.closed_during, Books.closed_opened]
    exact (congrArg (bookkeeping.Always _ _) hclosed).mpr hfree
  · rw [if_neg fun hfail => hfd hfail.2, Books.opened_of_neg (by omega)]
    exact hfree

theorem openDone_books_success {f : LklIfile} (hl : l.fd = f.fd) (hfd : 0 ≤ f.fd) :
    bookkeeping.Always (openDone l .success (some f)) g.Opens
      (((g.opened l.fd).alloc (some f.ptr)).during l) := by
  have herror : ¬(EfiStatus.success.isError = true ∧ l.fd ≥ 0) := by
    rintro ⟨h, -⟩
    cases h
  unfold openDone
  rw [if_neg herror]
  refine openFree_books.mono ?_
  rintro r g' ⟨rfl, rfl⟩
  exact .inr ⟨rfl, f, rfl, hfd, by rw [Books.hold, hl]⟩

theorem lklAllocateIFile_books (volume : LklVolume) (fd : Int) :
    bookkeeping.Always (lklAllocateIFile volume fd)
      (fun r g' => match r.2 with
        | none => r.1.isError = true ∧ g' = g
        | some f => r.1 = .success ∧ f.fd = fd ∧ g' = g.alloc (some f.ptr)) g := by
  refine bookkeeping_ask_bind.mpr fun x => ?_
  cases x with
  | none => exact ⟨rfl, rfl⟩
  | some ptr =>
    refine bookkeeping_ask_bind.mpr fun x => ?_
    obtain ⟨rc, statBuf⟩ := x
    dsimp only
    by_cases hrc : rc = 0
    · rw [if_neg (not_not.mpr hrc)]
      exact ⟨rfl, rfl, rfl⟩
    · have herror := lklError2EfiError_isError hrc
      rw [if_pos hrc, if_pos herror]
      exact bookkeeping_ask_bind.mpr fun _ => ⟨herror, Books.free_alloc⟩

theorem openFile_books (volume : LklVolume) (hl : l.fd < 0) (path : Bytes) (flags mode : Nat) :
    bookkeeping.Always (openFile volume l path flags mode) g.Opens (g.during l) := by
  have hdone : ∀ status : EfiStatus, status.isError = true →
      bookkeeping.Always (openDone l status none) g.Opens (g.during l) := by
    intro status h
    have := openDone_books (g := g) (l := l) h
    rwa [Books.opened_of_neg hl] at this
  unfold openFile
  split
  · exact hdone _ rfl
  · refine bookkeeping_ask_bind.mpr fun (fd : Int) => ?_
    have hopened : (g.during l).after ⟨.sysOpen path flags mode, fd⟩ = (g.opened fd).during l :=
      Books.opened_during
    rw [hopened]
    by_cases hfd : fd < 0
    · rw [if_pos hfd, Books.opened_of_neg hfd]
      exact hdone _ (lklError2EfiError_isError (by omega))
    · rw [if_neg hfd, Env.always_bind]
      refine (lklAllocateIFile_books volume fd).mono ?_
      rintro ⟨status, ifile⟩ g' hr
      cases ifile with
      | none =>
        obtain ⟨herror, rfl⟩ := hr
        dsimp only at herror ⊢
        rw [if_pos herror]
        exact openDone_books (l := { l with fd }) herror
      | some f =>
        obtain ⟨hstatus, hf, rfl⟩ := hr
        dsimp only at hstatus ⊢
        subst hstatus hf
        rw [if_neg (by decide), Books.alloc_during]
        exact openDone_books_success (l := { l with fd := f.fd })
          (f := { f with filePath := _, linuxOpenFlags := flags }) rfl (by dsimp only; omega)

theorem openCreate_books (volume : LklVolume) (hl : l.fd < 0) (abs base : Bytes)
    (flags mode : Nat) (attributes : UInt64) :
    bookkeeping.Always (openCreate volume l abs base flags mode attributes) g.Opens
      (g.during l) := by
  have hdone : ∀ (l' : OpenLocals) (status : EfiStatus), l'.fd < 0 → status.isError = true →
      bookkeeping.Always (openDone l' status none) g.Opens (g.during l') := by
    intro l' status hl' h
    have := openDone_books (g := g) (l := l') h
    rwa [Books.opened_of_neg hl'] at this
  unfold openCreate
  refine bookkeeping_ask_bind.mpr fun x => ?_
  cases x with
  | none => exact hdone l _ hl rfl
  | some ptr =>
    -- the canonical parent path makes room for the path of the new object
    have hswap : (g.during l).alloc (some ptr) =
        (g.during { l with absFilePath := some ptr }).alloc l.absFilePath := by
      rw [Books.alloc_during, Books.alloc_during]
      simp only [Books.during]
      rw [Books.alloc_comm]
    have hafter : (g.during l).after
        ⟨.allocatePool (abs.length + 1 + base.length + 1), some ptr⟩ = _ := hswap
    rw [hafter]
    refine bookkeeping_bind freeUnlessNull_books fun _ => ?_
    have hl' : ({ l with absFilePath := some ptr } : OpenLocals).fd < 0 := hl
    dsimp only
    split
    · refine bookkeeping_ask_bind.mpr fun (rc : Int) => ?_
      by_cases hrc : rc = 0
      · rw [if_neg (not_not.mpr hrc)]
        exact openFile_books volume hl' _ _ _
      · rw [if_pos hrc]
        exact hdone _ _ hl' (lklError2EfiError_isError hrc)
    · exact openFile_books volume hl' _ _ _

theorem openFlags_error {readOnly : Bool} {openMode attributes : UInt64} {status : EfiStatus}
    (h : openFlags readOnly openMode attributes = .error status) : status.isError = true := by
  unfold openFlags at h
  dsimp only at h
  repeat' split at h
  all_goals
    cases h
    try rfl

/-- A failing open call leaves nothing behind, and the other one a handle. -/
theorem lklOpen_books (parent : LklIfile) (fileName : Option (List UInt16))
    (openMode attributes : UInt64) :
    bookkeeping.Always (lklOpen parent fileName openMode attributes) g.Opens g := by
  have hdone : ∀ (l : OpenLocals) (status : EfiStatus), l.fd = -1 → status.isError = true →
      bookkeeping.Always (openDone l status none) g.Opens (g.during l) := by
    intro l status hl h
    have := openDone_books (g := g) (l := l) h
    rwa [hl, Books.opened_of_neg (by decide)] at this
  unfold lklOpen
  cases fileName with
  | none => exact .inl ⟨rfl, rfl, rfl⟩
  | some fileName =>
  dsimp only
  rcases hflags : openFlags parent.volume.readOnly openMode attributes with status | ⟨flags, mode⟩
  · exact .inl ⟨openFlags_error hflags, rfl, rfl⟩
  dsimp only
  refine bookkeeping_ask_bind.mpr fun ascii => ?_
  cases ascii with
  | none => exact hdone ⟨-1, none, none, none⟩ _ rfl rfl
  | some ascii =>
  refine bookkeeping_ask_bind.mpr fun newFileName => ?_
  cases newFileName with
  | none => exact hdone ⟨-1, some ascii, none, none⟩ _ rfl rfl
  | some newFileName =>
  have hmem : (g.alloc (some ascii)).alloc (some newFileName) =
      g.during ⟨-1, some ascii, some newFileName, none⟩ := Books.alloc_comm
  have habs : ∀ r : Option (Ptr × Bytes),
      (g.during ⟨-1, some ascii, some newFileName, none⟩).alloc (r.map Prod.fst) =
        g.during ⟨-1, some ascii, some newFileName, r.map Prod.fst⟩ := fun r => by
    rw [Books.alloc_during]
    rfl
  have hstart : ∀ m n, (g.after ⟨.allocatePool m, some ascii⟩).after
      ⟨.allocatePool n, some newFileName⟩ = _ := fun _ _ => hmem
  rw [hstart]
  dsimp only
  split
  · split
    · exact hdone _ _ rfl rfl
    · refine bookkeeping_ask_bind.mpr fun _ => ?_
      refine Env.always_bind.mpr ((realPath_books _).mono ?_)
      rintro r _ rfl
      cases r with
      | none => exact hdone ⟨-1, some ascii, some newFileName, none⟩ _ rfl rfl
      | some r =>
        dsimp only
        rw [Books.after_of_unbooked rfl, habs]
        exact openCreate_books _ (Int.negSucc_lt_zero 0) _ _ _ _ _
  · refine Env.always_bind.mpr ((realPath_books _).mono ?_)
    rintro r _ rfl
    cases r with
    | none => exact hdone ⟨-1, some ascii, some newFileName, none⟩ _ rfl rfl
    | some r =>
      rw [habs]
      exact openFile_books _ (Int.negSucc_lt_zero 0) _ _ _

end Opening

end UefiLkl
