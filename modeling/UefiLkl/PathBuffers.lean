import UefiLkl.Resources
set_option autoImplicit false

/-!
`RealPath` and its memory: what it writes and scans lies inside the buffers,
whatever the kernel and the allocator answer.
-/

namespace UefiLkl
open Interaction

/-- The output buffer with its size, as the allocator gave it, the buffers that were freed, the
links that were read, and whether every access so far was inside a buffer. -/
structure PathMemory where
  rpath : Option (Ptr × Nat)
  frees : Nat
  links : Nat
  safe : Bool
  deriving DecidableEq, Repr

/-- A caller that passes `resolved` provides `path_max` bytes. -/
def PathMemory.start (resolved : Option Ptr) : PathMemory :=
  ⟨resolved.map (·, pathMax), 0, 0, true⟩

def PathMemory.inside (g : PathMemory) (off : Int) (len : Nat) : Bool :=
  match g.rpath with
  | some (_, size) => 0 ≤ off ∧ off + len ≤ size
  | none => false

/-- The call stays inside the buffer it is about; a path is passed with its terminator. -/
def PathMemory.legal (g : PathMemory) : Call → Bool
  | .touch .rpath off len _ => g.inside off len
  | .touch .buf off len _ | .touch .extraBuf off len _ => 0 ≤ off ∧ off + len ≤ pathMax
  | .sysLstat path => g.inside 0 (path.length + 1)
  | .sysReadlink path size => g.inside 0 (path.length + 1) && size ≤ pathMax
  | .allocatePool _ => g.rpath.isNone
  | .reallocatePool old _ p => g.rpath = some (p, old)
  | .freePool p => g.rpath.map Prod.fst = some p
  | _ => false

/-- A failed reallocation leaves the old buffer in place. -/
def PathMemory.moved (g : PathMemory) : Event Call Call.Ans → PathMemory
  | ⟨.allocatePool size, some p⟩ => { g with rpath := some (p, size) }
  | ⟨.reallocatePool _ size _, some p⟩ => { g with rpath := some (p, size) }
  | ⟨.freePool _, _⟩ => { g with rpath := none, frees := g.frees + 1 }
  | ⟨.sysReadlink _ _, _⟩ => { g with links := g.links + 1 }
  | _ => g

def PathMemory.after (g : PathMemory) (e : Event Call Call.Ans) : PathMemory :=
  { g.moved e with safe := g.safe && g.legal e.1 }

/-- The target of a link is shorter than `path_max`. -/
def Readable : Event Call Call.Ans → Prop
  | ⟨.sysReadlink _ _, .ok target⟩ => target.length < pathMax
  | _ => True

/-- Any answer is possible that is readable. -/
def pathAccount : Env Call Call.Ans PathMemory := Env.tracking PathMemory.after Readable

/-- The loop of `RealPath` without a bound, with the number of its iterations. -/
inductive RpLoop (resolved : Option Ptr) :
    RpState → Bytes → Nat → Trace → Option (Ptr × Bytes) → Prop where
  | stop {s : RpState} {t : Trace} {r : Option (Ptr × Bytes)} (ht : (realPathDone s).Exec t r) :
      RpLoop resolved s [] 0 t r
  | break {s s' : RpState} {start : Bytes} {t u : Trace} {r : Option (Ptr × Bytes)}
      (hs : start ≠ []) (ht : (realPathStep resolved s start).Exec t (.break s'))
      (hu : (realPathDone s').Exec u r) : RpLoop resolved s start 1 (t ++ u) r
  | error {s s' : RpState} {start : Bytes} {t u : Trace} {r : Option (Ptr × Bytes)}
      (hs : start ≠ []) (ht : (realPathStep resolved s start).Exec t (.error s'))
      (hu : (realPathError resolved s').Exec u r) : RpLoop resolved s start 1 (t ++ u) r
  | next {s s' : RpState} {start start' : Bytes} {n : Nat} {t u : Trace}
      {r : Option (Ptr × Bytes)} (hs : start ≠ [])
      (ht : (realPathStep resolved s start).Exec t (.next s' start'))
      (hu : RpLoop resolved s' start' n u r) : RpLoop resolved s start (n + 1) (t ++ u) r

def PathMemory.Settled (g : PathMemory) (resolved : Option Ptr) :
    Option (Ptr × Bytes) → Prop
  | some (p, out) => g.frees = 0 ∧ (∃ size, g.rpath = some (p, size) ∧ out.length < size) ∧
      ∀ q, resolved = some q → p = q
  | none => match resolved with
    | some p => g.frees = 0 ∧ g.rpath = some (p, pathMax)
    | none => g.frees = 1 ∧ g.rpath = none

/-- The output buffer is the one in use, nothing was freed and no access was outside. -/
structure PathMemory.Holds (g : PathMemory) (resolved : Option Ptr) (s : RpState) : Prop where
  rpath : g.rpath = some (s.rpath, s.size)
  frees : g.frees = 0
  safe : g.safe = true
  links : g.links ≤ 40
  given : ∀ p, resolved = some p → s.rpath = p ∧ s.size = pathMax

/-- `dest` has not passed the end of the buffer, and a separator stands at its beginning. -/
structure PathMemory.Fits (g : PathMemory) (resolved : Option Ptr) (s : RpState) : Prop
    extends PathMemory.Holds g resolved s where
  absolute : s.out.head? = some slash
  room : s.out.length ≤ s.size
  allocSize : resolved = none → s.allocSize = s.size
  counted : g.links = s.numLinks

section Rules

variable {α : Type} {Q : α → PathMemory → Prop} {g : PathMemory}

theorem pathAccount_ask_bind {c : Call} {f : c.Ans → Lkl α} :
    pathAccount.Always (Prog.ask c >>= f) Q g ↔
      ∀ x, Readable ⟨c, x⟩ → pathAccount.Always (f x) Q (g.after ⟨c, x⟩) :=
  Env.tracking_ask_bind

theorem PathMemory.after_of_legal {e : Event Call Call.Ans} (hs : g.safe = true)
    (hl : g.legal e.1 = true) (hm : g.moved e = g) : g.after e = g := by
  rw [after, hm, hs, hl, Bool.and_self, ← hs]

theorem pathAccount_touch {b : Buffer} {off : Int} {len size : Nat} {f : Unit → Lkl α}
    (hs : g.safe = true) (hl : g.legal (.touch b off len size) = true)
    (hf : pathAccount.Always (f ()) Q g) :
    pathAccount.Always (touch b off len size >>= f) Q g := by
  refine pathAccount_ask_bind.mpr fun x _ => ?_
  rw [PathMemory.after_of_legal hs hl rfl]
  exact hf

end Rules

section Loop

variable {resolved : Option Ptr} {g : PathMemory} {s : RpState} {start comp rest : Bytes}

theorem PathMemory.Holds.inside {off : Int} {len : Nat} (h : g.Holds resolved s) (h0 : 0 ≤ off)
    (hl : off + len ≤ s.size) : g.inside off len = true := by
  simp [PathMemory.inside, h.rpath, h0, hl]

/-- The scan for a separator stops at the first byte of the buffer at the latest. -/
theorem backUp_spec {out : Bytes} (h : out.head? = some slash) (hl : 1 < out.length) :
    (backUp out).head? = some slash ∧ 0 < (backUp out).length ∧
      (backUp out).length < out.length := by
  have hpre : backUp out <+: out.dropLast := List.rdropWhile_prefix _ _
  have hhead : out.dropLast.head? = some slash := by
    rw [← h]
    cases out with
    | nil => rfl
    | cons x tail =>
      have hne : tail ≠ [] := List.ne_nil_of_length_pos (by simpa using hl)
      rw [List.dropLast_cons_of_ne_nil hne]
      rfl
  have hne : backUp out ≠ [] := by
    intro hnil
    have hall := List.rdropWhile_eq_nil_iff.mp hnil slash (List.mem_of_mem_head? hhead)
    simp at hall
  have hlen := hpre.length_le
  rw [List.length_dropLast] at hlen
  have hpos := List.length_pos_iff.mpr hne
  obtain ⟨t, ht⟩ := hpre
  rw [← ht, List.head?_append_of_ne_nil _ hne] at hhead
  exact ⟨hhead, hpos, by omega⟩

theorem PathMemory.Fits.withOut {out : Bytes} (h : g.Fits resolved s)
    (ho : out.head? = some slash) (hl : out.length ≤ s.size) :
    g.Fits resolved { s with out := out } where
  rpath := h.rpath
  frees := h.frees
  safe := h.safe
  links := h.links
  given := h.given
  absolute := ho
  room := hl
  allocSize := h.allocSize
  counted := h.counted

theorem realPathUp_fits (h : g.Fits resolved s) (hroom : s.out.length < s.size) :
    pathAccount.Always (realPathUp s) (fun s' g' => g' = g ∧ g.Fits resolved s' ∧
      s'.out.length < s'.size ∧ s'.numLinks = s.numLinks) g := by
  unfold realPathUp
  by_cases hl : s.out.length > 1
  · rw [if_pos hl]
    obtain ⟨hhead, hpos, hlt⟩ := backUp_spec h.absolute hl
    apply pathAccount_touch h.safe
    · exact h.inside (by omega) (by omega)
    exact ⟨rfl, h.withOut hhead (by omega), by dsimp only; omega, rfl⟩
  · rw [if_neg hl]
    exact ⟨rfl, h, hroom, rfl⟩

/-- The separator may take the last byte of the buffer. -/
theorem realPathSlash_fits (h : g.Fits resolved s) (hroom : s.out.length < s.size) :
    pathAccount.Always (realPathSlash s) (fun s' g' => g' = g ∧ g.Fits resolved s' ∧
      s'.numLinks = s.numLinks) g := by
  unfold realPathSlash
  by_cases hl : s.out.getLast? ≠ some slash
  · rw [if_pos hl]
    apply pathAccount_touch h.safe
    · exact h.inside (by omega) (by omega)
    refine ⟨rfl, h.withOut ?_ ?_, rfl⟩
    · rw [List.head?_append, h.absolute]
      rfl
    · rw [List.length_append]
      exact hroom
  · rw [if_neg hl]
    exact ⟨rfl, h, rfl⟩

theorem realPathGrow_fits (h : g.Fits resolved s) (len : Nat) :
    pathAccount.Always (realPathGrow resolved s len)
      (fun o g' => match o with
        | none => g'.Holds resolved s
        | some s' => g'.Fits resolved s' ∧ s'.out.length + len < s'.size ∧
          s'.numLinks = s.numLinks) g := by
  unfold realPathGrow
  by_cases hl : s.out.length + len ≥ s.size
  swap
  · rw [if_neg hl]
    exact ⟨h, by omega, rfl⟩
  rw [if_pos hl]
  have hroom := h.room
  cases resolved with
  | some p =>
    rw [if_pos (by simp)]
    have hsize : s.size = 4096 := (h.given p rfl).2
    apply pathAccount_touch h.safe
    · apply h.inside
      · omega
      · split <;> omega
    exact h.toHolds
  | none =>
    rw [if_neg (by simp)]
    have hlegal : ∀ size, g.legal (.reallocatePool s.allocSize size s.rpath) = true := by
      intro size
      simp [PathMemory.legal, h.rpath, h.allocSize rfl]
    refine pathAccount_ask_bind.mpr fun x _ => ?_
    cases x with
    | none =>
      rw [PathMemory.after_of_legal h.safe (hlegal _) rfl]
      exact h.toHolds
    | some p =>
      dsimp only
      have hgrown : s.out.length + len <
          s.size + if len + 1 > pathMax then len + 1 else pathMax := by
        split <;> omega
      refine ⟨⟨⟨rfl, h.frees, ?_, h.links, by simp⟩, h.absolute, ?_, fun _ => rfl, h.counted⟩,
        hgrown, rfl⟩
      · simp [PathMemory.after, h.safe, hlegal]
      · dsimp only
        omega

/-- What holds after an iteration, `m` being the measure before. -/
def RpStep.Kept (resolved : Option Ptr) (m : Nat) (r : RpStep) (g : PathMemory) : Prop :=
  match r with
  | .break s => g.Fits resolved s ∧ s.out.length < s.size
  | .error s => g.Holds resolved s
  | .next s start => g.Fits resolved s ∧ s.out.length < s.size ∧ realPathMeasure s start < m

/-- At most forty links are read, and a link is expanded to less than `path_max` bytes. -/
theorem realPathLink_fits {m : Nat} (h : g.Fits resolved s) (hroom : s.out.length < s.size)
    (hm : (40 - s.numLinks) * pathMax ≤ m) :
    pathAccount.Always (realPathLink s rest) (RpStep.Kept resolved m) g := by
  unfold realPathLink
  by_cases hmany : s.numLinks + 1 > 40
  · rw [if_pos hmany]
    exact h.toHolds
  rw [if_neg hmany]
  have hcounted := h.counted
  have hpath : g.inside 0 (s.out.length + 1) = true := h.inside le_rfl (by omega)
  have hlegal : g.legal (.sysReadlink s.out (pathMax - 1)) = true := by
    simp [PathMemory.legal, hpath]
  refine pathAccount_ask_bind.mpr fun x hx => ?_
  have hlinks : (g.after ⟨.sysReadlink s.out (pathMax - 1), x⟩).links = s.numLinks + 1 :=
    congrArg (· + 1) h.counted
  have hholds : (g.after ⟨.sysReadlink s.out (pathMax - 1), x⟩).Holds resolved s := by
    refine ⟨h.rpath, h.frees, ?_, by omega, h.given⟩
    simp [PathMemory.after, h.safe, hlegal]
  cases x with
  | error rc => exact hholds
  | ok buf =>
    have hbuf : buf.length < pathMax := hx
    apply pathAccount_touch hholds.safe
    · simp [PathMemory.legal]
      omega
    by_cases hbig : buf.length + rest.length ≥ pathMax
    · rw [if_pos hbig]
      exact hholds
    rw [if_neg hbig]
    have hfits : (g.after ⟨.sysReadlink s.out (pathMax - 1), .ok buf⟩).Fits resolved
        { s with numLinks := s.numLinks + 1 } :=
      ⟨⟨h.rpath, h.frees, hholds.safe, hholds.links, h.given⟩, h.absolute, h.room, h.allocSize,
        hlinks⟩
    apply pathAccount_touch hholds.safe
    · simp [PathMemory.legal]
      omega
    have hless : ∀ s' : RpState, s'.numLinks = s.numLinks + 1 →
        realPathMeasure s' (cString (buf ++ rest)) < m :=
      fun s' => realPathMeasure_link hm hmany hbig
    dsimp only
    split
    · have hpos : 0 < s.out.length := List.length_pos_iff.mpr fun hnil => by
        simpa [hnil] using h.absolute
      refine ⟨hfits.withOut ?_ ?_, ?_, hless _ rfl⟩
      · rw [List.head?_take, if_neg one_ne_zero, h.absolute]
      · simp only [List.length_take]
        omega
      · simp only [List.length_take]
        omega
    · rw [Env.always_bind]
      refine (realPathUp_fits hfits hroom).mono ?_
      rintro s' _ ⟨rfl, hfits', hroom', hlinks'⟩
      exact ⟨hfits', hroom', hless s' hlinks'⟩

theorem realPathComponent_fits {m : Nat} (h : g.Fits resolved s) (hroom : s.out.length < s.size)
    (hm : rest.length + (40 - s.numLinks) * pathMax < m) :
    pathAccount.Always (realPathComponent resolved s comp rest) (RpStep.Kept resolved m) g := by
  unfold realPathComponent
  rw [Env.always_bind]
  refine (realPathSlash_fits h hroom).mono ?_
  rintro s₁ _ ⟨rfl, hfits, hlinks⟩
  rw [Env.always_bind]
  refine (realPathGrow_fits hfits comp.length).mono fun o g₁ ho => ?_
  cases o with
  | none => exact ho
  | some s₂ =>
    obtain ⟨hfits', hlen, hlinks'⟩ := ho
    apply pathAccount_touch hfits'.safe
    · exact hfits'.inside (by omega) (by push_cast; omega)
    have hcomp : (s₂.out ++ comp).length < s₂.size := by rwa [List.length_append]
    have hout : g₁.Fits resolved { s₂ with out := s₂.out ++ comp } := by
      apply hfits'.withOut _ hcomp.le
      rw [List.head?_append, hfits'.absolute]
      rfl
    have hlegal : g₁.legal (.sysLstat (s₂.out ++ comp)) = true :=
      hout.inside le_rfl (by dsimp only; omega)
    refine pathAccount_ask_bind.mpr fun x _ => ?_
    rw [PathMemory.after_of_legal hfits'.safe hlegal rfl]
    have hn : s₂.numLinks = s.numLinks := hlinks'.trans hlinks
    dsimp only
    split
    · exact hout.toHolds
    · split
      · apply realPathLink_fits hout hcomp
        dsimp only
        rw [hn]
        omega
      · refine ⟨hout, hcomp, ?_⟩
        rw [realPathMeasure, hn]
        exact hm

theorem realPathStep_fits (h : g.Fits resolved s) (hroom : s.out.length < s.size) :
    pathAccount.Always (realPathStep resolved s start)
      (RpStep.Kept resolved (realPathMeasure s start)) g := by
  obtain ⟨comp, rest, hcomp, hrest, -, -, -, -, hlen, -⟩ := scan_split start
  unfold realPathStep
  dsimp only
  rw [hcomp, hrest]
  by_cases hnil : comp = []
  · rw [if_pos hnil]
    exact ⟨h, hroom⟩
  have hless := realPathMeasure_read (s := s) hnil hlen
  rw [if_neg hnil]
  split
  · exact ⟨h, hroom, hless⟩
  · split
    · rw [Env.always_bind]
      refine (realPathUp_fits h hroom).mono ?_
      rintro s' _ ⟨rfl, hfits, hroom', hlinks⟩
      refine ⟨hfits, hroom', ?_⟩
      rw [realPathMeasure, hlinks]
      exact hless
    · exact realPathComponent_fits h hroom hless

theorem realPathDone_fits (h : g.Fits resolved s) (hroom : s.out.length < s.size) :
    pathAccount.Always (realPathDone s) (fun r g' => g'.safe = true ∧ g'.links ≤ 40 ∧
      g'.Settled resolved r) g := by
  unfold realPathDone
  have hlen : (if s.out.length > 1 ∧ s.out.getLast? = some slash then s.out.dropLast
      else s.out).length < s.size := by
    split
    · rw [List.length_dropLast]
      omega
    · exact hroom
  apply pathAccount_touch h.safe
  · exact h.inside (by omega) (by push_cast; omega)
  exact ⟨h.safe, h.links, h.frees, ⟨s.size, h.rpath, hlen⟩, fun q hq => (h.given q hq).1⟩

theorem realPathError_fits (h : g.Holds resolved s) :
    pathAccount.Always (realPathError resolved s) (fun r g' => g'.safe = true ∧ g'.links ≤ 40 ∧
      g'.Settled resolved r) g := by
  unfold realPathError
  cases resolved with
  | some p =>
    rw [if_neg (by simp)]
    obtain ⟨hp, hsize⟩ := h.given p rfl
    exact ⟨h.safe, h.links, h.frees, by rw [h.rpath, hp, hsize]⟩
  | none =>
    rw [if_pos rfl]
    refine pathAccount_ask_bind.mpr fun x _ => ⟨?_, h.links, ?_, rfl⟩
    · simp [PathMemory.after, PathMemory.legal, h.safe, h.rpath]
    · show g.frees + 1 = 1
      rw [h.frees]

/-- The bound of the loop is never reached: the measure goes down with every iteration. -/
theorem realPathLoop_fits {fuel : Nat} {t : Trace} {r : Option (Ptr × Bytes)}
    (hfuel : realPathMeasure s start < fuel) (h : g.Fits resolved s)
    (hroom : s.out.length < s.size) (ht : (realPathLoop resolved fuel s start).Exec t r)
    (hread : ∀ e ∈ t, Readable e) :
    (∃ n ≤ realPathMeasure s start, RpLoop resolved s start n t r) ∧
      (t.foldl PathMemory.after g).safe = true ∧ (t.foldl PathMemory.after g).links ≤ 40 ∧
      (t.foldl PathMemory.after g).Settled resolved r := by
  induction fuel generalizing g s start t with
  | zero => omega
  | succ fuel ih =>
    rw [realPathLoop] at ht
    by_cases hstart : start = []
    · rw [if_pos hstart] at ht
      refine ⟨⟨0, Nat.zero_le _, hstart ▸ .stop ht⟩, ?_⟩
      exact Env.tracking_always_iff.mp (realPathDone_fits h hroom) t r ht hread
    rw [if_neg hstart, Prog.exec_bind_iff] at ht
    obtain ⟨u, v, step, rfl, hu, hv⟩ := ht
    have hpos : 1 ≤ realPathMeasure s start := by
      have := List.length_pos_iff.mpr hstart
      rw [realPathMeasure]
      omega
    obtain ⟨hreadu, hreadv⟩ := List.forall_mem_append.mp hread
    have hstep := Env.tracking_always_iff.mp (realPathStep_fits h hroom) u step hu hreadu
    rw [List.foldl_append]
    cases step with
    | «break» s' =>
      refine ⟨⟨1, hpos, .break hstart hu hv⟩, ?_⟩
      exact Env.tracking_always_iff.mp (realPathDone_fits hstep.1 hstep.2) v r hv hreadv
    | error s' =>
      refine ⟨⟨1, hpos, .error hstart hu hv⟩, ?_⟩
      exact Env.tracking_always_iff.mp (realPathError_fits hstep) v r hv hreadv
    | next s' start' =>
      obtain ⟨hfits, hroom', hless⟩ := hstep
      obtain ⟨⟨n, hn, hloop⟩, hrest⟩ := ih (by omega) hfits hroom' hv hreadv
      exact ⟨⟨n + 1, by omega, .next hstart hu hloop⟩, hrest⟩

end Loop

/-- How `RealPath` ran on an absolute name: every access was inside its buffer, at most forty
links were read, the loop ended by itself, and the output buffer was dealt with; or there was
no output buffer. -/
structure Contained (name : Bytes) (resolved : Option Ptr) (t : Trace)
    (r : Option (Ptr × Bytes)) : Prop where
  safe : (t.foldl PathMemory.after (PathMemory.start resolved)).safe = true
  links : (t.foldl PathMemory.after (PathMemory.start resolved)).links ≤ 40
  ends : (resolved = none ∧ t = [⟨.allocatePool pathMax, none⟩] ∧ r = none) ∨
    (t.foldl PathMemory.after (PathMemory.start resolved)).Settled resolved r ∧
      ∃ rpath u v n, t = u ++ v ∧ n ≤ name.length + 40 * pathMax ∧
        RpLoop resolved ⟨[slash], rpath, pathMax, pathMax, 0⟩ name n v r

theorem realPathFrom_contained {name : Bytes} {resolved : Option Ptr} {rpath : Ptr}
    {u v : Trace} {r : Option (Ptr × Bytes)}
    (hu : u.foldl PathMemory.after (PathMemory.start resolved) =
      ⟨some (rpath, pathMax), 0, 0, true⟩)
    (hp : ∀ p, resolved = some p → rpath = p)
    (ht : (touch .rpath 0 1 pathMax >>= fun _ => realPathLoop resolved (realPathFuel 0 name)
      ⟨[slash], rpath, pathMax, pathMax, 0⟩ name).Exec v r)
    (hread : ∀ e ∈ v, Readable e) : Contained name resolved (u ++ v) r := by
  obtain ⟨x, w, rfl, hw⟩ := Prog.exec_ask_bind_iff.mp ht
  have hfits : PathMemory.Fits ⟨some (rpath, pathMax), 0, 0, true⟩ resolved
      ⟨[slash], rpath, pathMax, pathMax, 0⟩ :=
    ⟨⟨rfl, rfl, rfl, by simp, fun p h => ⟨hp p h, rfl⟩⟩, rfl, by simp [pathMax], fun _ => rfl, rfl⟩
  have hreadw := (List.forall_mem_cons.mp hread).2
  obtain ⟨⟨n, hn, hloop⟩, hsafe, hlinks, hsettled⟩ :=
    realPathLoop_fits (Nat.lt_succ_self _) hfits (by simp [pathMax]) hw hreadw
  have hfold : (u ++ ⟨.touch .rpath 0 1 pathMax, x⟩ :: w).foldl PathMemory.after
      (PathMemory.start resolved) =
        w.foldl PathMemory.after ⟨some (rpath, pathMax), 0, 0, true⟩ := by
    rw [List.foldl_append, hu]
    rfl
  refine ⟨hfold ▸ hsafe, hfold ▸ hlinks, .inr ⟨hfold ▸ hsettled, rpath, u ++ [⟨_, x⟩], w, n, ?_⟩⟩
  exact ⟨by simp, hn, hloop⟩

theorem realPath_exec_contained {name : Bytes} {resolved : Option Ptr} {t : Trace}
    {r : Option (Ptr × Bytes)} (habs : name.head? = some slash)
    (ht : (realPath (some name) resolved).Exec t r) (hread : ∀ e ∈ t, Readable e) :
    Contained name resolved t r := by
  have hne : name ≠ [] := by
    rintro rfl
    cases habs
  unfold realPath at ht
  dsimp only at ht
  rw [if_neg hne] at ht
  cases resolved with
  | some p =>
    simp only [Prog.pure_eq, Prog.ret_bind] at ht
    rw [if_neg (not_not.mpr habs)] at ht
    exact realPathFrom_contained (u := []) rfl (fun q hq => Option.some.inj hq) ht hread
  | none =>
    obtain ⟨x, u, rfl, hu⟩ := Prog.exec_ask_bind_iff.mp ht
    cases x with
    | none =>
      obtain ⟨rfl, rfl⟩ := Prog.exec_ret_iff.mp hu
      exact ⟨rfl, by decide, .inl ⟨rfl, rfl, rfl⟩⟩
    | some rpath =>
      dsimp only at hu
      rw [if_neg (not_not.mpr habs)] at hu
      exact realPathFrom_contained (u := [_]) rfl (by simp) hu (List.forall_mem_cons.mp hread).2

/-- Whatever the kernel and the allocator answer, only that no link is as long as `path_max`,
`RealPath` comes to an end on every absolute name and stays inside its buffers. -/
theorem realPath_contained {G : Type} (h : Handler Call Call.Ans G) (g : G) (name : Bytes)
    (resolved : Option Ptr) (habs : name.head? = some slash)
    (hread : ∀ path size g target, (h (.sysReadlink path size) g).1 = .ok target →
      target.length < pathMax) :
    Contained name resolved ((realPath (some name) resolved).trace h g)
      ((realPath (some name) resolved).run h g).1 := by
  apply realPath_exec_contained habs (Prog.exec_trace h _ g)
  have hanswers : ∀ (p : Lkl (Option (Ptr × Bytes))) g, ∀ e ∈ p.trace h g, Readable e := by
    intro p
    induction p with
    | ret a => simp [Prog.trace]
    | call c k ih =>
      intro g e he
      rcases List.mem_cons.mp he with rfl | he
      · cases c with
        | sysReadlink path size =>
          cases hx : (h (.sysReadlink path size) g).1 with
          | error rc => trivial
          | ok target => simpa [hx, Readable] using hread path size g target hx
        | _ => trivial
      · exact ih _ _ e he
  exact hanswers _ g

def circling : Handler Call Call.Ans Linux
  | .sysLstat _, k => ((0, ⟨S_IFLNK, 0, 0, 0, 0⟩), k)
  | .sysReadlink _ _, k => (.ok (ascii ['a']), k)
  | c, k => Linux.handle c k

theorem realPath_contained_circling :
    ((realPath (some (ascii ['/', 'a'])) none).trace circling Linux.boot).countP
        (fun e => e.1 = .sysReadlink (ascii ['/', 'a']) (pathMax - 1)) = 40 ∧
      Contained (ascii ['/', 'a']) none
        ((realPath (some (ascii ['/', 'a'])) none).trace circling Linux.boot) none :=
  ⟨by decide +kernel, realPath_contained circling Linux.boot (ascii ['/', 'a']) none rfl
    fun _ _ _ _ h => by cases h; decide⟩

end UefiLkl
