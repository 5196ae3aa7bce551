import Mathlib.Data.List.Basic
import Mathlib.Data.List.Infix
set_option autoImplicit false

/-!
Walking a path through a tree of directories, files and symbolic links, one
component at a time, with a bound on the number of links expanded.
-/

namespace UefiLkl.PathWalk

/-- How a component is read: stay, go to the parent, or descend. -/
inductive Kind where
  | here | up | name
  deriving DecidableEq, Repr

class PathName (α : Type) where
  kind : α → Kind

inductive Entry (α : Type) where
  | dir
  | file
  | link (absolute : Bool) (target : List α)
  deriving DecidableEq, Repr

def Entry.isLink {α : Type} : Entry α → Bool
  | .link _ _ => true
  | _ => false

/-- Objects by canonical path. The root is a directory, and so is everything
that has something below it. -/
structure PathTree (α : Type) where
  entry : List α → Option (Entry α)
  root : entry [] = some .dir
  parent : ∀ (p : List α) (a : α), entry (p ++ [a]) ≠ none → entry p = some .dir

/-- Bounds on what a walker may look up and on the links it may expand. -/
structure Limits (α : Type) where
  lookup : List α → Bool
  expand : List α → List α → Bool

def Limits.unlimited {α : Type} : Limits α := ⟨fun _ => true, fun _ _ => true⟩

inductive Failure where
  | noEntry | notDir | loop | tooLong
  deriving DecidableEq, Repr

inductive Outcome (α : Type) where
  | found (p : List α)
  | missing (dir : List α) (a : α)
  | fail (e : Failure)
  deriving DecidableEq, Repr

def Outcome.path {α : Type} : Outcome α → Option (List α)
  | .found p => some p
  | _ => none

/-- A strict walk insists that every component is looked up in a directory; a
walk that does not follow leaves a link alone when it is the last component. -/
structure Mode where
  strict : Bool
  follow : Bool

def PathTree.isDir {α : Type} (T : PathTree α) (p : List α) : Bool :=
  match T.entry p with
  | some .dir => true
  | _ => false

variable {α : Type} [PathName α]

/-- The walk up to the next link; `expand` goes on behind it. -/
def walkFrom (T : PathTree α) (m : Mode) (l : Limits α) (expand : List α → List α → Outcome α) :
    List α → List α → Outcome α
  | cur, [] => .found cur
  | cur, c :: r =>
    if m.strict && !T.isDir cur then .fail .notDir
    else match PathName.kind c with
    | .here => walkFrom T m l expand cur r
    | .up => walkFrom T m l expand cur.dropLast r
    | .name =>
      if !l.lookup (cur ++ [c]) then .fail .tooLong
      else match T.entry (cur ++ [c]) with
      | none => if r.isEmpty then .missing cur c else .fail .noEntry
      | some (.link absolute target) =>
        if !m.follow && r.isEmpty then .found (cur ++ [c])
        else if !l.expand target r then .fail .tooLong
        else expand (if absolute then [] else cur) (target ++ r)
      | some _ => walkFrom T m l expand (cur ++ [c]) r

/-- At most `n` links are expanded. -/
def walk (T : PathTree α) (m : Mode) (l : Limits α) : Nat → List α → List α → Outcome α
  | 0 => walkFrom T m l fun _ _ => .fail .loop
  | n+1 => walkFrom T m l (walk T m l n)

/-- What a walk with `n` expansions left does with the text of a link. -/
def expandWith (T : PathTree α) (m : Mode) (l : Limits α) : Nat → List α → List α → Outcome α
  | 0 => fun _ _ => .fail .loop
  | n+1 => walk T m l n

section Equations

variable {T : PathTree α} {m : Mode} {l : Limits α} {n : Nat} {cur r : List α} {c : α}

theorem walk_eq : walk T m l n = walkFrom T m l (expandWith T m l n) := by
  cases n <;> rfl

@[simp] theorem walk_nil : walk T m l n cur [] = .found cur := by
  rw [walk_eq, walkFrom]

theorem walk_notDir (hs : m.strict = true) (hd : T.isDir cur = false) :
    walk T m l n cur (c :: r) = .fail .notDir := by
  rw [walk_eq, walkFrom]
  simp [hs, hd]

theorem walk_here (hd : m.strict = true → T.isDir cur = true) (hc : PathName.kind c = .here) :
    walk T m l n cur (c :: r) = walk T m l n cur r := by
  rw [walk_eq, walkFrom]
  cases hs : m.strict <;> simp_all

theorem walk_up (hd : m.strict = true → T.isDir cur = true) (hc : PathName.kind c = .up) :
    walk T m l n cur (c :: r) = walk T m l n cur.dropLast r := by
  rw [walk_eq, walkFrom]
  cases hs : m.strict <;> simp_all

theorem walk_name (hd : m.strict = true → T.isDir cur = true) (hc : PathName.kind c = .name) :
    walk T m l n cur (c :: r) =
      if !l.lookup (cur ++ [c]) then .fail .tooLong
      else match T.entry (cur ++ [c]) with
      | none => if r.isEmpty then .missing cur c else .fail .noEntry
      | some (.link absolute target) =>
        if !m.follow && r.isEmpty then .found (cur ++ [c])
        else if !l.expand target r then .fail .tooLong
        else expandWith T m l n (if absolute then [] else cur) (target ++ r)
      | some _ => walk T m l n (cur ++ [c]) r := by
  rw [walk_eq, walkFrom]
  cases hs : m.strict <;> simp_all

end Equations

omit [PathName α] in
/-- Induction along a walk: a component is consumed, or a link is expanded with
one expansion less. -/
@[elab_as_elim]
theorem walk_induct {P : Nat → List α → List α → Prop}
    (nil : ∀ n cur, P n cur [])
    (cons : ∀ n cur c r, (∀ cur', P n cur' r) →
      (∀ k, n = k+1 → ∀ cur' comps, P k cur' comps) → P n cur (c :: r))
    (n : Nat) (cur comps : List α) : P n cur comps := by
  induction n generalizing cur comps with
  | zero =>
    induction comps generalizing cur with
    | nil => exact nil 0 cur
    | cons c r ih => exact cons 0 cur c r ih (by omega)
  | succ n ihn =>
    induction comps generalizing cur with
    | nil => exact nil _ cur
    | cons c r ih =>
      refine cons _ cur c r ih fun k hk => ?_
      obtain rfl : n = k := by omega
      exact ihn

/-- A path of plain names to an object that is no link. -/
structure PathTree.Canonical (T : PathTree α) (p : List α) : Prop where
  names : ∀ a ∈ p, PathName.kind a = .name
  object : ∃ e, T.entry p = some e ∧ e.isLink = false

omit [PathName α] in
theorem PathTree.isDir_iff (T : PathTree α) (p : List α) :
    T.isDir p = true ↔ T.entry p = some .dir := by
  unfold isDir
  split <;> simp_all

omit [PathName α] in
theorem PathTree.dir_of_below (T : PathTree α) {p s : List α} (hs : s ≠ [])
    (h : T.entry (p ++ s) ≠ none) : T.entry p = some .dir := by
  induction s using List.reverseRecOn with
  | nil => contradiction
  | append_singleton s a ih =>
    rw [← List.append_assoc] at h
    have hps := T.parent _ _ h
    by_cases hs' : s = []
    · simpa [hs'] using hps
    · exact ih hs' (by simp [hps])

theorem PathTree.canonical_root (T : PathTree α) : T.Canonical [] :=
  ⟨by simp, .dir, T.root, rfl⟩

theorem PathTree.canonical_of_dir {T : PathTree α} {p : List α} (hp : T.entry p = some .dir)
    (hn : ∀ a ∈ p, PathName.kind a = .name) : T.Canonical p :=
  ⟨hn, .dir, hp, rfl⟩

theorem PathTree.Canonical.dropLast {T : PathTree α} {p : List α} (h : T.Canonical p) :
    T.Canonical p.dropLast := by
  rcases List.eq_nil_or_concat' p with rfl | ⟨q, a, rfl⟩
  · exact h
  · obtain ⟨e, he, _⟩ := h.object
    rw [List.dropLast_concat]
    exact canonical_of_dir (T.parent q a (by simp [he]))
      fun b hb => h.names b (List.mem_append_left _ hb)

theorem PathTree.Canonical.snoc {T : PathTree α} {p : List α} {a : α} {e : Entry α}
    (h : T.Canonical p)
    (ha : PathName.kind a = .name) (he : T.entry (p ++ [a]) = some e) (hl : e.isLink = false) :
    T.Canonical (p ++ [a]) := by
  refine ⟨fun b hb => ?_, e, he, hl⟩
  rcases List.mem_append.mp hb with hb | hb
  · exact h.names b hb
  · rw [List.mem_singleton.mp hb]
    exact ha

/-- What a following walk may end in: a canonical path, or a place for a new name. -/
def Outcome.Sound (T : PathTree α) (m : Mode) : Outcome α → Prop
  | .found q => T.Canonical q
  | .missing d a => T.Canonical d ∧ PathName.kind a = .name ∧ T.entry (d ++ [a]) = none ∧
      (m.strict = true → T.entry d = some .dir)
  | .fail _ => True

theorem walk_sound {T : PathTree α} {m : Mode} {l : Limits α} (hf : m.follow = true)
    (n : Nat) (cur comps : List α) (hc : T.Canonical cur) :
    (walk T m l n cur comps).Sound T m := by
  induction n, cur, comps using walk_induct with
  | nil n cur => simpa [Outcome.Sound] using hc
  | cons n cur c r ih ihk =>
    by_cases hd : m.strict = true → T.isDir cur = true
    swap
    · simp only [Classical.not_imp, Bool.not_eq_true] at hd
      simp [walk_notDir hd.1 hd.2, Outcome.Sound]
    cases hk : PathName.kind c with
    | here =>
      rw [walk_here hd hk]
      exact ih cur hc
    | up =>
      rw [walk_up hd hk]
      exact ih _ hc.dropLast
    | name =>
      rw [walk_name hd hk]
      split
      · trivial
      split
      · split
        · exact ⟨hc, hk, ‹_›, fun hs => (T.isDir_iff cur).mp (hd hs)⟩
        · trivial
      · rename_i absolute target he
        simp only [hf, Bool.not_true, Bool.false_and, Bool.false_eq_true, if_false]
        split
        · trivial
        cases n with
        | zero => trivial
        | succ k =>
          refine ihk k rfl _ _ ?_
          cases absolute
          · exact hc
          · exact T.canonical_root
      · rename_i e hne he
        refine ih _ (hc.snoc hk he ?_)
        cases e with
        | link absolute target => exact absurd rfl (hne absolute target)
        | dir => rfl
        | file => rfl

theorem walk_descend {T : PathTree α} {m : Mode} {l : Limits α} {n : Nat} {r : List α}
    (s p : List α) (hn : ∀ a ∈ s, PathName.kind a = .name)
    (hd : T.entry (p ++ s) = some .dir) (hl : ∀ t, t <+: s → t ≠ [] → l.lookup (p ++ t) = true) :
    walk T m l n p (s ++ r) = walk T m l n (p ++ s) r := by
  induction s generalizing p with
  | nil => simp
  | cons a s ih =>
    have happ : p ++ a :: s = (p ++ [a]) ++ s := by simp
    have hpa : T.entry (p ++ [a]) = some .dir := by
      by_cases hs : s = []
      · simpa [hs] using hd
      · exact T.dir_of_below hs (by rw [← happ, hd]; simp)
    have hp : T.entry p = some .dir := T.parent p a (by simp [hpa])
    have hla : l.lookup (p ++ [a]) = true :=
      hl [a] ⟨s, rfl⟩ (by simp)
    rw [List.cons_append, walk_name (fun _ => (T.isDir_iff p).mpr hp) (hn a (by simp))]
    simp only [hla, hpa, Bool.not_true, Bool.false_eq_true, if_false]
    rw [happ]
    refine ih (p ++ [a]) (fun b hb => hn b (by simp [hb])) (by rw [← happ]; exact hd) ?_
    intro t ht htn
    have := hl (a :: t) (by simpa using ht) (by simp)
    simpa using this

theorem walk_canonical {T : PathTree α} {m : Mode} {l : Limits α} {n : Nat} {p : List α}
    (r : List α) (h : T.Canonical p) (hl : ∀ t, t <+: p → t ≠ [] → l.lookup t = true) :
    walk T m l n [] (p ++ r) = walk T m l n p r := by
  rcases List.eq_nil_or_concat' p with rfl | ⟨q, a, rfl⟩
  · rfl
  obtain ⟨e, he, hlink⟩ := h.object
  have hq : T.entry q = some .dir := T.parent q a (by simp [he])
  have hqn : ∀ b ∈ q, PathName.kind b = .name := fun b hb => h.names b (by simp [hb])
  have hdesc : walk T m l n [] (q ++ a :: r) = walk T m l n ([] ++ q) (a :: r) :=
    walk_descend q [] hqn (by simpa using hq)
      fun t ht htn => by simpa using hl t (ht.trans ⟨[a], rfl⟩) htn
  rw [List.nil_append] at hdesc
  rw [List.append_assoc, List.singleton_append, hdesc,
    walk_name (fun _ => (T.isDir_iff q).mpr hq) (h.names a (by simp))]
  have hla : l.lookup (q ++ [a]) = true := hl _ (List.prefix_refl _) (by simp)
  cases e with
  | link absolute target => simp [Entry.isLink] at hlink
  | dir => simp [hla, he]
  | file => simp [hla, he]

/-- What follows names that exist and are no links matters only from their end on. -/
theorem walk_names_congr {T : PathTree α} {m : Mode} {l : Limits α} {n : Nat} {r r' : List α}
    (s p : List α) (hn : ∀ a ∈ s, PathName.kind a = .name)
    (ho : ∀ t, t <+: s → t ≠ [] → ∃ e, T.entry (p ++ t) = some e ∧ e.isLink = false)
    (hr : walk T m l n (p ++ s) r = walk T m l n (p ++ s) r') :
    walk T m l n p (s ++ r) = walk T m l n p (s ++ r') := by
  induction s generalizing p with
  | nil => simpa using hr
  | cons a s ih =>
    obtain ⟨e, he, hlink⟩ := ho [a] (by simp) (by simp)
    have hd : m.strict = true → T.isDir p = true := fun _ =>
      (T.isDir_iff p).mpr (T.parent p a (by simp [he]))
    have hrest : walk T m l n (p ++ [a]) (s ++ r) = walk T m l n (p ++ [a]) (s ++ r') := by
      refine ih (p ++ [a]) (fun b hb => hn b (by simp [hb])) (fun t ht htn => ?_)
        (by simpa using hr)
      have := ho (a :: t) (by simpa using ht) (by simp)
      simpa using this
    rw [List.cons_append, List.cons_append, walk_name hd (hn a (by simp)),
      walk_name hd (hn a (by simp)), he]
    cases e with
    | link absolute target => cases hlink
    | dir => simp only [hrest]
    | file => simp only [hrest]

theorem walk_canonical_congr {T : PathTree α} {m : Mode} {l : Limits α} {n : Nat} {p r r' : List α}
    (h : T.Canonical p) (hr : walk T m l n p r = walk T m l n p r') :
    walk T m l n [] (p ++ r) = walk T m l n [] (p ++ r') := by
  refine walk_names_congr p [] h.names ?_ (by simpa using hr)
  rintro t ⟨u, rfl⟩ ht
  obtain ⟨e, he, hlink⟩ := h.object
  by_cases hu : u = []
  · exact ⟨e, by simpa [hu] using he, hlink⟩
  · exact ⟨.dir, T.dir_of_below hu (by simp [he]), rfl⟩

theorem walk_lookup {T : PathTree α} {m : Mode} {l : Limits α} {q : List α}
    (n : Nat) (cur comps : List α) (hl : ∀ t, t <+: cur → t ≠ [] → l.lookup t = true)
    (hw : walk T m l n cur comps = .found q) : ∀ t, t <+: q → t ≠ [] → l.lookup t = true := by
  induction n, cur, comps using walk_induct with
  | nil n cur =>
    rw [walk_nil] at hw
    cases hw
    exact hl
  | cons n cur c r ih ihk =>
  by_cases hd : m.strict = true → T.isDir cur = true
  swap
  · simp only [Classical.not_imp, Bool.not_eq_true] at hd
    rw [walk_notDir hd.1 hd.2] at hw
    cases hw
  cases hk : PathName.kind c with
  | here =>
    rw [walk_here hd hk] at hw
    exact ih _ hl hw
  | up =>
    rw [walk_up hd hk] at hw
    exact ih _ (fun t ht => hl t (ht.trans (List.dropLast_prefix cur))) hw
  | name =>
    rw [walk_name hd hk] at hw
    by_cases hlook : (!l.lookup (cur ++ [c])) = true
    · rw [if_pos hlook] at hw
      cases hw
    rw [if_neg hlook] at hw
    have hl' : ∀ t, t <+: cur ++ [c] → t ≠ [] → l.lookup t = true := by
      intro t ht htn
      rcases List.prefix_concat_iff.mp ht with rfl | ht
      · simpa using hlook
      · exact hl t ht htn
    rcases he : T.entry (cur ++ [c]) with _ | _ | _ | ⟨absolute, target⟩
    · simp only [he] at hw
      split at hw <;> cases hw
    · exact ih _ hl' (by simpa [he] using hw)
    · exact ih _ hl' (by simpa [he] using hw)
    simp only [he] at hw
    by_cases hlast : (!m.follow && r.isEmpty) = true
    · rw [if_pos hlast] at hw
      cases hw
      exact hl'
    rw [if_neg hlast] at hw
    by_cases hexp : (!l.expand target r) = true
    · rw [if_pos hexp] at hw
      cases hw
    rw [if_neg hexp] at hw
    cases n with
    | zero => cases hw
    | succ k =>
      refine ihk k rfl _ _ ?_ hw
      cases absolute
      · exact hl
      · intro t ht htn
        exact absurd (List.prefix_nil.mp ht) htn

/-- A lenient walk finds whatever a strict one finds. -/
theorem walk_lenient {T : PathTree α} {f : Bool} {l : Limits α} {q : List α}
    (n : Nat) (cur comps : List α) (hw : walk T ⟨true, f⟩ l n cur comps = .found q) :
    walk T ⟨false, f⟩ l n cur comps = .found q := by
  induction n, cur, comps using walk_induct with
  | nil n cur => simpa using hw
  | cons n cur c r ih ihk =>
  cases hd : T.isDir cur with
  | false =>
    rw [walk_notDir rfl hd] at hw
    cases hw
  | true =>
    cases hk : PathName.kind c with
    | here =>
      rw [walk_here (fun _ => hd) hk] at hw
      rw [walk_here (fun _ => hd) hk]
      exact ih _ hw
    | up =>
      rw [walk_up (fun _ => hd) hk] at hw
      rw [walk_up (fun _ => hd) hk]
      exact ih _ hw
    | name =>
      rw [walk_name (fun _ => hd) hk] at hw
      rw [walk_name (fun _ => hd) hk]
      by_cases hlook : (!l.lookup (cur ++ [c])) = true
      · rw [if_pos hlook] at hw
        cases hw
      rw [if_neg hlook] at hw ⊢
      rcases he : T.entry (cur ++ [c]) with _ | _ | _ | ⟨absolute, target⟩
      · simp only [he] at hw
        split at hw <;> cases hw
      · exact ih _ (by simpa [he] using hw)
      · exact ih _ (by simpa [he] using hw)
      simp only [he] at hw ⊢
      by_cases hlast : (!f && r.isEmpty) = true
      · rw [if_pos hlast] at hw ⊢
        exact hw
      rw [if_neg hlast] at hw ⊢
      by_cases hexp : (!l.expand target r) = true
      · rw [if_pos hexp] at hw
        cases hw
      rw [if_neg hexp] at hw ⊢
      cases n with
      | zero => cases hw
      | succ k => exact ihk k rfl _ _ hw

/-- What a lenient walk finds is found by a strict one too, unless that is stopped by
something that is no directory. -/
theorem walk_strict {T : PathTree α} {f : Bool} {l : Limits α} {q : List α}
    (n : Nat) (cur comps : List α) (hw : walk T ⟨false, f⟩ l n cur comps = .found q) :
    walk T ⟨true, f⟩ l n cur comps = .found q ∨
      walk T ⟨true, f⟩ l n cur comps = .fail .notDir := by
  induction n, cur, comps using walk_induct with
  | nil n cur => exact .inl (by simpa using hw)
  | cons n cur c r ih ihk =>
  cases hd : T.isDir cur with
  | false => exact .inr (walk_notDir rfl hd)
  | true =>
    cases hk : PathName.kind c with
    | here =>
      rw [walk_here (fun _ => hd) hk] at hw ⊢
      exact ih _ hw
    | up =>
      rw [walk_up (fun _ => hd) hk] at hw ⊢
      exact ih _ hw
    | name =>
      rw [walk_name (fun _ => hd) hk] at hw ⊢
      by_cases hlook : (!l.lookup (cur ++ [c])) = true
      · rw [if_pos hlook] at hw
        cases hw
      rw [if_neg hlook] at hw ⊢
      rcases he : T.entry (cur ++ [c]) with _ | _ | _ | ⟨absolute, target⟩
      · simp only [he] at hw
        split at hw <;> cases hw
      · exact ih _ (by simpa [he] using hw)
      · exact ih _ (by simpa [he] using hw)
      simp only [he] at hw ⊢
      by_cases hlast : (!f && r.isEmpty) = true
      · rw [if_pos hlast] at hw ⊢
        exact .inl hw
      rw [if_neg hlast] at hw ⊢
      by_cases hexp : (!l.expand target r) = true
      · rw [if_pos hexp] at hw
        cases hw
      rw [if_neg hexp] at hw ⊢
      cases n with
      | zero => cases hw
      | succ k => exact ihk k rfl _ _ hw

/-- Limits do nothing but stop a walk. -/
theorem walk_limits {T : PathTree α} {m : Mode} {l : Limits α} (n : Nat) (cur comps : List α)
    (hw : walk T m l n cur comps ≠ .fail .tooLong) :
    walk T m l n cur comps = walk T m .unlimited n cur comps := by
  induction n, cur, comps using walk_induct with
  | nil n cur => simp
  | cons n cur c r ih ihk =>
  by_cases hd : m.strict = true → T.isDir cur = true
  swap
  · simp only [Classical.not_imp, Bool.not_eq_true] at hd
    rw [walk_notDir hd.1 hd.2, walk_notDir hd.1 hd.2]
  cases hk : PathName.kind c with
  | here =>
    rw [walk_here hd hk] at hw ⊢
    rw [walk_here hd hk]
    exact ih _ hw
  | up =>
    rw [walk_up hd hk] at hw ⊢
    rw [walk_up hd hk]
    exact ih _ hw
  | name =>
    rw [walk_name hd hk] at hw ⊢
    rw [walk_name hd hk]
    by_cases hlook : (!l.lookup (cur ++ [c])) = true
    · exact absurd (if_pos hlook) hw
    rw [if_neg hlook] at hw ⊢
    rw [if_neg (show ¬(!Limits.unlimited.lookup (cur ++ [c])) = true by simp [Limits.unlimited])]
    rcases he : T.entry (cur ++ [c]) with _ | _ | _ | ⟨absolute, target⟩
    · rfl
    · exact ih _ (by simpa [he] using hw)
    · exact ih _ (by simpa [he] using hw)
    simp only [he] at hw ⊢
    by_cases hlast : (!m.follow && r.isEmpty) = true
    · simp only [if_pos hlast]
    rw [if_neg hlast] at hw ⊢
    rw [if_neg hlast]
    by_cases hexp : (!l.expand target r) = true
    · exact absurd (if_pos hexp) hw
    rw [if_neg hexp] at hw ⊢
    rw [if_neg (show ¬(!Limits.unlimited.expand target r) = true by simp [Limits.unlimited])]
    cases n with
    | zero => rfl
    | succ k => exact ihk k rfl _ _ hw

theorem walk_missing {T : PathTree α} {m : Mode} {l : Limits α} {d : List α} {a : α} (n : Nat)
    (cur comps : List α) (hw : walk T m l n cur comps = .missing d a) :
    T.entry (d ++ [a]) = none ∧ (m.strict = true → T.isDir d = true) := by
  induction n, cur, comps using walk_induct with
  | nil n cur => simp at hw
  | cons n cur c r ih ihk =>
  by_cases hd : m.strict = true → T.isDir cur = true
  swap
  · simp only [Classical.not_imp, Bool.not_eq_true] at hd
    simp [walk_notDir hd.1 hd.2] at hw
  cases hk : PathName.kind c with
  | here =>
    rw [walk_here hd hk] at hw
    exact ih _ hw
  | up =>
    rw [walk_up hd hk] at hw
    exact ih _ hw
  | name =>
    rw [walk_name hd hk] at hw
    by_cases hlook : (!l.lookup (cur ++ [c])) = true
    · simp [hlook] at hw
    rw [if_neg hlook] at hw
    rcases he : T.entry (cur ++ [c]) with _ | _ | _ | ⟨absolute, target⟩
    · by_cases hlast : r.isEmpty = true
      · obtain ⟨rfl, rfl⟩ : cur = d ∧ c = a := by simpa [he, hlast] using hw
        exact ⟨he, hd⟩
      · simp [he, hlast] at hw
    · exact ih _ (by simpa [he] using hw)
    · exact ih _ (by simpa [he] using hw)
    simp only [he] at hw
    by_cases hlast : (!m.follow && r.isEmpty) = true
    · simp [hlast] at hw
    rw [if_neg hlast] at hw
    by_cases hexp : (!l.expand target r) = true
    · simp [hexp] at hw
    rw [if_neg hexp] at hw
    cases n with
    | zero => cases hw
    | succ k => exact ihk k rfl _ _ hw

/-- Every entry of the one tree is one of the other. -/
def PathTree.Within (T T' : PathTree α) : Prop :=
  ∀ p e, T.entry p = some e → T'.entry p = some e

omit [PathName α] in
theorem PathTree.Within.isDir {T T' : PathTree α} (h : T.Within T') {p : List α}
    (hd : T.isDir p = true) : T'.isDir p = true := by
  rw [PathTree.isDir_iff] at hd ⊢
  exact h p _ hd

/-- What became of a walk in a tree that has grown to `T'`. -/
def Outcome.GrownTo (T' : PathTree α) (o' : Outcome α) : Outcome α → Prop
  | .found q => o' = .found q
  | .missing d a => ∀ e, T'.entry (d ++ [a]) = some e → e.isLink = false → o' = .found (d ++ [a])
  | .fail _ => True

/-- A walk still ends where it ended, and a walk to a free place now finds what was put there. -/
theorem walk_grown {T T' : PathTree α} {m : Mode} {l : Limits α} (h : T.Within T') (n : Nat)
    (cur comps : List α) :
    Outcome.GrownTo T' (walk T' m l n cur comps) (walk T m l n cur comps) := by
  induction n, cur, comps using walk_induct with
  | nil n cur => simp [Outcome.GrownTo]
  | cons n cur c r ih ihk =>
  by_cases hd : m.strict = true → T.isDir cur = true
  swap
  · simp only [Classical.not_imp, Bool.not_eq_true] at hd
    rw [walk_notDir hd.1 hd.2]
    trivial
  have hd' : m.strict = true → T'.isDir cur = true := fun hs => h.isDir (hd hs)
  cases hk : PathName.kind c with
  | here =>
    rw [walk_here hd hk, walk_here hd' hk]
    exact ih _
  | up =>
    rw [walk_up hd hk, walk_up hd' hk]
    exact ih _
  | name =>
    rw [walk_name hd hk, walk_name hd' hk]
    by_cases hlook : (!l.lookup (cur ++ [c])) = true
    · rw [if_pos hlook, if_pos hlook]
      trivial
    rw [if_neg hlook, if_neg hlook]
    rcases he : T.entry (cur ++ [c]) with _ | _ | _ | ⟨absolute, target⟩
    · by_cases hlast : r.isEmpty = true
      swap
      · simp [hlast, Outcome.GrownTo]
      obtain rfl : r = [] := by simpa using hlast
      intro e he' hlink
      rw [he']
      cases e with
      | dir => simp
      | file => simp
      | link absolute target => cases hlink
    · rw [h _ _ he]
      exact ih _
    · rw [h _ _ he]
      exact ih _
    rw [h _ _ he]
    dsimp only
    by_cases hlast : (!m.follow && r.isEmpty) = true
    · rw [if_pos hlast, if_pos hlast]
      rfl
    rw [if_neg hlast, if_neg hlast]
    by_cases hexp : (!l.expand target r) = true
    · rw [if_pos hexp, if_pos hexp]
      trivial
    rw [if_neg hexp, if_neg hexp]
    cases n with
    | zero => trivial
    | succ k => exact ihk k rfl _ _

def Entry.emptied {α : Type} : Entry α → Entry α
  | .file => .dir
  | e => e

/-- The tree in which every file is an empty directory. -/
def PathTree.emptied {α : Type} (T : PathTree α) : PathTree α where
  entry p := (T.entry p).map Entry.emptied
  root := by
    rw [T.root]
    rfl
  parent p a h := by
    rw [T.parent p a fun hn => h (by simp [hn])]
    rfl

omit [PathName α] in
@[simp] theorem PathTree.emptied_entry (T : PathTree α) (p : List α) :
    T.emptied.entry p = (T.entry p).map Entry.emptied := rfl

theorem PathTree.Canonical.isDir_emptied {T : PathTree α} {p : List α}
    (h : T.Canonical p) : T.emptied.isDir p = true := by
  obtain ⟨e, he, hlink⟩ := h.object
  rw [PathTree.isDir_iff, PathTree.emptied_entry, he]
  cases e with
  | dir => rfl
  | file => rfl
  | link absolute target => cases hlink

/-- To be lenient is to take files for directories. -/
theorem walk_emptied {T : PathTree α} {l : Limits α} (n : Nat) (cur comps : List α)
    (hc : T.Canonical cur) :
    walk T.emptied ⟨true, true⟩ l n cur comps = walk T ⟨false, true⟩ l n cur comps := by
  induction n, cur, comps using walk_induct with
  | nil n cur => simp
  | cons n cur c r ih ihk =>
  have hd := hc.isDir_emptied
  cases hk : PathName.kind c with
  | here =>
    rw [walk_here (fun _ => hd) hk, walk_here (by simp) hk]
    exact ih _ hc
  | up =>
    rw [walk_up (fun _ => hd) hk, walk_up (by simp) hk]
    exact ih _ hc.dropLast
  | name =>
    rw [walk_name (fun _ => hd) hk, walk_name (by simp) hk]
    rcases he : T.entry (cur ++ [c]) with _ | _ | _ | ⟨absolute, target⟩
    · simp [he]
    · simp [he, Entry.emptied, ih _ (hc.snoc hk he rfl)]
    · simp [he, Entry.emptied, ih _ (hc.snoc hk he rfl)]
    cases n with
    | zero => simp [he, Entry.emptied, expandWith]
    | succ k =>
      have hcur : T.Canonical (if absolute = true then [] else cur) := by
        cases absolute
        · exact hc
        · exact T.canonical_root
      simp [he, Entry.emptied, expandWith, ihk k rfl _ _ hcur]

end UefiLkl.PathWalk
