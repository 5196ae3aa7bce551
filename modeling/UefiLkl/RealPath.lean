import UefiLkl.Linux
set_option autoImplicit false

/-!
`RealPath`: the canonical form of an absolute name, computed from `lstat` and
`readlink` alone.
-/

namespace UefiLkl
open Interaction PathWalk

def pathMax : Nat := 4096

/-- `out` is what stands in `rpath` before `dest`, `size` is `rpath_limit - rpath`. -/
structure RpState where
  out : Bytes
  rpath : Ptr
  size : Nat
  allocSize : Nat
  numLinks : Nat
  deriving DecidableEq, Repr

/-- `while ((--dest)[-1] != '/')` -/
def backUp (out : Bytes) : Bytes := out.dropLast.rdropWhile (· != slash)

/-- Back up to the previous component, ignored at the root. -/
def realPathUp (s : RpState) : Lkl RpState :=
  if s.out.length > 1 then do
    let out := backUp s.out
    touch .rpath (out.length - 1) (s.out.length - out.length) s.size
    pure { s with out := out }
  else pure s

def realPathError (resolved : Option Ptr) (s : RpState) : Lkl (Option (Ptr × Bytes)) :=
  if resolved = none then do
    freePool s.rpath
    pure none
  else pure none

def realPathDone (s : RpState) : Lkl (Option (Ptr × Bytes)) := do
  let out := if s.out.length > 1 ∧ s.out.getLast? = some slash then s.out.dropLast else s.out
  touch .rpath out.length 1 s.size
  pure (some (s.rpath, out))

/-- Room for a component of `len` bytes and the terminator. -/
def realPathGrow (resolved : Option Ptr) (s : RpState) (len : Nat) : Lkl (Option RpState) := do
  if s.out.length + len ≥ s.size then
    if resolved.isSome then
      touch .rpath (if s.out.length > 1 then s.out.length - 1 else s.out.length) 1 s.size
      pure none
    else
      let newSize := s.size + if len + 1 > pathMax then len + 1 else pathMax
      match ← reallocatePool s.allocSize newSize s.rpath with
      | none => pure none
      | some rpath => pure (some { s with rpath, size := newSize, allocSize := newSize })
  else pure (some s)

/-- The separator that `dest` still needs. -/
def realPathSlash (s : RpState) : Lkl RpState :=
  if s.out.getLast? ≠ some slash then do
    touch .rpath s.out.length 1 s.size
    pure { s with out := s.out ++ [slash] }
  else pure s

/-- How the body of the loop ends: `break`, `goto error`, or with the next `start`. -/
inductive RpStep where
  | break (s : RpState)
  | error (s : RpState)
  | next (s : RpState) (start : Bytes)
  deriving DecidableEq, Repr

/-- `rpath` names a link: the input goes on in `extra_buf`. -/
def realPathLink (s : RpState) (rest : Bytes) : Lkl RpStep := do
  if s.numLinks + 1 > 40 then pure (.error s)
  else
    match ← lklSysReadlink s.out (pathMax - 1) with
    | .error _ => pure (.error s)
    | .ok buf =>
      touch .buf buf.length 1 pathMax
      if buf.length + rest.length ≥ pathMax then pure (.error s)
      else
        touch .extraBuf 0 (buf.length + rest.length + 1) pathMax
        let s := { s with numLinks := s.numLinks + 1 }
        let s ← if buf.head? = some slash then pure { s with out := s.out.take 1 }
          else realPathUp s
        pure (.next s (cString (buf ++ rest)))

def realPathComponent (resolved : Option Ptr) (s : RpState) (comp rest : Bytes) :
    Lkl RpStep := do
  let s ← realPathSlash s
  match ← realPathGrow resolved s comp.length with
  | none => pure (.error s)
  | some s =>
    touch .rpath s.out.length (comp.length + 1) s.size
    let s := { s with out := s.out ++ comp }
    let (rc, st) ← lklSysLstat s.out
    if rc < 0 then pure (.error s)
    else if isLnk st.mode then realPathLink s rest
    else pure (.next s rest)

/-- The body of the loop; `start` is the rest of the input, which may lie in
`extra_buf`. -/
def realPathStep (resolved : Option Ptr) (s : RpState) (start : Bytes) : Lkl RpStep := do
  let start := start.dropWhile (· == slash)
  let comp := start.takeWhile (· != slash)
  let rest := start.dropWhile (· != slash)
  if comp = [] then pure (.break s)
  else if comp = [dot] then pure (.next s rest)
  else if comp = [dot, dot] then
    let s ← realPathUp s
    pure (.next s rest)
  else realPathComponent resolved s comp rest

def realPathLoop (resolved : Option Ptr) : Nat → RpState → Bytes → Lkl (Option (Ptr × Bytes))
  | 0, _, _ => pure none
  | fuel+1, s, start => do
    if start = [] then realPathDone s
    else
      match ← realPathStep resolved s start with
      | .break s => realPathDone s
      | .error s => realPathError resolved s
      | .next s start => realPathLoop resolved fuel s start

/-- An iteration consumes input, or expands one of at most 40 links to less than
`path_max` bytes. -/
def realPathFuel (numLinks : Nat) (start : Bytes) : Nat :=
  start.length + (40 - numLinks) * pathMax + 1

def realPath (name : Option Bytes) (resolved : Option Ptr) : Lkl (Option (Ptr × Bytes)) := do
  match name with
  | none => pure none
  | some name =>
    if name = [] then pure none
    else
      match ← (match resolved with
        | none => allocatePool pathMax
        | some p => pure (some p)) with
      | none => pure none
      | some rpath =>
        let s : RpState := ⟨[], rpath, pathMax, pathMax, 0⟩
        if name.head? ≠ some slash then realPathError resolved s
        else
          touch .rpath 0 1 pathMax
          realPathLoop resolved (realPathFuel 0 name) { s with out := [slash] } name

/-- What is looked up and what is expanded stays below `path_max` bytes. -/
def realPathLimits : Limits Name where
  lookup p := (joined p).length < pathMax
  expand t r := (joined (t ++ r)).length ≤ pathMax

/-- The walk of `RealPath` does not care whether it goes through a directory. -/
def realPathWalk (F : FsTree) (n : Nat) (cur : List Name) (start : Bytes) : Outcome Name :=
  walk F.tree ⟨false, true⟩ realPathLimits n cur (components start)

theorem realPathWalk_slash (F : FsTree) (n : Nat) (cur : List Name) (start : Bytes) :
    realPathWalk F n cur (slash :: start) = realPathWalk F n cur start := by
  rw [realPathWalk, components_cons_slash, walk_here (by simp) rfl, realPathWalk]

theorem realPathWalk_skip (F : FsTree) (n : Nat) (cur : List Name) (start : Bytes) :
    realPathWalk F n cur (start.dropWhile (· == slash)) = realPathWalk F n cur start := by
  induction start with
  | nil => rfl
  | cons x start ih =>
    by_cases hx : x = slash
    · rw [hx, realPathWalk_slash, List.dropWhile_cons_of_pos (by simp)]
      exact ih
    · rw [List.dropWhile_cons_of_neg (by simpa using hx)]

theorem realPathWalk_tail (F : FsTree) (n : Nat) (cur : List Name) {rest : Bytes}
    (h : AtSeparator rest) :
    walk F.tree ⟨false, true⟩ realPathLimits n cur (components rest).tail =
      realPathWalk F n cur rest := by
  rw [realPathWalk, components_atSeparator h, walk_here (by simp) rfl, List.tail_cons]

theorem realPathWalk_comp (F : FsTree) (n : Nat) (cur : List Name) {comp rest : Bytes}
    (hc : slash ∉ comp) (hr : AtSeparator rest) :
    realPathWalk F n cur (comp ++ rest) =
      walk F.tree ⟨false, true⟩ realPathLimits n cur (comp :: (components rest).tail) := by
  rw [realPathWalk, components_append comp hr, components_of_not_mem hc, List.singleton_append]

theorem realPathWalk_name (F : FsTree) (n : Nat) (cur : List Name) {comp rest : Bytes}
    (hk : PathName.kind comp = .name) (hc : slash ∉ comp) (hr : AtSeparator rest) :
    realPathWalk F n cur (comp ++ rest) =
      if pathMax ≤ (joined (cur ++ [comp])).length then .fail .tooLong
      else match F.node (cur ++ [comp]) with
      | none => if (components rest).tail.isEmpty then .missing cur comp else .fail .noEntry
      | some (.link _ target) =>
        if pathMax ≤ target.length + rest.length then .fail .tooLong
        else match n with
        | 0 => .fail .loop
        | n+1 => realPathWalk F n (if target.head? = some slash then [] else cur) (target ++ rest)
      | some _ => realPathWalk F n (cur ++ [comp]) rest := by
  rw [realPathWalk_comp F n cur hc hr, walk_name (by simp) hk]
  by_cases hlen : pathMax ≤ (joined (cur ++ [comp])).length
  · have hl : realPathLimits.lookup (cur ++ [comp]) = false := by simpa [realPathLimits] using hlen
    rw [if_pos hlen, hl]
    rfl
  have hl : realPathLimits.lookup (cur ++ [comp]) = true := by simpa [realPathLimits] using hlen
  rw [if_neg hlen, hl]
  rcases hn : F.node (cur ++ [comp]) with _ | _ | _ | ⟨i, target⟩
  · simp [hn]
  · simp [hn, FsNode.entry, realPathWalk_tail F n _ hr]
  · simp [hn, FsNode.entry, realPathWalk_tail F n _ hr]
  have he : realPathLimits.expand (components target) (components rest).tail =
      !decide (pathMax ≤ target.length + rest.length) := by
    simp only [realPathLimits, joined_append, joined_components, joined_tail_components hr,
      List.length_append, List.length_cons]
    rw [← decide_not, decide_eq_decide]
    omega
  simp only [FsTree.tree_entry, hn, Option.map_some, FsNode.entry, he]
  by_cases hx : pathMax ≤ target.length + rest.length
  · simp [hx]
  · cases n with
    | zero => simp [hx, expandWith]
    | succ n => simp [hx, expandWith, realPathWalk, components_append target hr]

@[simp] theorem realPathWalk_nil (F : FsTree) (n : Nat) (cur : List Name) :
    realPathWalk F n cur [] = .found cur := by
  rw [realPathWalk, components_nil, walk_here (by simp) rfl, walk_nil]

/-- What stands in `rpath` while the walk is at `cur`. -/
def Holds (out : Bytes) (cur : List Name) : Prop :=
  out = joined cur ++ [slash] ∨ (cur ≠ [] ∧ out = joined cur)

theorem rdropWhile_slash {s t : Bytes} (h : slash ∉ t) :
    (s ++ slash :: t).rdropWhile (· != slash) = s ++ [slash] := by
  induction t using List.reverseRecOn with
  | nil => exact List.rdropWhile_concat_neg _ _ _ (by simp)
  | append_singleton t x ih =>
    have hx : x ≠ slash := fun hx => h (by simp [hx])
    rw [← List.cons_append, ← List.append_assoc,
      List.rdropWhile_concat_pos _ _ _ (by simpa using hx)]
    exact ih fun ht => h (by simp [ht])

theorem joined_snoc (p : List Name) (c : Name) : joined (p ++ [c]) = joined p ++ slash :: c := by
  simp

/-- Backing up drops the last component and keeps its separator. -/
theorem backUp_of_holds {out : Bytes} {p : List Name} {c : Name} (hc : slash ∉ c) (hne : c ≠ [])
    (h : Holds out (p ++ [c])) : backUp out = joined p ++ [slash] := by
  rcases h with rfl | ⟨_, rfl⟩
  · rw [backUp, List.dropLast_concat, joined_snoc]
    exact rdropWhile_slash hc
  · have hd : (joined p ++ slash :: c).dropLast = joined p ++ slash :: c.dropLast := by
      rw [List.dropLast_append_of_ne_nil (by simp), List.dropLast_cons_of_ne_nil hne]
    rw [backUp, joined_snoc, hd]
    exact rdropWhile_slash fun hm => hc (List.dropLast_subset _ hm)

theorem joined_getLast {p : List Name} {c : Name} (hc : slash ∉ c) (hne : c ≠ []) :
    (joined (p ++ [c])).getLast? ≠ some slash := by
  obtain ⟨d, x, rfl⟩ := (List.eq_nil_or_concat' c).resolve_left hne
  rw [joined_snoc, ← List.cons_append, ← List.append_assoc, List.getLast?_concat]
  rintro hx
  exact hc (by simp [Option.some.inj hx])

/-- Names that `rpath` can hold between separators. -/
def Plain (p : List Name) : Prop := ∀ a ∈ p, slash ∉ a ∧ a ≠ []

theorem FsTree.plain_of_canonical (F : FsTree) {p : List Name} (h : F.tree.Canonical p) :
    Plain p := fun a ha =>
  have hv := F.canonical_names h a ha
  ⟨slash_of_validName hv, ne_nil_of_validName hv⟩

theorem FsTree.plain_snoc (F : FsTree) {p : List Name} {c : Name} (h : F.tree.Canonical p)
    (hk : PathName.kind c = .name) (hs : slash ∉ c) : Plain (p ++ [c]) := by
  intro a ha
  rcases List.mem_append.mp ha with ha | ha
  · exact F.plain_of_canonical h a ha
  · rw [List.mem_singleton.mp ha]
    exact ⟨hs, (kind_name_iff.mp hk).1⟩

theorem joined_take_one {p : List Name} (h : p ≠ []) : (joined p).take 1 = [slash] := by
  obtain ⟨a, q, rfl⟩ := List.exists_cons_of_ne_nil h
  rw [joined_cons]
  rfl

theorem Holds.length_le_one {out : Bytes} {cur : List Name} (hp : Plain cur) (h : Holds out cur)
    (hl : ¬out.length > 1) : cur = [] := by
  rcases List.eq_nil_or_concat' cur with rfl | ⟨p, a, rfl⟩
  · rfl
  · have hlen := List.length_pos_iff.mpr (hp a (by simp)).2
    rcases h with rfl | ⟨_, rfl⟩
    · simp at hl
      omega
    · simp at hl
      omega

section Rules

variable {k : Linux} {s : RpState} {cur : List Name}

theorem realPathUp_always (hp : Plain cur) (h : Holds s.out cur) :
    Linux.faulty.Always (realPathUp s)
      (fun s' k' => s' = { s with out := joined cur.dropLast ++ [slash] } ∧ k' = k) k := by
  unfold realPathUp
  rcases List.eq_nil_or_concat' cur with rfl | ⟨p, c, rfl⟩
  · obtain ⟨out, _, _, _, _⟩ := s
    obtain rfl : out = [slash] := by simpa [Holds] using h
    simp
  · obtain ⟨hc, hne⟩ := hp c (by simp)
    have hlen : s.out.length > 1 := by
      by_contra hl
      simpa using h.length_le_one hp hl
    simp [hlen, backUp_of_holds hc hne h]

theorem realPathSlash_always (hp : Plain cur) (h : Holds s.out cur) :
    Linux.faulty.Always (realPathSlash s)
      (fun s' k' => s' = { s with out := joined cur ++ [slash] } ∧ k' = k) k := by
  obtain ⟨out, _, _, _, _⟩ := s
  unfold realPathSlash
  rcases h with rfl | ⟨hcur, rfl⟩
  · simp
  · obtain ⟨p, c, rfl⟩ := (List.eq_nil_or_concat' cur).resolve_left hcur
    obtain ⟨hc, hne⟩ := hp c (by simp)
    rw [if_pos (joined_getLast hc hne)]
    simp

theorem realPathGrow_always (len : Nat) :
    Linux.faulty.Always (realPathGrow none s len)
      (fun o k' => k'.core = k.core ∧ (k'.faulted = true ∧ o = none ∨
        ∃ s', o = some s' ∧ s'.out = s.out ∧ s'.numLinks = s.numLinks)) k := by
  unfold realPathGrow
  by_cases hl : s.out.length + len ≥ s.size
  · simp only [hl, if_true, Option.isSome_none, Bool.false_eq_true, if_false]
    apply Linux.always_reallocatePool
    · exact ⟨rfl, .inr ⟨_, rfl, rfl, rfl⟩⟩
    · exact ⟨rfl, .inl ⟨rfl, rfl⟩⟩
  · simp only [hl, if_false]
    exact ⟨rfl, .inr ⟨s, rfl, rfl, rfl⟩⟩

theorem realPathDone_always (hp : Plain cur) (h : Holds s.out cur) :
    Linux.faulty.Always (realPathDone s)
      (fun r k' => r = some (s.rpath, render cur) ∧ k' = k) k := by
  unfold realPathDone
  rcases List.eq_nil_or_concat' cur with rfl | ⟨p, c, rfl⟩
  · have ho : s.out = [slash] := by simpa [Holds] using h
    simp [ho]
  · obtain ⟨hc, hne⟩ := hp c (by simp)
    have hlen : s.out.length > 1 := by
      by_contra hl
      simpa using h.length_le_one hp hl
    rcases h with ho | ⟨_, ho⟩
    · have hlast : s.out.getLast? = some slash := by rw [ho, List.getLast?_concat]
      simp only [hlen, hlast, true_and, if_true, Linux.always_touch]
      exact ⟨by rw [ho, List.dropLast_concat, render_of_ne (by simp)], rfl⟩
    · have hlast : s.out.getLast? ≠ some slash := ho ▸ joined_getLast hc hne
      simp only [hlast, and_false, if_false, Linux.always_touch]
      exact ⟨by rw [ho, render_of_ne (by simp)], rfl⟩

end Rules

theorem scan_split (start : Bytes) : ∃ comp rest : Bytes,
    (start.dropWhile (· == slash)).takeWhile (· != slash) = comp ∧
    (start.dropWhile (· == slash)).dropWhile (· != slash) = rest ∧
    start.dropWhile (· == slash) = comp ++ rest ∧ slash ∉ comp ∧ AtSeparator rest ∧
    (∀ x ∈ comp ++ rest, x ∈ start) ∧ comp.length + rest.length ≤ start.length ∧
    (comp = [] → rest = []) := by
  have hsplit := List.takeWhile_append_dropWhile (p := (· != slash))
    (l := start.dropWhile (· == slash))
  refine ⟨_, _, rfl, rfl, hsplit.symm, ?_, atSeparator_dropWhile _, ?_, ?_, ?_⟩
  · intro h
    simpa using List.mem_takeWhile_imp h
  · rw [hsplit]
    exact fun x hx => (List.dropWhile_suffix _).subset hx
  · rw [← List.length_append, hsplit]
    exact (List.dropWhile_suffix _).length_le
  · intro hcomp
    rw [hcomp, List.nil_append] at hsplit
    rcases atSeparator_dropWhile (start.dropWhile (· == slash)) with hrest | ⟨t, hrest⟩
    · exact hrest
    · have hhead := List.head?_dropWhile_not (· == slash) start
      rw [← hsplit, hrest] at hhead
      simp at hhead

/-- The walk that is left when `rpath` and the input are as given. -/
def RpState.walk (F : FsTree) (s : RpState) (cur : List Name) (start : Bytes) : Outcome Name :=
  realPathWalk F (40 - s.numLinks) cur start

def realPathMeasure (s : RpState) (start : Bytes) : Nat :=
  start.length + (40 - s.numLinks) * pathMax

theorem length_cString_le (b : Bytes) : (cString b).length ≤ b.length :=
  (List.takeWhile_prefix _).length_le

theorem realPathMeasure_read {s : RpState} {start comp rest : Bytes} (hcomp : comp ≠ [])
    (hlen : comp.length + rest.length ≤ start.length) :
    rest.length + (40 - s.numLinks) * pathMax < realPathMeasure s start := by
  have hpos := List.length_pos_iff.mpr hcomp
  rw [realPathMeasure]
  omega

/-- A link is followed: what it is replaced by is shorter than `path_max`. -/
theorem realPathMeasure_link {s s' : RpState} {buf rest : Bytes} {m : Nat}
    (hm : (40 - s.numLinks) * pathMax ≤ m) (hmany : ¬s.numLinks + 1 > 40)
    (hbig : ¬buf.length + rest.length ≥ pathMax) (hs' : s'.numLinks = s.numLinks + 1) :
    realPathMeasure s' (cString (buf ++ rest)) < m := by
  have hlen := length_cString_le (buf ++ rest)
  have hmul : (40 - s.numLinks) * pathMax = (40 - (s.numLinks + 1)) * pathMax + pathMax := by
    rw [← Nat.succ_mul]
    congr 1
    omega
  rw [List.length_append] at hlen
  rw [realPathMeasure, hs']
  omega

/-- What ties the state of the loop to the walk: `o` is where the walk will end. -/
structure RpInv (F : FsTree) (o : Outcome Name) (s : RpState) (start : Bytes)
    (cur : List Name) : Prop where
  links : s.numLinks ≤ 40
  canonical : F.tree.Canonical cur
  holds : Holds s.out cur
  input : 0 ∉ start
  ends : s.walk F cur start = o

/-- What one iteration does to it, `m` being the measure before. -/
def RpStep.Post (F : FsTree) (o : Outcome Name) (m : Nat) (faulted : Bool) : RpStep → Prop
  | .break s => ∃ cur, F.tree.Canonical cur ∧ Holds s.out cur ∧ o = .found cur
  | .error _ => faulted = true ∨ o.path = none
  | .next s start => realPathMeasure s start < m ∧ ∃ cur, RpInv F o s start cur

section Iteration

variable {k : Linux} {s : RpState} {cur : List Name} {comp rest : Bytes} {o : Outcome Name}

theorem realPathLink_always {m : Nat} {i : Nat} {target : Bytes} (hlinks : s.numLinks ≤ 40)
    (hcur : k.fs.tree.Canonical cur) (hkind : PathName.kind comp = .name) (hsl : slash ∉ comp)
    (hlt : (joined (cur ++ [comp])).length < pathMax) (hout : s.out = joined (cur ++ [comp]))
    (hn : k.fs.node (cur ++ [comp]) = some (.link i target)) (h0 : 0 ∉ rest)
    (ho : (if pathMax ≤ target.length + rest.length then .fail .tooLong
      else match 40 - s.numLinks with
      | 0 => .fail .loop
      | n+1 => realPathWalk k.fs n (if target.head? = some slash then [] else cur)
          (target ++ rest)) = o)
    (hm : (40 - s.numLinks) * pathMax ≤ m) :
    Linux.faulty.Always (realPathLink s rest)
      (fun r k' => k'.core = k.core ∧ r.Post k.fs o m k'.faulted) k := by
  unfold realPathLink
  by_cases hmany : s.numLinks + 1 > 40
  · have hz : 40 - s.numLinks = 0 := by omega
    rw [if_pos hmany]
    refine ⟨rfl, .inr ?_⟩
    rw [← ho, hz]
    split <;> rfl
  rw [if_neg hmany]
  obtain ⟨n, hn40⟩ : ∃ n, 40 - s.numLinks = n + 1 := ⟨39 - s.numLinks, by omega⟩
  have hn39 : 40 - (s.numLinks + 1) = n := by omega
  rw [hn40] at ho hm
  apply Linux.always_readlink
  swap
  · exact fun rc => ⟨rfl, .inl rfl⟩
  have hvalid := k.fs.valid _ _ hn
  simp only [FsNode.valid, Bool.and_eq_true, decide_eq_true_eq, Bool.not_eq_true',
    List.contains_eq_mem, decide_eq_false_iff_not] at hvalid
  obtain ⟨-, -, hread⟩ := Linux.lstat_snoc_link hcur hkind hsl hlt hn
  have htake : target.take (pathMax - 1) = target :=
    List.take_of_length_le (by unfold pathMax; omega)
  rw [hout, hread, htake]
  dsimp only
  rw [Linux.always_touch]
  by_cases hbig : pathMax ≤ target.length + rest.length
  · rw [if_pos hbig] at ho ⊢
    exact ⟨rfl, .inr (by rw [← ho]; rfl)⟩
  rw [if_neg hbig] at ho ⊢
  have h0' : 0 ∉ target ++ rest := by simp [hvalid.2, h0]
  have hless : (target ++ rest).length + n * pathMax < m := by
    rw [Nat.succ_mul] at hm
    rw [List.length_append]
    omega
  rw [Linux.always_touch, cString_eq_self h0']
  dsimp only at ho ⊢
  by_cases habs : target.head? = some slash
  · rw [if_pos habs] at ho ⊢
    refine ⟨rfl, by simpa [realPathMeasure, hn39] using hless, [], ?_⟩
    refine ⟨by dsimp only; omega, k.fs.tree.canonical_root, .inl ?_, h0', ?_⟩
    · exact joined_take_one (by simp)
    · simpa [RpState.walk, hn39] using ho
  · rw [if_neg habs] at ho ⊢
    rw [Env.always_bind]
    refine (realPathUp_always (k.fs.plain_snoc hcur hkind hsl) (.inr ⟨by simp, rfl⟩)).mono ?_
    rintro _ _ ⟨rfl, rfl⟩
    rw [List.dropLast_concat]
    refine ⟨rfl, by simpa [realPathMeasure, hn39] using hless, cur, ?_⟩
    refine ⟨by dsimp only; omega, hcur, .inl rfl, h0', ?_⟩
    simpa [RpState.walk, hn39] using ho

theorem realPathComponent_always {m : Nat} (hlinks : s.numLinks ≤ 40)
    (hcur : k.fs.tree.Canonical cur) (hs : Holds s.out cur) (hkind : PathName.kind comp = .name)
    (hsl : slash ∉ comp) (hsep : AtSeparator rest) (h0 : 0 ∉ rest)
    (ho : s.walk k.fs cur (comp ++ rest) = o)
    (hm : rest.length + (40 - s.numLinks) * pathMax < m) :
    Linux.faulty.Always (realPathComponent none s comp rest)
      (fun r k' => k'.core = k.core ∧ r.Post k.fs o m k'.faulted) k := by
  unfold realPathComponent
  rw [Env.always_bind]
  refine (realPathSlash_always (k.fs.plain_of_canonical hcur) hs).mono ?_
  rintro _ _ ⟨rfl, rfl⟩
  rw [Env.always_bind]
  refine (realPathGrow_always comp.length).mono ?_
  rintro r k1 ⟨hk1, ⟨hfault, rfl⟩ | ⟨s1, rfl, hout, hnum⟩⟩
  · exact ⟨hk1, .inl hfault⟩
  have hfs := Linux.fs_eq_of_core hk1
  dsimp only at hout hnum ⊢
  rw [Linux.always_touch, hout, List.append_assoc, List.singleton_append, ← joined_snoc]
  rw [RpState.walk, realPathWalk_name _ _ _ hkind hsl hsep, ← hfs, ← hnum] at ho
  rw [← hnum] at hlinks hm
  rw [← hk1, ← hfs]
  rw [← hfs] at hcur
  apply Linux.always_lstat
  swap
  · intro x hx
    rw [if_pos hx]
    exact ⟨rfl, .inl rfl⟩
  by_cases hlook : pathMax ≤ (joined (cur ++ [comp])).length
  · rw [if_pos hlook] at ho
    rw [if_pos (Linux.lstat_snoc_none hcur hkind hsl fun h => absurd h (Nat.not_lt.mpr hlook))]
    exact ⟨rfl, .inr (by rw [← ho]; rfl)⟩
  have hlt := Nat.not_le.mp hlook
  rw [if_neg hlook] at ho
  cases hn : k1.fs.node (cur ++ [comp]) with
  | none =>
    rw [if_pos (Linux.lstat_snoc_none hcur hkind hsl fun _ => hn)]
    refine ⟨rfl, .inr ?_⟩
    rw [hn] at ho
    dsimp only at ho
    rw [← ho]
    split <;> rfl
  | some n =>
  by_cases hlink : n.entry.isLink = false
  · obtain ⟨hrc, hmode⟩ := Linux.lstat_snoc_object hcur hkind hsl hlt hn hlink
    rw [if_neg (by omega), if_neg (Bool.eq_false_iff.mp hmode)]
    refine ⟨rfl, hm, cur ++ [comp], hlinks, ?_, .inr ⟨by simp, rfl⟩, h0, ?_⟩
    · exact hcur.snoc hkind (by rw [FsTree.tree_entry, hn]; rfl) hlink
    · rw [hn] at ho
      cases n with
      | link i target => cases hlink
      | dir i => exact ho
      | file i => exact ho
  · cases n with
    | dir i => exact absurd rfl hlink
    | file i => exact absurd rfl hlink
    | link i target =>
      obtain ⟨hrc, hmode, -⟩ := Linux.lstat_snoc_link hcur hkind hsl hlt hn
      rw [if_neg (by omega), if_pos hmode]
      rw [hn] at ho
      exact realPathLink_always (s := { s1 with out := joined (cur ++ [comp]) }) hlinks hcur hkind
        hsl hlt rfl hn h0 ho (by dsimp only; omega)

end Iteration

theorem realPathStep_always {k : Linux} {o : Outcome Name} {s : RpState} {start : Bytes}
    {cur : List Name} (h : RpInv k.fs o s start cur) :
    Linux.faulty.Always (realPathStep none s start)
      (fun r k' => k'.core = k.core ∧ r.Post k.fs o (realPathMeasure s start) k'.faulted) k := by
  obtain ⟨comp, rest, hcomp, hrest, hsplit, hsl, hsep, hmem, hlen, hend⟩ := scan_split start
  unfold realPathStep
  dsimp only
  rw [hcomp, hrest]
  have ho := h.ends
  rw [RpState.walk, ← realPathWalk_skip, hsplit] at ho
  have h0 : 0 ∉ rest := fun h0 => h.input (hmem 0 (List.mem_append_right _ h0))
  by_cases hnil : comp = []
  · rw [if_pos hnil]
    exact ⟨rfl, cur, h.canonical, h.holds, by simp [← ho, hnil, hend hnil]⟩
  rw [if_neg hnil]
  have hless := realPathMeasure_read (s := s) hnil hlen
  by_cases hdot : comp = [dot]
  · rw [realPathWalk_comp _ _ _ hsl hsep, walk_here (by simp) (kind_here_iff.mpr (.inr hdot)),
      realPathWalk_tail _ _ _ hsep] at ho
    rw [if_pos hdot]
    exact ⟨rfl, hless, cur, h.links, h.canonical, h.holds, h0, ho⟩
  rw [if_neg hdot]
  by_cases hdots : comp = [dot, dot]
  · rw [realPathWalk_comp _ _ _ hsl hsep, walk_up (by simp) (kind_up_iff.mpr hdots),
      realPathWalk_tail _ _ _ hsep] at ho
    rw [if_pos hdots, Env.always_bind]
    refine (realPathUp_always (k.fs.plain_of_canonical h.canonical) h.holds).mono ?_
    rintro _ _ ⟨rfl, rfl⟩
    exact ⟨rfl, hless, cur.dropLast, h.links, h.canonical.dropLast, .inl rfl, h0, ho⟩
  rw [if_neg hdots]
  exact realPathComponent_always h.links h.canonical h.holds
    (kind_name_iff.mpr ⟨hnil, hdot, hdots⟩) hsl hsep h0 ho hless

/-- A failure of the kernel or the allocator makes `RealPath` fail; otherwise it
agrees with the walk. -/
def RealPathPost (k : Linux) (o : Outcome Name) (r : Option (Ptr × Bytes)) (k' : Linux) : Prop :=
  k'.core = k.core ∧ (k'.faulted = true ∧ r = none ∨ r.map Prod.snd = o.path.map render)

theorem realPathError_always {k k0 : Linux} {s : RpState} {o : Outcome Name}
    (hk : k.core = k0.core) (h : k.faulted = true ∨ o.path = none) :
    Linux.faulty.Always (realPathError none s) (RealPathPost k0 o) k := by
  unfold realPathError
  rw [if_pos rfl, Linux.always_freePool]
  refine ⟨hk, ?_⟩
  rcases h with h | h
  · exact .inl ⟨h, rfl⟩
  · exact .inr (by simp [h])

theorem realPathLoop_always {fuel : Nat} {k k0 : Linux} {o : Outcome Name} {s : RpState}
    {start : Bytes} {cur : List Name} (hk : k.core = k0.core)
    (hfuel : realPathMeasure s start < fuel) (h : RpInv k0.fs o s start cur) :
    Linux.faulty.Always (realPathLoop none fuel s start) (RealPathPost k0 o) k := by
  induction fuel generalizing k s start cur with
  | zero => omega
  | succ fuel ih =>
    have hdone : ∀ (s : RpState) (k : Linux) (cur : List Name), k.core = k0.core →
        k0.fs.tree.Canonical cur → Holds s.out cur → o = .found cur →
        Linux.faulty.Always (realPathDone s) (RealPathPost k0 o) k := by
      rintro s k cur hk hcur hs rfl
      refine (realPathDone_always (k0.fs.plain_of_canonical hcur) hs).mono ?_
      rintro _ _ ⟨rfl, rfl⟩
      exact ⟨hk, .inr rfl⟩
    rw [realPathLoop]
    by_cases hstart : start = []
    · rw [if_pos hstart]
      exact hdone s k cur hk h.canonical h.holds (by simp [← h.ends, RpState.walk, hstart])
    rw [if_neg hstart, Env.always_bind]
    have hfs := Linux.fs_eq_of_core hk
    refine (realPathStep_always (hfs ▸ h)).mono fun r k' hr => ?_
    rw [hk, hfs] at hr
    obtain ⟨hk', hr⟩ := hr
    cases r with
    | «break» s =>
      obtain ⟨cur, hcur, hs, ho⟩ := hr
      exact hdone s k' cur hk' hcur hs ho
    | error s => exact realPathError_always hk' hr
    | next s start =>
      obtain ⟨hm, cur, hinv⟩ := hr
      exact ih hk' (by omega) hinv

theorem realPath_always (k : Linux) {name : Bytes} (h : name.head? = some slash) (h0 : 0 ∉ name) :
    Linux.faulty.Always (realPath (some name) none)
      (RealPathPost k (realPathWalk k.fs 40 [] name)) k := by
  have hne : name ≠ [] := by
    rintro rfl
    cases h
  unfold realPath
  dsimp only
  rw [if_neg hne]
  apply Linux.always_allocatePool
  · dsimp only
    rw [if_neg (not_not.mpr h), Linux.always_touch]
    have hinv : RpInv k.fs (realPathWalk k.fs 40 [] name)
        ⟨[slash], k.nextPtr, pathMax, pathMax, 0⟩ name [] :=
      ⟨Nat.zero_le 40, k.fs.tree.canonical_root, .inl rfl, h0, rfl⟩
    exact realPathLoop_always rfl (Nat.lt_succ_self _) hinv
  · exact ⟨rfl, .inl ⟨rfl, rfl⟩⟩

def realPathResult (F : FsTree) (name : Bytes) : Option (List Name) :=
  if name.head? = some slash then (realPathWalk F 40 [] name).path else none

theorem realPath_always_result (k : Linux) {name : Bytes} (h0 : 0 ∉ name) :
    Linux.faulty.Always (realPath (some name) none)
      (fun r k' => k'.core = k.core ∧ (k'.faulted = true ∧ r = none ∨
        r.map Prod.snd = (realPathResult k.fs name).map render)) k := by
  unfold realPathResult
  by_cases h : name.head? = some slash
  · rw [if_pos h]
    exact realPath_always k h h0
  rw [if_neg h]
  unfold realPath
  dsimp only
  by_cases hne : name = []
  · rw [if_pos hne]
    exact ⟨rfl, .inr rfl⟩
  rw [if_neg hne]
  apply Linux.always_allocatePool
  · dsimp only
    rw [if_pos h, realPathError, if_pos rfl, Linux.always_freePool]
    exact ⟨rfl, .inr rfl⟩
  · exact ⟨rfl, .inl ⟨rfl, rfl⟩⟩

theorem walk_of_realPathResult {F : FsTree} {name : Bytes} {q : List Name}
    (h : realPathResult F name = some q) :
    name.head? = some slash ∧ realPathWalk F 40 [] name = .found q := by
  unfold realPathResult at h
  split at h
  · rename_i habs
    refine ⟨habs, ?_⟩
    cases ho : realPathWalk F 40 [] name with
    | found p =>
      rw [ho] at h
      cases h
      rfl
    | missing d a =>
      rw [ho] at h
      cases h
    | fail e =>
      rw [ho] at h
      cases h
  · cases h

theorem realPathResult_canonical {F : FsTree} {name : Bytes} {q : List Name}
    (h : realPathResult F name = some q) : F.tree.Canonical q := by
  have hsound : (realPathWalk F 40 [] name).Sound F.tree ⟨false, true⟩ :=
    walk_sound rfl 40 [] _ F.tree.canonical_root
  rw [(walk_of_realPathResult h).2] at hsound
  exact hsound

theorem realPathResult_length {F : FsTree} {name : Bytes} {q : List Name}
    (h : realPathResult F name = some q) : (render q).length < pathMax := by
  by_cases hne : q = []
  · rw [hne]
    decide
  · have hlook := walk_lookup 40 [] _ (by simp) (walk_of_realPathResult h).2 q
      (List.prefix_refl q) hne
    rw [render_of_ne hne]
    exact of_decide_eq_true hlook

/-- The string `s` is in canonical form and names the object at `q`. -/
structure CanonicalString (F : FsTree) (s : Bytes) (q : List Name) : Prop where
  absolute : s.head? = some slash
  comps : s ≠ [slash] → ∀ c ∈ (components s).tail, c ≠ [] ∧ c ≠ [dot] ∧ c ≠ [dot, dot]
  trailing : s ≠ [slash] → s.getLast? ≠ some slash
  noLink : ∀ p, p <+: q → ∀ i target, F.node p ≠ some (.link i target)
  same : walk F.tree ⟨true, true⟩ .unlimited 40 [] (components s) = .found q

theorem components_render {q : List Name} (hq : q ≠ []) (h : ∀ a ∈ q, slash ∉ a) :
    components (render q) = [] :: q := by
  rw [render_of_ne hq, components_joined h]

theorem FsTree.nul_not_mem_render (F : FsTree) {q : List Name} (hq : F.tree.Canonical q) :
    0 ∉ render q := by
  have h : 0 ∉ joined q := by
    simp only [joined, List.mem_flatMap, List.mem_cons, not_exists, not_and, not_or]
    intro a ha
    have := F.canonical_names hq a ha
    simp_all [validName, slash]
  unfold render
  split
  · decide
  · exact h

/-- The string of a canonical path leads a walker to it, if its limits allow. -/
theorem walk_render {F : FsTree} {m : Mode} {l : Limits Name} {n : Nat} {q : List Name}
    (r : List Name) (hq : F.tree.Canonical q)
    (hl : ∀ t, t <+: q → t ≠ [] → l.lookup t = true) :
    walk F.tree m l n [] (components (render q) ++ r) = walk F.tree m l n q r := by
  have hroot := (F.tree.isDir_iff []).mpr F.tree.root
  by_cases hne : q = []
  · subst hne
    rw [render_nil, components_cons_slash, components_nil, List.cons_append, List.singleton_append,
      walk_here (fun _ => hroot) rfl, walk_here (fun _ => hroot) rfl]
  · rw [components_render hne fun a ha => (F.plain_of_canonical hq a ha).1, List.cons_append,
      walk_here (fun _ => hroot) rfl, walk_canonical r hq hl]

theorem walk_render_self {F : FsTree} {m : Mode} {l : Limits Name} {n : Nat} {q : List Name}
    (hq : F.tree.Canonical q) (hl : ∀ t, t <+: q → t ≠ [] → l.lookup t = true) :
    walk F.tree m l n [] (components (render q)) = .found q := by
  rw [← List.append_nil (components (render q)), walk_render [] hq hl, walk_nil]

theorem FsTree.canonicalString_render (F : FsTree) {q : List Name} (hq : F.tree.Canonical q) :
    CanonicalString F (render q) q := by
  have hplain := F.plain_of_canonical hq
  refine ⟨?_, fun hs c hc => ?_, fun hs => ?_, ?_, walk_render_self hq fun _ _ _ => rfl⟩
  · cases q <;> simp [render, joined_cons]
  · have hne : q ≠ [] := by
      rintro rfl
      exact hs rfl
    rw [components_render hne fun a ha => (hplain a ha).1, List.tail_cons] at hc
    exact kind_name_iff.mp (hq.names c hc)
  · have hne : q ≠ [] := by
      rintro rfl
      exact hs rfl
    obtain ⟨p, c, rfl⟩ := (List.eq_nil_or_concat' q).resolve_left hne
    rw [render_of_ne hne]
    exact joined_getLast (hplain c (by simp)).1 (hplain c (by simp)).2
  · rintro p ⟨t, rfl⟩ i target hn
    obtain ⟨e, he, hlink⟩ := hq.object
    by_cases ht : t = []
    · rw [ht, List.append_nil, FsTree.tree_entry, hn] at he
      obtain rfl := Option.some.inj he
      cases hlink
    · have hp := F.tree.dir_of_below ht (by rw [he]; simp)
      rw [FsTree.tree_entry, hn] at hp
      cases hp

/-- Where resolution reaches an object within the limits, `RealPath` returns its
canonical path, and returns that path unchanged when applied again. -/
theorem realPath_canonical (k : Linux) (name : Bytes) (q : List Name)
    (habs : name.head? = some slash) (h0 : 0 ∉ name)
    (hw : walk k.fs.tree ⟨true, true⟩ .unlimited 40 [] (components name) = .found q)
    (hl : walk k.fs.tree ⟨true, true⟩ realPathLimits 40 [] (components name) ≠ .fail .tooLong) :
    Linux.faulty.Always (realPath (some name) none)
        (fun r k' => k'.faulted = true ∨ ∃ p, r = some (p, render q)) k ∧
      CanonicalString k.fs (render q) q ∧
      Linux.faulty.Always (realPath (some (render q)) none)
        (fun r k' => k'.faulted = true ∨ ∃ p, r = some (p, render q)) k := by
  have hfound : walk k.fs.tree ⟨true, true⟩ realPathLimits 40 [] (components name) = .found q :=
    (walk_limits 40 [] (components name) hl).trans hw
  have hcanon : k.fs.tree.Canonical q := by
    have hsound : (Outcome.found q).Sound k.fs.tree ⟨true, true⟩ :=
      hw ▸ walk_sound rfl 40 [] (components name) k.fs.tree.canonical_root
    exact hsound
  have hagain : realPathWalk k.fs 40 [] (render q) = .found q :=
    walk_render_self hcanon (walk_lookup 40 [] (components name) (by simp) hfound)
  have hstring := k.fs.canonicalString_render hcanon
  have hpost : ∀ s, realPathWalk k.fs 40 [] s = .found q → ∀ r k',
      RealPathPost k (realPathWalk k.fs 40 [] s) r k' →
        k'.faulted = true ∨ ∃ p, r = some (p, render q) := by
    rintro s hs r k' ⟨-, ⟨hfault, -⟩ | hr⟩
    · exact .inl hfault
    · rw [hs, Outcome.path, Option.map_some, Option.map_eq_some_iff] at hr
      obtain ⟨⟨p, _⟩, rfl, rfl⟩ := hr
      exact .inr ⟨p, rfl⟩
  have hnul : 0 ∉ render q := k.fs.nul_not_mem_render hcanon
  exact ⟨(realPath_always k habs h0).mono (hpost name (walk_lenient 40 [] _ hfound)), hstring,
    (realPath_always k hstring.absolute hnul).mono (hpost _ hagain)⟩

def linkedTree : FsTree :=
  (FsTree.empty.insert [] (ascii ['a']) (.dir 1)).insert [] (ascii ['b'])
    (.link 2 (ascii ['.', '/', 'a']))

theorem realPath_canonical_link :
    walk linkedTree.tree ⟨true, true⟩ .unlimited 40 []
        (components (ascii ['/', 'b', '/', '.', '.', '/', '/', 'b'])) = .found [ascii ['a']] ∧
      Linux.faulty.Always (realPath (some (ascii ['/', 'b', '/', '.', '.', '/', '/', 'b'])) none)
        (fun r k' => k'.faulted = true ∨ ∃ p, r = some (p, ascii ['/', 'a']))
        { Linux.boot with fs := linkedTree } := by
  have hw : walk linkedTree.tree ⟨true, true⟩ .unlimited 40 []
      (components (ascii ['/', 'b', '/', '.', '.', '/', '/', 'b'])) = .found [ascii ['a']] := by
    decide
  exact ⟨hw, (realPath_canonical { Linux.boot with fs := linkedTree } _ _ (by decide) (by decide)
    hw (by decide)).1⟩

theorem realPathUp_plain (s : RpState) : (realPathUp s).Only fun c => c.plain = true := by
  unfold realPathUp
  split
  · exact ⟨rfl, fun _ => trivial⟩
  · trivial

theorem realPathError_plain (resolved : Option Ptr) (s : RpState) :
    (realPathError resolved s).Only fun c => c.plain = true := by
  unfold realPathError
  split
  · exact ⟨rfl, fun _ => trivial⟩
  · trivial

theorem realPathDone_plain (s : RpState) :
    (realPathDone s).Only fun c => c.plain = true :=
  ⟨rfl, fun _ => trivial⟩

theorem realPathGrow_plain (resolved : Option Ptr) (s : RpState) (len : Nat) :
    (realPathGrow resolved s len).Only fun c => c.plain = true := by
  unfold realPathGrow
  split
  · split
    · exact ⟨rfl, fun _ => trivial⟩
    · refine Prog.only_ask_bind.mpr ⟨rfl, fun x => ?_⟩
      cases x <;> trivial
  · trivial

theorem realPathLink_plain (s : RpState) (rest : Bytes) :
    (realPathLink s rest).Only fun c => c.plain = true := by
  unfold realPathLink
  split
  · trivial
  · refine Prog.only_ask_bind.mpr ⟨rfl, fun x => ?_⟩
    cases x with
    | error rc => trivial
    | ok buf =>
      refine Prog.only_ask_bind.mpr ⟨rfl, fun _ => ?_⟩
      split
      · trivial
      · refine Prog.only_ask_bind.mpr ⟨rfl, fun _ => ?_⟩
        dsimp only
        split
        · trivial
        · exact (realPathUp_plain _).bind fun _ => trivial

theorem realPathComponent_plain (resolved : Option Ptr) (s : RpState) (comp rest : Bytes) :
    (realPathComponent resolved s comp rest).Only fun c => c.plain = true := by
  unfold realPathComponent realPathSlash
  refine Prog.Only.bind ?_ fun s => (realPathGrow_plain _ _ _).bind fun g => ?_
  · split
    · exact ⟨rfl, fun _ => trivial⟩
    · trivial
  · cases g with
    | none => trivial
    | some s =>
      refine Prog.only_ask_bind.mpr ⟨rfl, fun _ => Prog.only_ask_bind.mpr ⟨rfl, fun x => ?_⟩⟩
      split
      split
      · trivial
      · split
        · exact realPathLink_plain _ _
        · trivial

theorem realPathStep_plain (resolved : Option Ptr) (s : RpState) (start : Bytes) :
    (realPathStep resolved s start).Only fun c => c.plain = true := by
  unfold realPathStep
  dsimp only
  split
  · trivial
  · split
    · trivial
    · split
      · exact (realPathUp_plain s).bind fun _ => trivial
      · exact realPathComponent_plain _ _ _ _

theorem realPathLoop_plain (resolved : Option Ptr) (fuel : Nat) (s : RpState) (start : Bytes) :
    (realPathLoop resolved fuel s start).Only fun c => c.plain = true := by
  induction fuel generalizing s start with
  | zero => trivial
  | succ fuel ih =>
    unfold realPathLoop
    split
    · exact realPathDone_plain s
    · refine (realPathStep_plain resolved s start).bind fun step => ?_
      cases step with
      | «break» s => exact realPathDone_plain s
      | error s => exact realPathError_plain resolved s
      | next s start => exact ih s start

theorem realPath_plain (name : Option Bytes) (resolved : Option Ptr) :
    (realPath name resolved).Only fun c => c.plain = true := by
  unfold realPath
  split
  · trivial
  · split
    · trivial
    · refine Prog.Only.bind ?_ fun r => ?_
      · cases resolved with
        | none => exact ⟨rfl, fun _ => trivial⟩
        | some p => trivial
      · cases r with
        | none => trivial
        | some rpath =>
          dsimp only
          split
          · exact realPathError_plain _ _
          · exact Prog.only_ask_bind.mpr ⟨rfl, fun _ => realPathLoop_plain _ _ _ _⟩

theorem realPath_passive (name : Option Bytes) (resolved : Option Ptr) :
    (realPath name resolved).Only fun c => c.passive = true :=
  (realPath_plain name resolved).mono fun _ => Call.passive_of_plain

end UefiLkl
