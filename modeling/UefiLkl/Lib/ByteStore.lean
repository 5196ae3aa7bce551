import Mathlib.Data.List.Induction
import Mathlib.Logic.Function.Basic
set_option autoImplicit false

/-!
Files that are sequences of bytes, and cursors into them: what each access does, and what a
history of accesses leaves at every position.
-/

namespace UefiLkl.ByteStore

variable {α ι κ : Type}

/-- The first `n` bytes, with `zero` after the end. -/
def resize (zero : α) (data : List α) (n : Nat) : List α :=
  (List.range n).map fun j => data[j]?.getD zero

/-- `new` written over `data` from `pos` on; what lies between the end and `pos` is `zero`. -/
def splice (zero : α) (data : List α) (pos : Nat) (new : List α) : List α :=
  resize zero data pos ++ new ++ data.drop (pos + new.length)

section Sequences

variable {zero : α} {data new : List α} {pos n j : Nat}

@[simp] theorem length_resize : (resize zero data n).length = n := by
  simp [resize]

theorem getD_resize :
    (resize zero data n)[j]?.getD zero = if j < n then data[j]?.getD zero else zero := by
  by_cases hj : j < n <;> simp [resize, hj]

@[simp] theorem resize_length : resize zero data data.length = data := by
  refine List.ext_getElem length_resize fun j hj hj' => ?_
  simp [resize, hj']

@[simp] theorem length_splice :
    (splice zero data pos new).length = max data.length (pos + new.length) := by
  simp only [splice, List.length_append, length_resize, List.length_drop]
  omega

theorem getD_splice :
    (splice zero data pos new)[j]?.getD zero =
      if pos ≤ j ∧ j < pos + new.length then new[j - pos]?.getD zero
      else data[j]?.getD zero := by
  simp only [splice, List.append_assoc]
  by_cases hlow : j < pos
  · rw [List.getElem?_append_left (by simpa using hlow), if_neg (by omega), getD_resize,
      if_pos hlow]
  rw [List.getElem?_append_right (by simpa using Nat.not_lt.mp hlow), length_resize]
  by_cases hhigh : j < pos + new.length
  · rw [List.getElem?_append_left (by omega), if_pos ⟨Nat.not_lt.mp hlow, hhigh⟩]
  · rw [List.getElem?_append_right (by omega), if_neg (by omega), List.getElem?_drop]
    congr 2
    omega

theorem ext_getD (zero : α) {data' : List α} (hlength : data.length = data'.length)
    (h : ∀ j : Nat, data[j]?.getD zero = data'[j]?.getD zero) : data = data' := by
  refine List.ext_getElem hlength fun j hj hj' => ?_
  simpa [hj, hj'] using h j

theorem getD_drop_take (hj : j < n) :
    ((data.drop pos).take n)[j]?.getD zero = data[pos + j]?.getD zero := by
  simp [hj, List.getElem?_drop]

end Sequences

structure Cursor (ι : Type) where
  file : ι
  pos : Nat
  writable : Bool
  deriving DecidableEq, Repr

@[ext] structure Store (α ι κ : Type) where
  bytes : ι → List α
  cursor : κ → Option (Cursor ι)

/-- What was done, with the place in the file where the cursor was. -/
inductive Access (α ι κ : Type) where
  | read (c : κ) (i : ι) (pos len : Nat) (data : List α)
  | write (c : κ) (i : ι) (pos : Nat) (data : List α)
  | seek (c : κ) (i : ι) (pos : Nat)
  | tell (c : κ) (i : ι) (pos : Nat)
  | resized (c : κ) (i : ι) (len : Nat)
  | made (i : ι)
  | opened (c : κ) (i : ι) (writable : Bool)
  | closed (c : κ)
  deriving DecidableEq, Repr

section Accesses

variable [DecidableEq ι] [DecidableEq κ]

def Store.put (S : Store α ι κ) (i : ι) (data : List α) : Store α ι κ :=
  { S with bytes := Function.update S.bytes i data }

def Store.setCursor (S : Store α ι κ) (c : κ) (o : Option (Cursor ι)) : Store α ι κ :=
  { S with cursor := Function.update S.cursor c o }

/-- The cursor of the access goes to `pos`, and stays on its file. -/
def Store.move (S : Store α ι κ) (c : κ) (pos : Nat) : Store α ι κ :=
  S.setCursor c ((S.cursor c).map fun o => { o with pos := pos })

def Access.apply (zero : α) (S : Store α ι κ) : Access α ι κ → Store α ι κ
  | .read c _ pos _ data => S.move c (pos + data.length)
  | .write c i pos data => (S.put i (splice zero (S.bytes i) pos data)).move c (pos + data.length)
  | .seek c _ pos => S.move c pos
  | .tell _ _ _ => S
  | .resized _ i len => S.put i (resize zero (S.bytes i) len)
  | .made i => S.put i []
  | .opened c i writable => S.setCursor c (some ⟨i, 0, writable⟩)
  | .closed c => S.setCursor c none

/-- The access is one that the store allows, and gives what the store holds. -/
def Access.Fits (S : Store α ι κ) : Access α ι κ → Prop
  | .read c i pos len data =>
    (∃ writable, S.cursor c = some ⟨i, pos, writable⟩) ∧ data = ((S.bytes i).drop pos).take len
  | .write c i pos _ => S.cursor c = some ⟨i, pos, true⟩
  | .seek c i _ => ∃ pos writable, S.cursor c = some ⟨i, pos, writable⟩
  | .tell c i pos => ∃ writable, S.cursor c = some ⟨i, pos, writable⟩
  | .resized c i len => ∃ pos writable, S.cursor c = some ⟨i, pos, writable⟩ ∧
    (writable = true ∨ len = (S.bytes i).length)
  | .made i => ∀ c o, S.cursor c = some o → o.file ≠ i
  | .opened c _ _ => S.cursor c = none
  | .closed _ => True

/-- All the accesses fit, one after the other, and lead from one store to the other. -/
inductive Store.Run (zero : α) : Store α ι κ → List (Access α ι κ) → Store α ι κ → Prop where
  | nil (S : Store α ι κ) : Run zero S [] S
  | snoc {S S' : Store α ι κ} {as : List (Access α ι κ)} {a : Access α ι κ}
      (hrun : Run zero S as S') (hfits : a.Fits S') : Run zero S (as ++ [a]) (a.apply zero S')

/-- The byte that the access leaves at position `p` of file `i`, where there was `b`. -/
def Access.leaves (zero : α) (i : ι) (p : Nat) (b : α) : Access α ι κ → α
  | .write _ i' pos data =>
    if i' = i ∧ pos ≤ p ∧ p < pos + data.length then data.getD (p - pos) zero else b
  | .resized _ i' len => if i' = i ∧ len ≤ p then zero else b
  | .made i' => if i' = i then zero else b
  | _ => b

section Laws

variable {zero : α} {S S' S'' : Store α ι κ} {as bs : List (Access α ι κ)} {a : Access α ι κ}
  {c c' : κ} {i : ι} {o : Option (Cursor ι)} {pos : Nat} {data : List α}

omit [DecidableEq κ] in
@[simp] theorem Store.put_self : S.put i (S.bytes i) = S := by
  simp [Store.put]

omit [DecidableEq ι] in
theorem Store.move_self (h : ∀ o, S.cursor c = some o → o.pos = pos) : S.move c pos = S := by
  have hself : (S.cursor c).map (fun o => { o with pos := pos }) = S.cursor c := by
    cases ho : S.cursor c with
    | none => rfl
    | some o => rw [Option.map_some, ← h o ho]
  simp only [Store.move, Store.setCursor]
  rw [hself, Function.update_eq_self]

theorem Access.bytes_apply (a : Access α ι κ) (S : Store α ι κ) (i : ι) (p : Nat) :
    ((a.apply zero S).bytes i)[p]?.getD zero =
      a.leaves zero i p ((S.bytes i)[p]?.getD zero) := by
  have hput : ∀ (i' : ι) (data : List α), (S.put i' data).bytes i =
      if i' = i then data else S.bytes i := by
    intro i' data
    by_cases hi : i' = i
    · subst hi
      simp [Store.put]
    · simp [Store.put, hi, Ne.symm hi]
  cases a with
  | write c i' pos data =>
    change ((S.put i' _).bytes i)[p]?.getD zero = _
    rw [hput]
    by_cases hi : i' = i
    · subst hi
      rw [if_pos rfl, getD_splice]
      simp [Access.leaves]
    · simp [Access.leaves, hi]
  | resized c i' len =>
    change ((S.put i' _).bytes i)[p]?.getD zero = _
    rw [hput]
    by_cases hi : i' = i
    · subst hi
      rw [if_pos rfl, getD_resize]
      by_cases hp : p < len
      · simp [Access.leaves, hp, Nat.not_le.mpr hp]
      · simp [Access.leaves, hp, Nat.not_lt.mp hp]
    · simp [Access.leaves, hi]
  | made i' =>
    change ((S.put i' _).bytes i)[p]?.getD zero = _
    rw [hput]
    by_cases hi : i' = i <;> simp [Access.leaves, hi]
  | _ => rfl

theorem Store.Run.single (h : a.Fits S) : Store.Run zero S [a] (a.apply zero S) :=
  .snoc (.nil S) h

theorem Store.Run.trans (h : Store.Run zero S as S') (h' : Store.Run zero S' bs S'') :
    Store.Run zero S (as ++ bs) S'' := by
  induction h' with
  | nil => simpa using h
  | snoc _ hfits ih =>
    rw [← List.append_assoc]
    exact .snoc ih hfits

theorem Store.Run.made {is : List ι} (h : ∀ i ∈ is, ∀ c o, S.cursor c = some o → o.file ≠ i) :
    Store.Run zero S (is.map .made) ⟨fun i => if i ∈ is then [] else S.bytes i, S.cursor⟩ := by
  induction is using List.reverseRecOn with
  | nil => simpa using Store.Run.nil S
  | append_singleton is i ih =>
    have hrun := ih fun j hj => h j (by simp [hj])
    rw [List.map_append, List.map_singleton]
    convert hrun.snoc (a := .made i) (h i (by simp)) using 1
    refine Store.ext (funext fun j => ?_) rfl
    by_cases hj : j = i <;> simp [Access.apply, Store.put, hj]

theorem Store.Run.last (h : Store.Run zero S (as ++ [a]) S'') :
    ∃ S', Store.Run zero S as S' ∧ a.Fits S' ∧ S'' = a.apply zero S' := by
  generalize hbs : as ++ [a] = bs at h
  cases h with
  | nil => simp at hbs
  | snoc hrun hfits =>
    obtain ⟨rfl, ha⟩ := List.append_inj' hbs rfl
    cases ha
    exact ⟨_, hrun, hfits, rfl⟩

theorem Store.Run.split (h : Store.Run zero S (as ++ bs) S'') :
    ∃ S', Store.Run zero S as S' ∧ Store.Run zero S' bs S'' := by
  induction bs using List.reverseRecOn generalizing S'' with
  | nil => exact ⟨S'', by simpa using h, .nil S''⟩
  | append_singleton bs a ih =>
    rw [← List.append_assoc] at h
    obtain ⟨S₁, hrun, hfits, rfl⟩ := h.last
    obtain ⟨S', hS', hrest⟩ := ih hrun
    exact ⟨S', hS', .snoc hrest hfits⟩

/-- What is at a position is what the accesses left there, in their order. -/
theorem Store.Run.bytes (h : Store.Run zero S as S') (i : ι) (p : Nat) :
    (S'.bytes i)[p]?.getD zero =
      as.foldl (fun b a => a.leaves zero i p b) ((S.bytes i)[p]?.getD zero) := by
  induction h with
  | nil => rfl
  | snoc _ _ ih =>
    rw [List.foldl_append, ← ih]
    exact Access.bytes_apply _ _ i p

/-- Whoever reads gets the bytes that were last written at that place, through any cursor. -/
theorem Store.Run.read {len : Nat} (h : Store.Run zero S (as ++ .read c i pos len data :: bs) S')
    {j : Nat} (hj : j < data.length) :
    data[j]?.getD zero =
      as.foldl (fun b a => a.leaves zero i (pos + j) b) ((S.bytes i)[pos + j]?.getD zero) := by
  rw [List.append_cons] at h
  obtain ⟨S₂, hread, -⟩ := h.split
  obtain ⟨S₁, hbefore, hfits, -⟩ := hread.last
  have hlen : j < len := by
    rw [hfits.2, List.length_take] at hj
    omega
  rw [← hbefore.bytes, hfits.2, getD_drop_take hlen]

end Laws

end Accesses

end UefiLkl.ByteStore
