import UefiLkl.Lib.PathWalk
import Mathlib.Data.List.DropRight
set_option autoImplicit false

/-!
The string helpers of the driver. A C string is the list of its bytes before the
terminator.
-/

namespace UefiLkl
open PathWalk

abbrev Bytes := List UInt8

def slash : UInt8 := 47
def backslash : UInt8 := 92
def dot : UInt8 := 46

def ascii (cs : List Char) : Bytes := cs.map fun c => c.toNat.toUInt8

/-- The low eight bits of every character. -/
def unicodeStrToAsciiStr (s : List UInt16) : Bytes := (s.takeWhile (· != 0)).map UInt16.toUInt8

/-- What a reader of the buffer sees: the bytes before the first terminator. -/
def cString (b : Bytes) : Bytes := b.takeWhile (· != 0)

theorem nul_not_mem_cString (b : Bytes) : 0 ∉ cString b := by
  intro h
  simpa using List.mem_takeWhile_imp h

theorem cString_eq_self {s : Bytes} (h : 0 ∉ s) : cString s = s := by
  rw [cString, List.takeWhile_eq_self_iff]
  intro x hx
  simpa using fun h0 : x = 0 => h (h0 ▸ hx)

/-- A character array that is read as a string. -/
abbrev CString := {s : Bytes // 0 ∉ s}

def CString.of (b : Bytes) : CString := ⟨cString b, nul_not_mem_cString b⟩

def pathToUnixAscii (fname : Bytes) : Bytes :=
  fname.map fun c => if c = backslash then slash else c

/-- The loop stops at index zero, so the first byte always stays. -/
def removeTrailingSlashes : Bytes → Bytes
  | [] => []
  | c :: s => c :: s.rdropWhile (· == slash)

/-- `for (; i && s[i-1]!='/'; i--)` -/
def basenameFrom (s : Bytes) : Nat → Nat
  | 0 => 0
  | i+1 => if s[i]? = some slash then i+1 else basenameFrom s i

/-- The offset of the pointer that the source returns. -/
def getBasenamePtr (s : Bytes) : Nat := basenameFrom s (s.length - 1)

/-- `AsciiStrnCmp (pre, str, AsciiStrLen(pre)) == 0` -/
def startsWith (str pre : Bytes) : Bool := pre.isPrefixOf str

theorem startsWith_iff {str pre : Bytes} : startsWith str pre = true ↔ pre <+: str := by
  simp [startsWith]

abbrev Name := Bytes

/-- An empty component and "." stay where they are. -/
instance : PathName Name where
  kind c := if c = [] ∨ c = [dot] then .here else if c = [dot, dot] then .up else .name

theorem kind_here_iff {c : Name} : PathName.kind c = .here ↔ c = [] ∨ c = [dot] := by
  simp only [PathName.kind]
  split
  · simp_all
  · split <;> simp_all

theorem kind_up_iff {c : Name} : PathName.kind c = .up ↔ c = [dot, dot] := by
  simp only [PathName.kind]
  split
  · rename_i h
    rcases h with rfl | rfl <;> decide
  · split <;> simp_all

theorem kind_name_iff {c : Name} :
    PathName.kind c = .name ↔ c ≠ [] ∧ c ≠ [dot] ∧ c ≠ [dot, dot] := by
  simp only [PathName.kind]
  split
  · rename_i h
    rcases h with rfl | rfl <;> simp
  · split <;> simp_all

/-- What stands between the separators, the empty strings included. -/
def components (s : Bytes) : List Name := s.splitOn slash

/-- The components put back behind separators: "/a/b". -/
def joined (p : List Name) : Bytes := p.flatMap (slash :: ·)

/-- The string of a canonical path. -/
def render (p : List Name) : Bytes := if p = [] then [slash] else joined p

@[simp] theorem joined_nil : joined [] = [] := rfl

@[simp] theorem joined_append (p q : List Name) : joined (p ++ q) = joined p ++ joined q := by
  simp [joined]

@[simp] theorem joined_singleton (a : Name) : joined [a] = slash :: a := by
  simp [joined]

theorem joined_cons (a : Name) (p : List Name) : joined (a :: p) = slash :: a ++ joined p := by
  simp [joined]

@[simp] theorem render_nil : render [] = [slash] := rfl

theorem render_of_ne {p : List Name} (h : p ≠ []) : render p = joined p := if_neg h

@[simp] theorem render_snoc (p : List Name) (a : Name) :
    render (p ++ [a]) = joined p ++ slash :: a := by
  simp [render]

theorem components_ne_nil (s : Bytes) : components s ≠ [] := List.splitOn_ne_nil _ _

@[simp] theorem components_nil : components [] = [[]] := rfl

theorem components_cons_slash (s : Bytes) : components (slash :: s) = [] :: components s := by
  simpa [components] using List.splitOn_append_cons_self (a := slash) [] s

theorem components_append_slash (s t : Bytes) :
    components (s ++ slash :: t) = components s ++ components t :=
  List.splitOn_append_cons_self s t

theorem components_of_not_mem {c : Name} (h : slash ∉ c) : components c = [c] :=
  List.splitOn_eq_singleton h

theorem components_append_of_not_mem {c : Name} (h : slash ∉ c) (t : Bytes) :
    components (c ++ slash :: t) = c :: components t :=
  List.splitOn_append_cons_self_of_not_mem h t

theorem components_joined {p : List Name} (h : ∀ a ∈ p, slash ∉ a) :
    components (joined p) = [] :: p := by
  induction p with
  | nil => rfl
  | cons a p ih =>
    have ha : slash ∉ a := h a (by simp)
    have hp := ih fun b hb => h b (by simp [hb])
    rw [joined_cons, List.cons_append, components_cons_slash]
    cases p with
    | nil => simp [components_of_not_mem ha]
    | cons b p =>
      rw [joined_cons, List.cons_append, components_append_of_not_mem ha]
      rw [joined_cons, List.cons_append, components_cons_slash] at hp
      rw [List.cons.inj hp |>.2]

@[simp] theorem joined_components (s : Bytes) : joined (components s) = slash :: s := by
  induction s with
  | nil => rfl
  | cons x s ih =>
    by_cases hx : x = slash
    · rw [hx, components_cons_slash, joined_cons, ih]
      rfl
    · have hcons : components (x :: s) = (components s).modifyHead (x :: ·) := by
        simp [components, List.splitOn_cons_eq_if_modifyHead, hx]
      obtain ⟨y, ys, hys⟩ := List.exists_cons_of_ne_nil (components_ne_nil s)
      rw [hys, joined_cons, List.cons_append] at ih
      rw [hcons, hys, List.modifyHead_cons, joined_cons, List.cons_append, List.cons_append,
        List.cons.inj ih |>.2]

/-- What may follow a component: nothing, or a separator. -/
def AtSeparator (rest : Bytes) : Prop := rest = [] ∨ ∃ t, rest = slash :: t

theorem atSeparator_dropWhile (s : Bytes) : AtSeparator (s.dropWhile (· != slash)) := by
  induction s with
  | nil => exact .inl rfl
  | cons x s ih =>
    by_cases hx : x = slash
    · exact .inr ⟨s, by simp [hx]⟩
    · simpa [hx] using ih

theorem components_atSeparator {rest : Bytes} (h : AtSeparator rest) :
    components rest = [] :: (components rest).tail := by
  rcases h with rfl | ⟨t, rfl⟩
  · rfl
  · rw [components_cons_slash, List.tail_cons]

theorem joined_tail_components {rest : Bytes} (h : AtSeparator rest) :
    joined (components rest).tail = rest := by
  have hr := joined_components rest
  rw [components_atSeparator h, joined_cons] at hr
  simpa using hr

theorem components_append {rest : Bytes} (s : Bytes) (h : AtSeparator rest) :
    components (s ++ rest) = components s ++ (components rest).tail := by
  rcases h with rfl | ⟨t, rfl⟩
  · simp
  · rw [components_append_slash, components_cons_slash, List.tail_cons]

end UefiLkl
