import Mathlib.Algebra.GroupWithZero.Nat
import Mathlib.Data.List.Basic
import Mathlib.Logic.Function.Basic
set_option autoImplicit false

/-!
Memories addressed by numbers: ranges that are read and written, and lists of ranges
that are gathered from and scattered to.
-/

namespace UefiLkl.FlatMemory

variable {β : Type}

def load (m : Nat → β) (a : Nat) : Nat → List β
  | 0 => []
  | n + 1 => m a :: load m (a + 1) n

def store (m : Nat → β) (a : Nat) : List β → Nat → β
  | [] => m
  | b :: bs => store (Function.update m a b) (a + 1) bs

@[simp] theorem load_zero (m : Nat → β) (a : Nat) : load m a 0 = [] := rfl

@[simp] theorem length_load (m : Nat → β) (a n : Nat) : (load m a n).length = n := by
  induction n generalizing a with
  | zero => rfl
  | succ n ih => simp [load, ih]

theorem load_add (m : Nat → β) (a n k : Nat) :
    load m a (n + k) = load m a n ++ load m (a + n) k := by
  induction n generalizing a with
  | zero => simp
  | succ n ih =>
    have hsplit := ih (a + 1)
    rw [Nat.succ_add]
    simp only [load, List.cons_append, hsplit]
    congr 3
    omega

theorem load_congr {m m' : Nat → β} {a n : Nat} (h : ∀ x, a ≤ x → x < a + n → m x = m' x) :
    load m a n = load m' a n := by
  induction n generalizing a with
  | zero => rfl
  | succ n ih =>
    have hhead := h a (Nat.le_refl a) (by omega)
    have htail := ih (a := a + 1) fun x hx hlt => h x (by omega) (by omega)
    simp [load, hhead, htail]

@[simp] theorem store_nil (m : Nat → β) (a : Nat) : store m a [] = m := rfl

theorem store_append (m : Nat → β) (a : Nat) (bs cs : List β) :
    store m a (bs ++ cs) = store (store m a bs) (a + bs.length) cs := by
  induction bs generalizing m a with
  | nil => rfl
  | cons b bs ih =>
    simp only [List.cons_append, store, ih, List.length_cons]
    congr 1
    omega

theorem store_of_outside {m : Nat → β} {a x : Nat} {bs : List β}
    (h : x < a ∨ a + bs.length ≤ x) : store m a bs x = m x := by
  induction bs generalizing m a with
  | nil => rfl
  | cons b bs ih =>
    simp only [List.length_cons] at h
    have hne : x ≠ a := by omega
    rw [store, ih (by omega), Function.update_of_ne hne]

theorem load_store_same {m : Nat → β} {a n : Nat} {bs : List β} (hlen : bs.length = n) :
    load (store m a bs) a n = bs := by
  subst hlen
  induction bs generalizing m a with
  | nil => rfl
  | cons b bs ih =>
    have hhead : store (Function.update m a b) (a + 1) bs a = b := by
      rw [store_of_outside (by omega), Function.update_self]
    simp [load, store, hhead, ih]

structure Range where
  base : Nat
  len : Nat
  deriving DecidableEq, Repr

def Range.Disjoint (r s : Range) : Prop := r.base + r.len ≤ s.base ∨ s.base + s.len ≤ r.base

def Range.Holds (r : Range) (x : Nat) : Prop := r.base ≤ x ∧ x < r.base + r.len

instance (r s : Range) : Decidable (r.Disjoint s) := inferInstanceAs (Decidable (_ ∨ _))

def total (rs : List Range) : Nat := (rs.map Range.len).sum

@[simp] theorem total_nil : total [] = 0 := rfl

@[simp] theorem total_cons (r : Range) (rs : List Range) : total (r :: rs) = r.len + total rs := by
  simp [total]

/-- What the ranges hold, one after the other. -/
def gather (m : Nat → β) : List Range → List β
  | [] => []
  | r :: rs => load m r.base r.len ++ gather m rs

/-- The ranges are filled one after the other. -/
def scatter (m : Nat → β) : List Range → List β → Nat → β
  | [], _ => m
  | r :: rs, bs => scatter (store m r.base (bs.take r.len)) rs (bs.drop r.len)

@[simp] theorem length_gather (m : Nat → β) (rs : List Range) :
    (gather m rs).length = total rs := by
  induction rs with
  | nil => rfl
  | cons r rs ih => simp [gather, ih]

theorem scatter_cons_append {m : Nat → β} {r : Range} {rs : List Range} {bs cs : List β}
    (hlen : bs.length = r.len) :
    scatter m (r :: rs) (bs ++ cs) = scatter (store m r.base bs) rs cs := by
  simp [scatter, ← hlen]

theorem scatter_of_outside {m : Nat → β} {rs : List Range} {bs : List β} {x : Nat}
    (h : ∀ r ∈ rs, ¬r.Holds x) : scatter m rs bs x = m x := by
  induction rs generalizing m bs with
  | nil => rfl
  | cons r rs ih =>
    have hr := h r List.mem_cons_self
    have hlen := List.length_take_le r.len bs
    rw [scatter, ih fun s hs => h s (List.mem_cons_of_mem r hs)]
    refine store_of_outside ?_
    simp only [Range.Holds] at hr
    omega

theorem load_scatter_of_disjoint {m : Nat → β} {r : Range} {rs : List Range} {bs : List β}
    (h : ∀ s ∈ rs, r.Disjoint s) : load (scatter m rs bs) r.base r.len = load m r.base r.len := by
  refine load_congr fun x hx hlt => scatter_of_outside fun s hs hholds => ?_
  have hdisjoint := h s hs
  simp only [Range.Disjoint, Range.Holds] at hdisjoint hholds
  omega

/-- Ranges apart from each other hold afterwards what was scattered. -/
theorem gather_scatter {m : Nat → β} {rs : List Range} {bs : List β}
    (h : rs.Pairwise Range.Disjoint) (hlen : bs.length = total rs) :
    gather (scatter m rs bs) rs = bs := by
  induction rs generalizing m bs with
  | nil => simpa [gather] using hlen
  | cons r rs ih =>
    obtain ⟨hr, hrs⟩ := List.pairwise_cons.mp h
    rw [total_cons] at hlen
    have htake : (bs.take r.len).length = r.len := by
      rw [List.length_take]
      omega
    have hhead : load (scatter (store m r.base (bs.take r.len)) rs (bs.drop r.len)) r.base r.len =
        bs.take r.len := by
      rw [load_scatter_of_disjoint hr, load_store_same htake]
    have hdrop : (bs.drop r.len).length = total rs := by
      rw [List.length_drop]
      omega
    rw [gather, scatter, hhead, ih hrs hdrop, List.take_append_drop]

end UefiLkl.FlatMemory
