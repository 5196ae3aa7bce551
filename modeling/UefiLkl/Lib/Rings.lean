import Mathlib.Data.List.Cycle
set_option autoImplicit false

/-!
Nodes that point to a node before and a node after them: rings of such nodes, and lists that
are kept as rings, each behind a head of its own.
-/

namespace UefiLkl.LinkedRing

structure Links (ν : Type) where
  prev : ν → Option ν
  next : ν → Option ν

section Ring

variable {ν : Type}

def Links.Joined (m : Links ν) (a b : ν) : Prop := m.next a = some b ∧ m.prev b = some a

/-- From each node to the next, and from the last to the first; no node comes twice. -/
def Links.Ring (m : Links ν) (c : Cycle ν) : Prop := c.Nodup ∧ c.Chain m.Joined

variable {m m' : Links ν} {a b x : ν} {l : List ν}

theorem chain_frame (h : l.IsChain m.Joined) (hnext : ∀ y ∈ l.dropLast, m'.next y = m.next y)
    (hprev : ∀ y ∈ l.tail, m'.prev y = m.prev y) : l.IsChain m'.Joined := by
  induction l with
  | nil => exact .nil
  | cons y l ih =>
    cases l with
    | nil => exact .singleton y
    | cons z l =>
      obtain ⟨hyz, hz⟩ := List.isChain_cons_cons.mp h
      refine List.isChain_cons_cons.mpr ⟨⟨?_, ?_⟩, ih hz (fun u hu => hnext u ?_)
        fun u hu => hprev u ?_⟩
      · rw [hnext y (by simp), hyz.1]
      · rw [hprev z (by simp), hyz.2]
      · simp [hu]
      · exact List.mem_cons_of_mem z hu

theorem Links.Ring.frame {c : Cycle ν} (h : m.Ring c) (hnext : ∀ y ∈ c, m'.next y = m.next y)
    (hprev : ∀ y ∈ c, m'.prev y = m.prev y) : m'.Ring c := by
  refine ⟨h.1, ?_⟩
  induction c using Cycle.induction_on with
  | nil => trivial
  | cons y l _ =>
    have hmem : ∀ u ∈ y :: (l ++ [y]), u ∈ ((y :: l : List ν) : Cycle ν) := by
      simp [or_comm]
    exact chain_frame h.2 (fun u hu => hnext u (hmem u (List.dropLast_subset _ hu)))
      fun u hu => hprev u (hmem u (List.mem_of_mem_tail hu))

theorem Links.ring_singleton : m.Ring ([a] : List ν) ↔ m.next a = some a ∧ m.prev a = some a := by
  rw [Links.Ring, Cycle.chain_singleton]
  simp [Links.Joined]

theorem Links.Ring.next_eq (h : m.Ring (a :: l : List ν)) : m.next a = some (l.headD a) := by
  have hchain := h.2
  rw [Cycle.chain_coe_cons] at hchain
  cases l with
  | nil => exact (List.isChain_cons_cons.mp hchain).1.1
  | cons y l => exact (List.isChain_cons_cons.mp hchain).1.1

theorem Links.Ring.prev_eq (h : m.Ring (a :: l : List ν)) : m.prev a = some (l.getLastD a) := by
  have hchain := h.2
  rw [Cycle.chain_coe_cons] at hchain
  rcases List.eq_nil_or_concat l with rfl | ⟨l', y, rfl⟩
  · exact (List.isChain_cons_cons.mp hchain).1.2
  · have hsplit : a :: (l' ++ [y] ++ [a]) = (a :: l') ++ y :: a :: [] := by simp
    rw [List.concat_eq_append, hsplit, List.isChain_append_cons_cons] at hchain
    simpa using hchain.2.1.2

variable [DecidableEq ν]

def Links.setPrev (m : Links ν) (x : ν) (p : Option ν) : Links ν :=
  { m with prev := Function.update m.prev x p }

def Links.setNext (m : Links ν) (x : ν) (p : Option ν) : Links ν :=
  { m with next := Function.update m.next x p }

/-- A node is put between two that were side by side. -/
def Links.insert (m : Links ν) (a x b : ν) : Links ν where
  prev := Function.update (Function.update m.prev x (some a)) b (some x)
  next := Function.update (Function.update m.next x (some b)) a (some x)

/-- A node is taken from between its neighbours, and points to none. -/
def Links.remove (m : Links ν) (a x b : ν) : Links ν where
  prev := Function.update (Function.update m.prev b (some a)) x none
  next := Function.update (Function.update m.next a (some b)) x none

/-- The ring opens behind a node, and closes behind the new one. -/
theorem Links.Ring.insert (h : m.Ring (a :: l : List ν)) (hx : x ∉ a :: l)
    (hb : m.next a = some b) : (m.insert a x b).Ring (a :: x :: l : List ν) := by
  have hnodup : (a :: l).Nodup := Cycle.nodup_coe_iff.mp h.1
  have hchain := h.2
  rw [Cycle.chain_coe_cons] at hchain
  obtain ⟨hxa, hxl⟩ := not_or.mp (List.mem_cons.not.mp hx)
  obtain ⟨hal, hl⟩ := List.nodup_cons.mp hnodup
  refine ⟨Cycle.nodup_coe_iff.mpr ?_, ?_⟩
  · exact List.nodup_cons.mpr ⟨by simp [hal, Ne.symm hxa], List.nodup_cons.mpr ⟨hxl, hl⟩⟩
  obtain ⟨b', r, hr⟩ : ∃ b' r, l ++ [a] = b' :: r := List.exists_cons_of_ne_nil (by simp)
  rw [hr] at hchain
  obtain ⟨hab, hrest⟩ := List.isChain_cons_cons.mp hchain
  obtain rfl : b = b' := Option.some.inj (hb.symm.trans hab.1)
  have hmem : ∀ y ∈ b :: r, y ∈ a :: l := by
    intro y hy
    rw [← hr] at hy
    simpa [or_comm] using hy
  have hnext : ∀ y ∈ (b :: r).dropLast, y ≠ a ∧ y ≠ x := by
    intro y hy
    rw [← hr, List.dropLast_concat] at hy
    exact ⟨fun hya => hal (hya ▸ hy), fun hyx => hxl (hyx ▸ hy)⟩
  have hbr : (b :: r).Nodup := by
    rw [← hr]
    exact List.nodup_append_comm.mp (by simpa using hnodup)
  rw [Cycle.chain_coe_cons, List.cons_append, hr, List.isChain_cons_cons, List.isChain_cons_cons]
  have hxb : x ≠ b := fun hxb => hx (hxb ▸ hmem b List.mem_cons_self)
  refine ⟨⟨?_, ?_⟩, ⟨?_, ?_⟩, chain_frame hrest (fun y hy => ?_) fun y hy => ?_⟩
  · simp [Links.insert]
  · simp [Links.insert, hxb]
  · simp [Links.insert, hxa]
  · simp [Links.insert]
  · obtain ⟨hya, hyx⟩ := hnext y hy
    simp [Links.insert, hya, hyx]
  · have hyb : y ≠ b := fun hyb => (List.nodup_cons.mp hbr).1 (hyb ▸ hy)
    have hyx : y ≠ x := fun hyx => hx (hyx ▸ hmem y (List.mem_cons_of_mem b hy))
    simp [Links.insert, hyb, hyx]

/-- The ring closes behind a node that is taken out. -/
theorem Links.Ring.remove (h : m.Ring (x :: l : List ν)) (hl : l ≠ [])
    (ha : m.prev x = some a) (hb : m.next x = some b) : (m.remove a x b).Ring (l : List ν) := by
  have hnodup : (x :: l).Nodup := Cycle.nodup_coe_iff.mp h.1
  obtain ⟨hxl, hl'⟩ := List.nodup_cons.mp hnodup
  have hprev := h.prev_eq
  have hnext := h.next_eq
  have hchain := h.2
  rw [Cycle.chain_coe_cons] at hchain
  obtain ⟨b', r, rfl⟩ := List.exists_cons_of_ne_nil hl
  obtain rfl : b = b' := Option.some.inj (hb.symm.trans hnext)
  obtain ⟨l', y, hlast⟩ := (List.eq_nil_or_concat (b :: r)).resolve_left hl
  rw [List.concat_eq_append] at hlast
  obtain rfl : a = y := by
    rw [ha, hlast] at hprev
    simpa using hprev
  refine ⟨Cycle.nodup_coe_iff.mpr hl', ?_⟩
  have hopen : (b :: r).IsChain m.Joined :=
    (List.isChain_append.mp (List.isChain_cons_cons.mp hchain).2).1
  have hax : a ≠ x := fun hax => hxl (hlast ▸ by simp [hax])
  have hbx : b ≠ x := fun hbx => hxl (by simp [hbx])
  rw [Cycle.chain_coe_cons, ← List.cons_append, List.isChain_append]
  refine ⟨chain_frame hopen (fun y hy => ?_) (fun y hy => ?_), .singleton b, ?_⟩
  · have hyl : y ∈ b :: r := List.dropLast_subset _ hy
    have hya : y ≠ a := by
      rintro rfl
      rw [hlast, List.dropLast_concat] at hy
      rw [hlast] at hl'
      exact (List.nodup_append.mp hl').2.2 y hy y (by simp) rfl
    have hyx : y ≠ x := fun hyx => hxl (hyx ▸ hyl)
    simp [Links.remove, hya, hyx]
  · have hyb : y ≠ b := fun hyb => (List.nodup_cons.mp hl').1 (hyb ▸ hy)
    have hyx : y ≠ x := fun hyx => hxl (hyx ▸ List.mem_cons_of_mem b hy)
    simp [Links.remove, hyb, hyx]
  · intro u hu v hv
    rw [hlast, List.getLast?_concat] at hu
    obtain rfl := Option.some.inj hu
    obtain rfl := Option.some.inj hv
    simp [Links.remove, Links.Joined, hax, hbx]

end Ring

section Lists

variable {ι α : Type}

/-- The head of list `i`, and the nodes of its elements. -/
def ringOf (i : ι) (l : List α) : Cycle (ι ⊕ α) := (.inl i :: l.map .inr : List (ι ⊕ α))

/-- Each list whose head is set up is a ring, an element is on one list at most, and the node
of an element on none points nowhere, if it was ever set up. -/
structure Rings (m : Links (ι ⊕ α)) (heads : Set ι) (nodes : Set α) (lists : ι → List α) :
    Prop where
  ring : ∀ i ∈ heads, m.Ring (ringOf i (lists i))
  idle : ∀ i ∉ heads, lists i = []
  apart : ∀ i j x, x ∈ lists i → x ∈ lists j → i = j
  off : ∀ x ∈ nodes, (∀ i, x ∉ lists i) → m.prev (.inr x) = none ∧ m.next (.inr x) = none

variable {m m' : Links (ι ⊕ α)} {heads : Set ι} {nodes : Set α} {lists : ι → List α} {i : ι} {x : α}

theorem mem_ringOf_inl {j : ι} {l : List α} : (.inl j : ι ⊕ α) ∈ ringOf i l ↔ j = i := by
  simp [ringOf]

theorem mem_ringOf_inr {l : List α} : (.inr x : ι ⊕ α) ∈ ringOf i l ↔ x ∈ l := by
  simp [ringOf]

theorem ringOf_append (l₁ l₂ : List α) : ringOf i (l₁ ++ x :: l₂) =
    (.inr x :: (l₂.map .inr ++ .inl i :: l₁.map .inr) : List (ι ⊕ α)) := by
  have hrot : (.inl i :: l₁.map .inr : List (ι ⊕ α)) ++ (.inr x :: l₂.map .inr) ~r
      (.inr x :: l₂.map .inr) ++ (.inl i :: l₁.map .inr) := List.isRotated_append
  simpa [ringOf] using Cycle.coe_eq_coe.mpr hrot

namespace Rings

theorem mem_heads (h : Rings m heads nodes lists) (hx : x ∈ lists i) : i ∈ heads := by
  by_contra hi
  rw [h.idle i hi] at hx
  cases hx

theorem nodup (h : Rings m heads nodes lists) (i : ι) : (lists i).Nodup := by
  by_cases hi : i ∈ heads
  · have hring := Cycle.nodup_coe_iff.mp (h.ring i hi).1
    exact List.Nodup.of_map _ (List.nodup_cons.mp hring).2
  · rw [h.idle i hi]
    exact List.nodup_nil

theorem disjoint (h : Rings m heads nodes lists) {j : ι} {y : ι ⊕ α}
    (hi : y ∈ ringOf i (lists i)) (hj : y ∈ ringOf j (lists j)) : i = j := by
  cases y with
  | inl k => exact (mem_ringOf_inl.mp hi).symm.trans (mem_ringOf_inl.mp hj)
  | inr x => exact h.apart i j x (mem_ringOf_inr.mp hi) (mem_ringOf_inr.mp hj)

theorem next_head (h : Rings m heads nodes lists) (hi : i ∈ heads) :
    m.next (.inl i) = some (((lists i).head?.map .inr).getD (.inl i)) := by
  rw [(h.ring i hi).next_eq]
  cases lists i <;> rfl

theorem prev_head (h : Rings m heads nodes lists) (hi : i ∈ heads) :
    m.prev (.inl i) = some (((lists i).getLast?.map .inr).getD (.inl i)) := by
  rw [(h.ring i hi).prev_eq]
  rcases List.eq_nil_or_concat (lists i) with hl | ⟨l, y, hl⟩ <;> simp [hl]

theorem neighbours (h : Rings m heads nodes lists) (hx : x ∈ lists i) :
    ∃ a b, m.prev (.inr x) = some a ∧ m.next (.inr x) = some b ∧ .inr x ≠ b := by
  obtain ⟨l₁, l₂, hl⟩ := List.append_of_mem hx
  have hring := h.ring i (h.mem_heads hx)
  rw [hl, ringOf_append] at hring
  refine ⟨_, _, hring.prev_eq, hring.next_eq, ?_⟩
  have hnot := (List.nodup_cons.mp (Cycle.nodup_coe_iff.mp hring.1)).1
  cases l₂ with
  | nil => simp
  | cons y l₂ =>
    intro heq
    obtain rfl : x = y := by simpa using heq
    exact hnot (by simp)

/-- A node points somewhere while its element is on a list, and only then. -/
theorem pointing (h : Rings m heads nodes lists) (hx : x ∈ nodes) :
    ((m.prev (.inr x)).isSome || (m.next (.inr x)).isSome) = true ↔ ∃ i, x ∈ lists i := by
  constructor
  · intro hsome
    by_contra hnone
    obtain ⟨hprev, hnext⟩ := h.off x hx fun i hi => hnone ⟨i, hi⟩
    simp [hprev, hnext] at hsome
  · rintro ⟨i, hi⟩
    obtain ⟨a, b, -, hnext, -⟩ := h.neighbours hi
    simp [hnext]

theorem of_subset (h : Rings m heads nodes lists) {heads' : Set ι} {nodes' : Set α}
    (hheads : heads' ⊆ heads) (hnodes : nodes' ⊆ nodes) (hidle : ∀ i ∉ heads', lists i = []) :
    Rings m heads' nodes' lists :=
  ⟨fun i hi => h.ring i (hheads hi), hidle, h.apart, fun x hx => h.off x (hnodes hx)⟩

variable [DecidableEq ι]

theorem replace (h : Rings m heads nodes lists) (hi : i ∈ heads) {l : List α}
    (hring : m'.Ring (ringOf i l)) (hfresh : ∀ x ∈ l, ∀ j ≠ i, x ∉ lists j)
    (hsame : ∀ j ∈ heads, j ≠ i → ∀ y ∈ ringOf j (lists j),
      m'.next y = m.next y ∧ m'.prev y = m.prev y)
    (hoff : ∀ x ∈ nodes, x ∉ l → (∀ j ≠ i, x ∉ lists j) →
      m'.prev (.inr x) = none ∧ m'.next (.inr x) = none) :
    Rings m' heads nodes (Function.update lists i l) := by
  constructor
  · intro j hj
    by_cases hji : j = i
    · rw [hji, Function.update_self]
      exact hring
    · rw [Function.update_of_ne hji]
      exact (h.ring j hj).frame (fun y hy => (hsame j hj hji y hy).1)
        fun y hy => (hsame j hj hji y hy).2
  · intro j hj
    rw [Function.update_of_ne (ne_of_mem_of_not_mem hi hj).symm]
    exact h.idle j hj
  · intro j k x hxj hxk
    by_cases hji : j = i <;> by_cases hki : k = i
    · rw [hji, hki]
    · rw [hji, Function.update_self] at hxj
      rw [Function.update_of_ne hki] at hxk
      exact absurd hxk (hfresh x hxj k hki)
    · rw [hki, Function.update_self] at hxk
      rw [Function.update_of_ne hji] at hxj
      exact absurd hxj (hfresh x hxk j hji)
    · rw [Function.update_of_ne hji] at hxj
      rw [Function.update_of_ne hki] at hxk
      exact h.apart j k x hxj hxk
  · intro x hx hnone
    refine hoff x hx ?_ fun j hji => ?_
    · have := hnone i
      rwa [Function.update_self] at this
    · have := hnone j
      rwa [Function.update_of_ne hji] at this

variable [DecidableEq α]

theorem insert (h : Rings m heads nodes lists) (hi : i ∈ heads) (hx : ∀ j, x ∉ lists j)
    {a b : ι ⊕ α} {l : List α} (ha : a ∈ ringOf i (lists i)) (hb : b ∈ ringOf i (lists i))
    (hring : (m.insert a (.inr x) b).Ring (ringOf i l))
    (hl : ∀ y, y ∈ l ↔ y = x ∨ y ∈ lists i) :
    Rings (m.insert a (.inr x) b) heads nodes (Function.update lists i l) := by
  have hother : ∀ j ≠ i, ∀ y ∈ ringOf j (lists j), y ≠ a ∧ y ≠ b ∧ y ≠ .inr x := by
    intro j hji y hy
    refine ⟨?_, ?_, ?_⟩ <;> rintro rfl
    · exact hji (h.disjoint hy ha)
    · exact hji (h.disjoint hy hb)
    · exact hx j (mem_ringOf_inr.mp hy)
  refine h.replace hi hring (fun y hy j hji => ?_) (fun j _ hji y hy => ?_) fun y hy hyl hyj => ?_
  · rcases (hl y).mp hy with rfl | hyi
    · exact hx j
    · exact fun hyj => hji (h.apart j i y hyj hyi)
  · obtain ⟨hya, hyb, hyx⟩ := hother j hji y hy
    simp [Links.insert, hya, hyb, hyx]
  · obtain ⟨hyx, hyi⟩ := not_or.mp ((hl y).not.mp hyl)
    have hne : ∀ z ∈ ringOf i (lists i), (.inr y : ι ⊕ α) ≠ z := by
      rintro z hz rfl
      exact hyi (mem_ringOf_inr.mp hz)
    have hoff := h.off y hy fun j => if hji : j = i then hji ▸ hyi else hyj j hji
    simpa [Links.insert, hne a ha, hne b hb, hyx] using hoff

theorem pushFront (h : Rings m heads nodes lists) (hi : i ∈ heads) (hx : ∀ j, x ∉ lists j)
    {b : ι ⊕ α} (hb : m.next (.inl i) = some b) :
    Rings (m.insert (.inl i) (.inr x) b) heads nodes (Function.update lists i (x :: lists i)) := by
  have hnot : (.inr x : ι ⊕ α) ∉ (.inl i :: (lists i).map .inr : List (ι ⊕ α)) := by
    simpa using hx i
  refine h.insert hi hx (mem_ringOf_inl.mpr rfl) ?_ ((h.ring i hi).insert hnot hb) (by simp)
  rw [h.next_head hi] at hb
  obtain rfl := Option.some.inj hb
  cases hl : lists i <;> simp [ringOf]

theorem pushBack (h : Rings m heads nodes lists) (hi : i ∈ heads) (hx : ∀ j, x ∉ lists j)
    {a : ι ⊕ α} (ha : m.prev (.inl i) = some a) :
    Rings (m.insert a (.inr x) (.inl i)) heads nodes
      (Function.update lists i (lists i ++ [x])) := by
  have hring := h.ring i hi
  rw [h.prev_head hi] at ha
  obtain rfl := Option.some.inj ha
  refine h.insert hi hx ?_ (mem_ringOf_inl.mpr rfl) ?_ (by simp [or_comm])
  · rcases List.eq_nil_or_concat (lists i) with hl | ⟨l, y, hl⟩ <;> simp [ringOf, hl]
  rcases List.eq_nil_or_concat (lists i) with hl | ⟨l, y, hl⟩
  · have hnext := h.next_head hi
    rw [hl] at hring hnext ⊢
    exact hring.insert (by simp) hnext
  · rw [List.concat_eq_append] at hl
    have hnot := hx i
    rw [hl] at hring hnot ⊢
    rw [ringOf_append] at hring
    have hinsert := hring.insert (x := .inr x) (by simpa [or_comm] using hnot) hring.next_eq
    have hback : ringOf i (l ++ [y] ++ [x]) =
        (.inr y :: .inr x :: .inl i :: l.map .inr : List (ι ⊕ α)) := by
      rw [List.append_assoc, List.singleton_append, ringOf_append]
      rfl
    rw [hback]
    simpa using hinsert

theorem erase (h : Rings m heads nodes lists) (hx : x ∈ lists i) {a b : ι ⊕ α}
    (ha : m.prev (.inr x) = some a) (hb : m.next (.inr x) = some b) :
    Rings (m.remove a (.inr x) b) heads nodes
      (Function.update lists i ((lists i).erase x)) := by
  have hi := h.mem_heads hx
  have hring := h.ring i hi
  have hnodup := h.nodup i
  obtain ⟨l₁, l₂, hl⟩ := List.append_of_mem hx
  rw [hl] at hring hnodup
  rw [ringOf_append] at hring
  have hx₁ : x ∉ l₁ := fun hx₁ => (List.nodup_append.mp hnodup).2.2 x hx₁ x (by simp) rfl
  have hx₂ : x ∉ l₂ := (List.nodup_cons.mp (List.nodup_append.mp hnodup).2.1).1
  have herase : (lists i).erase x = l₁ ++ l₂ := by
    rw [hl, List.erase_append_right _ hx₁, List.erase_cons_head]
  have hclosed : ringOf i (l₁ ++ l₂) =
      (l₂.map .inr ++ .inl i :: l₁.map .inr : List (ι ⊕ α)) := by
    have hrot : (.inl i :: l₁.map .inr : List (ι ⊕ α)) ++ l₂.map .inr ~r
        l₂.map .inr ++ (.inl i :: l₁.map .inr) := List.isRotated_append
    simpa [ringOf] using Cycle.coe_eq_coe.mpr hrot
  have hmem : ∀ z, z ∈ (l₂.map .inr ++ .inl i :: l₁.map .inr : List (ι ⊕ α)) →
      z ∈ ringOf i (lists i) := by
    intro z hz
    rw [hl, ringOf_append]
    exact List.mem_cons_of_mem _ hz
  have hopen : (l₂.map .inr ++ .inl i :: l₁.map .inr : List (ι ⊕ α)) ≠ [] := by simp
  have hain : a ∈ ringOf i (lists i) := by
    rw [hring.prev_eq] at ha
    obtain rfl := Option.some.inj ha
    refine hmem _ ?_
    rw [List.getLastD_eq_getLast?, List.getLast?_eq_some_getLast hopen]
    exact List.getLast_mem hopen
  have hbin : b ∈ ringOf i (lists i) := by
    rw [hring.next_eq] at hb
    obtain rfl := Option.some.inj hb
    refine hmem _ ?_
    cases l₂ <;> simp
  rw [herase]
  refine h.replace hi ?_ (fun y hy j hji => ?_) (fun j _ hji y hy => ?_) fun y hy hyl hyj => ?_
  · rw [hclosed]
    exact hring.remove hopen ha hb
  · have hyi : y ∈ lists i := by
      rw [hl]
      rcases List.mem_append.mp hy with hy | hy <;> simp [hy]
    exact fun hyj => hji (h.apart j i y hyj hyi)
  · have hne : ∀ z ∈ ringOf i (lists i), y ≠ z := by
      rintro z hz rfl
      exact hji (h.disjoint hy hz)
    simp [Links.remove, hne a hain, hne b hbin, hne (.inr x) (mem_ringOf_inr.mpr hx)]
  · by_cases hyx : y = x
    · simp [Links.remove, hyx]
    have hyi : y ∉ lists i := by
      rw [hl]
      simpa [hyx] using hyl
    have hne : ∀ z ∈ ringOf i (lists i), (.inr y : ι ⊕ α) ≠ z := by
      rintro z hz rfl
      exact hyi (mem_ringOf_inr.mp hz)
    have hoff := h.off y hy fun j => if hji : j = i then hji ▸ hyi else hyj j hji
    simpa [Links.remove, hne a hain, hne b hbin, hyx] using hoff

theorem initialize_head (h : Rings m heads nodes lists) (hempty : lists i = []) :
    Rings ((m.setPrev (.inl i) (some (.inl i))).setNext (.inl i) (some (.inl i)))
      (Insert.insert i heads) nodes lists := by
  constructor
  · intro j hj
    by_cases hji : j = i
    · rw [hji, hempty]
      exact Links.ring_singleton.mpr (by simp [Links.setPrev, Links.setNext])
    · refine (h.ring j (hj.resolve_left hji)).frame (fun y hy => ?_) fun y hy => ?_ <;>
        · have hne : y ≠ .inl i := by
            rintro rfl
            exact hji (mem_ringOf_inl.mp hy).symm
          simp [Links.setPrev, Links.setNext, hne]
  · exact fun j hj => h.idle j fun hmem => hj (.inr hmem)
  · exact h.apart
  · intro x hx hnone
    simpa [Links.setPrev, Links.setNext] using h.off x hx hnone

theorem clear_node (h : Rings m heads nodes lists) (hx : ∀ j, x ∉ lists j) :
    Rings ((m.setPrev (.inr x) none).setNext (.inr x) none) heads (Insert.insert x nodes)
      lists := by
  constructor
  · intro j hj
    refine (h.ring j hj).frame (fun y hy => ?_) fun y hy => ?_ <;>
      · have hne : y ≠ .inr x := by
          rintro rfl
          exact hx j (mem_ringOf_inr.mp hy)
        simp [Links.setPrev, Links.setNext, hne]
  · exact h.idle
  · exact h.apart
  · intro y hy hnone
    by_cases hyx : y = x
    · simp [Links.setPrev, Links.setNext, hyx]
    · simpa [Links.setPrev, Links.setNext, hyx] using h.off y (hy.resolve_left hyx) hnone

end Rings

end Lists

end UefiLkl.LinkedRing
