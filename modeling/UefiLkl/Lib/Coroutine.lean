import Mathlib.Logic.Function.Basic
set_option autoImplicit false

/-!
Computations that hand over in the middle: a segment runs up to a switch, and what is
left of it goes on later, in whatever state it then finds.
-/

namespace UefiLkl.Coroutine

/-- A result, or the state at a switch and what is still to be done. -/
inductive Susp (σ α : Type) where
  | done (a : α) (s : σ)
  | switch (s : σ) (k : σ → Susp σ α)

variable {σ α β : Type}

def Susp.bind (x : Susp σ α) (f : α → σ → Susp σ β) : Susp σ β :=
  match x with
  | .done a s => f a s
  | .switch s k => .switch s fun s' => (k s').bind f

/-- A computation, from any state. -/
structure Section (σ α : Type) where
  run : σ → Susp σ α

instance : Monad (Section σ) where
  pure a := ⟨fun s => .done a s⟩
  bind x f := ⟨fun s => (x.run s).bind fun a => (f a).run⟩

namespace Section

def read (f : σ → α) : Section σ α := ⟨fun s => .done (f s) s⟩

def modify (f : σ → σ) : Section σ Unit := ⟨fun s => .done () (f s)⟩

@[simp] theorem run_pure (a : α) (s : σ) : (pure a : Section σ α).run s = .done a s := rfl

@[simp] theorem run_bind (x : Section σ α) (f : α → Section σ β) (s : σ) :
    (x >>= f).run s = (x.run s).bind fun a => (f a).run := rfl

@[simp] theorem run_read (f : σ → α) (s : σ) : (read f).run s = .done (f s) s := rfl

@[simp] theorem run_modify (f : σ → σ) (s : σ) : (modify f).run s = .done () (f s) := rfl

@[simp] theorem run_ite (c : Prop) [Decidable c] (x y : Section σ α) (s : σ) :
    (if c then x else y).run s = if c then x.run s else y.run s := by
  split <;> rfl

end Section

@[simp] theorem Susp.done_bind (a : α) (s : σ) (f : α → σ → Susp σ β) :
    (Susp.done a s).bind f = f a s := rfl

@[simp] theorem Susp.switch_bind (s : σ) (k : σ → Susp σ α) (f : α → σ → Susp σ β) :
    (Susp.switch s k).bind f = .switch s fun s' => (k s').bind f := rfl

theorem Susp.bind_done (x : Susp σ α) : x.bind .done = x := by
  induction x with
  | done a s => rfl
  | switch s k ih => simp only [switch_bind, ih]

theorem Susp.bind_assoc {γ : Type} (x : Susp σ α) (f : α → σ → Susp σ β) (g : β → σ → Susp σ γ) :
    (x.bind f).bind g = x.bind fun a s => (f a s).bind g := by
  induction x with
  | done a s => rfl
  | switch s k ih =>
    simp only [switch_bind, Susp.switch.injEq, true_and]
    exact funext ih

/-- The state at the first switch, or at the end. -/
def Susp.state : Susp σ α → σ
  | .done _ s => s
  | .switch s _ => s

/-- If the computation is gone on with only where `T` and `J` hold, `J` holds whenever it
switches, and `Q` at its end; `Q` is told whether there was no switch. -/
def Susp.Wp (T J : σ → Prop) (Q : Bool → α → σ → Prop) : Bool → Susp σ α → Prop
  | atOnce, .done a s => Q atOnce a s
  | _, .switch s k => J s ∧ ∀ s', T s' → J s' → (k s').Wp T J Q false

section Wp

variable {T J : σ → Prop} {Q R : Bool → α → σ → Prop} {b : Bool}

@[simp] theorem Susp.wp_done {a : α} {s : σ} : (Susp.done a s).Wp T J Q b ↔ Q b a s := Iff.rfl

@[simp] theorem Susp.wp_switch {s : σ} {k : σ → Susp σ α} :
    (Susp.switch s k).Wp T J Q b ↔ J s ∧ ∀ s', T s' → J s' → (k s').Wp T J Q false := Iff.rfl

theorem Susp.wp_bind {x : Susp σ α} {f : α → σ → Susp σ β} {Q : Bool → β → σ → Prop} :
    (x.bind f).Wp T J Q b ↔ x.Wp T J (fun b' a s => (f a s).Wp T J Q b') b := by
  induction x generalizing b with
  | done a s => rfl
  | switch s k ih =>
    simp only [switch_bind, wp_switch]
    exact and_congr_right fun _ => forall_congr' fun s' => by simp only [ih]

theorem Susp.Wp.mono {x : Susp σ α} (h : x.Wp T J Q b) (hQ : ∀ b' a s, Q b' a s → R b' a s) :
    x.Wp T J R b := by
  induction x generalizing b with
  | done a s => exact hQ b a s h
  | switch s k ih => exact ⟨h.1, fun s' ht hj => ih s' (h.2 s' ht hj)⟩

theorem Susp.Wp.any {Q : α → σ → Prop} {x : Susp σ α} (h : x.Wp T J (fun _ => Q) b) (b' : Bool) :
    x.Wp T J (fun _ => Q) b' := by
  cases x with
  | done a s => exact h
  | switch s k => exact h

end Wp

/-- From `P` the computation comes to `Q`, and is in `J` whenever it switches, if it is gone on
with only where `T` and `J` hold. -/
def Section.Triple (T J P : σ → Prop) (x : Section σ α) (Q : α → σ → Prop) : Prop :=
  ∀ s, P s → (x.run s).Wp T J (fun _ => Q) true

section Triple

variable {T J P : σ → Prop} {Q R : α → σ → Prop}

theorem Section.Triple.bind {x : Section σ α} {f : α → Section σ β} {Q : β → σ → Prop}
    (hx : x.Triple T J P R) (hf : ∀ a, (f a).Triple T J (R a) Q) : (x >>= f).Triple T J P Q := by
  intro s hs
  rw [run_bind, Susp.wp_bind]
  exact (hx s hs).mono fun b a s' hs' => (hf a s' hs').any b

theorem Section.Triple.pure {a : α} (h : ∀ s, P s → Q a s) :
    Section.Triple T J P (Pure.pure a : Section σ α) Q :=
  h

theorem Section.Triple.read {f : σ → α} (h : ∀ s, P s → Q (f s) s) :
    (Section.read f).Triple T J P Q :=
  h

theorem Section.Triple.modify {f : σ → σ} {Q : Unit → σ → Prop} (h : ∀ s, P s → Q () (f s)) :
    (Section.modify f).Triple T J P Q :=
  h

theorem Section.Triple.ite {p : Prop} [Decidable p] {x y : Section σ α} (hx : x.Triple T J P Q)
    (hy : y.Triple T J P Q) : Section.Triple T J P (if p then x else y) Q := by
  split
  · exact hx
  · exact hy

end Triple

/-- Each segment takes the state it starts in to one related by `F`, if it starts where `T`
holds. -/
def Susp.Moves (T : σ → Prop) (F : σ → σ → Prop) (s₀ : σ) : Susp σ α → Prop
  | .done _ s => F s₀ s ∧ T s
  | .switch s k => F s₀ s ∧ ∀ s₁, T s₁ → (k s₁).Moves T F s₁

def Section.Moves (T : σ → Prop) (F : σ → σ → Prop) (x : Section σ α) : Prop :=
  ∀ s, T s → (x.run s).Moves T F s

section Moves

variable {T : σ → Prop} {F : σ → σ → Prop}

theorem Susp.Moves.state {x : Susp σ α} {s₀ : σ} (h : x.Moves T F s₀) : F s₀ x.state := by
  cases x with
  | done a s => exact h.1
  | switch s k => exact h.1

theorem Susp.Moves.from {x : Susp σ α} {s₀ s₁ : σ} (hF : ∀ a b c, F a b → F b c → F a c)
    (h : F s₀ s₁) (hx : x.Moves T F s₁) : x.Moves T F s₀ := by
  cases x with
  | done a s => exact ⟨hF _ _ _ h hx.1, hx.2⟩
  | switch s k => exact ⟨hF _ _ _ h hx.1, hx.2⟩

theorem Susp.Moves.bind (hF : ∀ a b c, F a b → F b c → F a c) {x : Susp σ α}
    {f : α → σ → Susp σ β} {s₀ : σ} (hx : x.Moves T F s₀)
    (hf : ∀ a s, T s → (f a s).Moves T F s) : (x.bind f).Moves T F s₀ := by
  induction x generalizing s₀ with
  | done a s => exact (hf a s hx.2).from hF hx.1
  | switch s k ih => exact ⟨hx.1, fun s₁ h₁ => ih s₁ (hx.2 s₁ h₁)⟩

theorem Section.Moves.bind (hF : ∀ a b c, F a b → F b c → F a c) {x : Section σ α}
    {f : α → Section σ β} (hx : x.Moves T F) (hf : ∀ a, (f a).Moves T F) :
    (x >>= f).Moves T F :=
  fun s hs => (hx s hs).bind hF hf

theorem Section.Moves.pure (hF : ∀ a, F a a) (a : α) :
    Section.Moves T F (Pure.pure a : Section σ α) :=
  fun s hs => ⟨hF s, hs⟩

theorem Section.Moves.read (hF : ∀ a, F a a) (f : σ → α) : (Section.read f).Moves T F :=
  fun s hs => ⟨hF s, hs⟩

theorem Section.Moves.modify {f : σ → σ} (h : ∀ s, T s → F s (f s) ∧ T (f s)) :
    (Section.modify f).Moves T F :=
  h

/-- What the segments keep, where the computation is gone on with in fewer states, holds
throughout; at the end it held where the last segment began. -/
theorem Susp.Moves.wp_last {S J : σ → Prop} {x : Susp σ α} {s₀ : σ} (h : x.Moves T F s₀)
    (hT : ∀ s, S s → T s) (hJ : ∀ s s', F s s' → S s → J s → J s') (ht : S s₀) (hj : J s₀)
    (b : Bool) : x.Wp S J (fun _ _ s => ∃ s₁, S s₁ ∧ J s₁ ∧ F s₁ s) b := by
  induction x generalizing s₀ b with
  | done a s => exact ⟨s₀, ht, hj, h.1⟩
  | switch s k ih =>
    exact ⟨hJ s₀ s h.1 ht hj, fun s' ht' hj' => ih s' (h.2 s' (hT s' ht')) ht' hj' false⟩

theorem Susp.Moves.wp {S J : σ → Prop} {x : Susp σ α} {s₀ : σ} (h : x.Moves T F s₀)
    (hT : ∀ s, S s → T s) (hJ : ∀ s s', F s s' → S s → J s → J s') (ht : S s₀) (hj : J s₀)
    (b : Bool) : x.Wp S J (fun _ _ s => J s) b :=
  (h.wp_last hT hJ ht hj b).mono fun _ _ _ ⟨s₁, ht₁, hj₁, hs⟩ => hJ s₁ _ hs ht₁ hj₁

/-- What is shown of a second property may use the first. -/
theorem Susp.Wp.and {T J K : σ → Prop} {Q R : Bool → α → σ → Prop} {x : Susp σ α} {b : Bool}
    (h : x.Wp T J Q b) (h' : x.Wp (fun s => T s ∧ J s) K R b) :
    x.Wp T (fun s => J s ∧ K s) (fun b a s => Q b a s ∧ R b a s) b := by
  induction x generalizing b with
  | done a s => exact ⟨h, h'⟩
  | switch s k ih =>
    exact ⟨⟨h.1, h'.1⟩, fun s' ht hj => ih s' (h.2 s' ht hj.1) (h'.2 s' ⟨ht, hj.1⟩ hj.2)⟩

/-- What is shown of each of a family of properties may use them all. -/
theorem Susp.Wp.forall {ι : Type} {T : σ → Prop} {J : ι → σ → Prop} {Q : ι → Bool → α → σ → Prop}
    {x : Susp σ α} {b : Bool} (h : ∀ i, x.Wp (fun s => T s ∧ ∀ i, J i s) (J i) (Q i) b) :
    x.Wp T (fun s => ∀ i, J i s) (fun b a s => ∀ i, Q i b a s) b := by
  induction x generalizing b with
  | done a s => exact h
  | switch s k ih =>
    exact ⟨fun i => (h i).1, fun s' ht hj => ih s' fun i => (h i).2 s' ⟨ht, hj⟩ (hj i)⟩

theorem Susp.Wp.congr {T J K : σ → Prop} {Q : Bool → α → σ → Prop} {x : Susp σ α} {b : Bool}
    (h : x.Wp T J Q b) (hJ : ∀ s, J s ↔ K s) : x.Wp T K Q b := by
  have heq : J = K := funext fun s => propext (hJ s)
  exact heq ▸ h

theorem Susp.Wp.weaken {T T' J : σ → Prop} {Q : Bool → α → σ → Prop} {x : Susp σ α} {b : Bool}
    (h : x.Wp T J Q b) (hT : ∀ s, T' s → T s) : x.Wp T' J Q b := by
  induction x generalizing b with
  | done a s => exact h
  | switch s k ih => exact ⟨h.1, fun s' ht hj => ih s' (h.2 s' (hT s' ht) hj)⟩

end Moves

/-- The computation comes to its end without a switch, and changes no more than `G` allows. -/
def Section.Direct (G : σ → σ → Prop) (x : Section σ α) : Prop :=
  ∀ s, ∃ a s', x.run s = .done a s' ∧ G s s'

/-- The switch, if there is one, is in a state of `J`, and what is left then is done without
another, by `G`. -/
def Susp.Once (J : σ → Prop) (G : σ → σ → Prop) : Susp σ α → Prop
  | .done _ _ => True
  | .switch s k => J s ∧ ∀ s₁, ∃ a s₂, k s₁ = .done a s₂ ∧ G s₁ s₂

def Susp.Switches (x : Susp σ α) : Prop := ∃ s k, x = .switch s k

theorem Susp.Switches.bind {x : Susp σ α} (h : x.Switches) (f : α → σ → Susp σ β) :
    (x.bind f).Switches := by
  obtain ⟨s, k, rfl⟩ := h
  exact ⟨_, _, rfl⟩

theorem Susp.Wp.switches {x : Susp σ α} (h : x.Wp (fun _ => True) (fun _ => True)
    (fun b _ _ => b = false) true) : x.Switches := by
  cases x with
  | done a s => cases h
  | switch s k => exact ⟨s, k, rfl⟩

section Once

variable {J : σ → Prop} {G : σ → σ → Prop}

theorem Section.Direct.pure (hG : ∀ a, G a a) (a : α) :
    Section.Direct G (Pure.pure a : Section σ α) :=
  fun s => ⟨a, s, rfl, hG s⟩

theorem Section.Direct.read (hG : ∀ a, G a a) (f : σ → α) : (Section.read f).Direct G :=
  fun s => ⟨f s, s, rfl, hG s⟩

theorem Section.Direct.modify {f : σ → σ} (h : ∀ s, G s (f s)) : (Section.modify f).Direct G :=
  fun s => ⟨(), f s, rfl, h s⟩

theorem Section.Direct.ite {p : Prop} [Decidable p] {x y : Section σ α} (hx : x.Direct G)
    (hy : y.Direct G) : Section.Direct G (if p then x else y) := by
  split
  · exact hx
  · exact hy

theorem Section.Direct.bind (hG : ∀ a b c, G a b → G b c → G a c) {x : Section σ α}
    {f : α → Section σ β} (hx : x.Direct G) (hf : ∀ a, (f a).Direct G) : (x >>= f).Direct G := by
  intro s
  obtain ⟨a, s', hrun, hs⟩ := hx s
  obtain ⟨b, s'', hrun', hs'⟩ := hf a s'
  exact ⟨b, s'', by rw [Section.run_bind, hrun, Susp.done_bind, hrun'], hG _ _ _ hs hs'⟩

/-- What comes after a computation that may switch does not. -/
theorem Susp.Once.bind (hG : ∀ a b c, G a b → G b c → G a c) {x : Susp σ α}
    {f : α → Section σ β} (hx : x.Once J G) (hf : ∀ a, (f a).Direct G) :
    (x.bind fun a => (f a).run).Once J G := by
  cases x with
  | done a s =>
    obtain ⟨b, s', hrun, -⟩ := hf a s
    rw [done_bind, hrun]
    trivial
  | switch s k =>
    refine ⟨hx.1, fun s₁ => ?_⟩
    obtain ⟨a, s₂, hrun, hs⟩ := hx.2 s₁
    obtain ⟨b, s₃, hrun', hs'⟩ := hf a s₂
    exact ⟨b, s₃, by simp only [hrun, done_bind, hrun'], hG _ _ _ hs hs'⟩

theorem Susp.state_bind {P : σ → Prop} {x : Susp σ α} {f : α → Section σ β} (hx : P x.state)
    (hf : ∀ a, (f a).Direct G) (hP : ∀ s s', G s s' → P s → P s') :
    P (x.bind fun a => (f a).run).state := by
  cases x with
  | done a s =>
    obtain ⟨b, s', hrun, hs⟩ := hf a s
    rw [done_bind, hrun]
    exact hP s s' hs hx
  | switch s k => exact hx

end Once

end UefiLkl.Coroutine
