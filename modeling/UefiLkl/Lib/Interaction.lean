import Mathlib.Logic.Function.Basic
import Mathlib.Data.List.Basic
set_option autoImplicit false

/-!
Programs that talk to an interface: finite trees of calls, the environments
that answer them, and the rules for what holds at the end of every execution.
-/

namespace UefiLkl.Interaction

/-- Either a result, or a call and what to do with its answer. -/
inductive Prog (C : Type) (A : C → Type) (α : Type) where
  | ret : α → Prog C A α
  | call : (c : C) → (A c → Prog C A α) → Prog C A α

variable {C : Type} {A : C → Type} {G α β : Type}

def Prog.bind : Prog C A α → (α → Prog C A β) → Prog C A β
  | .ret a, f => f a
  | .call c k, f => .call c fun x => (k x).bind f

instance : Monad (Prog C A) where
  pure := .ret
  bind := .bind

def Prog.ask (c : C) : Prog C A (A c) := .call c .ret

@[simp] theorem Prog.ret_bind (a : α) (f : α → Prog C A β) :
    (Prog.ret a >>= f) = f a := rfl

@[simp] theorem Prog.pure_eq (a : α) : (pure a : Prog C A α) = .ret a := rfl

@[simp] theorem Prog.call_bind (c : C) (k : A c → Prog C A α) (f : α → Prog C A β) :
    (Prog.call c k >>= f) = .call c fun x => k x >>= f := rfl

@[simp] theorem Prog.ask_bind (c : C) (f : A c → Prog C A β) :
    (Prog.ask c >>= f) = .call c f := rfl

theorem Prog.bind_ret (p : Prog C A α) : p >>= .ret = p := by
  induction p with
  | ret a => rfl
  | call c k ih =>
    rw [call_bind]
    congr
    funext x
    exact ih x

theorem Prog.bind_assoc {γ : Type} (p : Prog C A α) (f : α → Prog C A β)
    (g : β → Prog C A γ) : (p >>= f) >>= g = p >>= fun a => f a >>= g := by
  induction p with
  | ret a => rfl
  | call c k ih =>
    simp only [call_bind]
    congr
    funext x
    exact ih x

instance : LawfulMonad (Prog C A) :=
  LawfulMonad.mk' (Prog C A) (fun p => Prog.bind_ret p) (fun _ _ => rfl) Prog.bind_assoc

abbrev Event (C : Type) (A : C → Type) := (c : C) × A c

/-- `p.Exec t a`: given the answers recorded in `t`, the program ends with `a`. -/
inductive Prog.Exec : Prog C A α → List (Event C A) → α → Prop where
  | ret (a : α) : Exec (.ret a) [] a
  | call {c : C} {k : A c → Prog C A α} {x : A c} {t : List (Event C A)} {a : α} :
      Exec (k x) t a → Exec (.call c k) (⟨c, x⟩ :: t) a

theorem Prog.exec_ret_iff {a b : α} {t : List (Event C A)} :
    (Prog.ret a).Exec t b ↔ t = [] ∧ b = a := by
  constructor
  · intro h
    cases h
    exact ⟨rfl, rfl⟩
  · rintro ⟨rfl, rfl⟩
    exact .ret b

theorem Prog.exec_call_iff {c : C} {k : A c → Prog C A α} {a : α} {t : List (Event C A)} :
    (Prog.call c k).Exec t a ↔ ∃ x u, t = ⟨c, x⟩ :: u ∧ (k x).Exec u a := by
  constructor
  · intro h
    cases h with
    | call h => exact ⟨_, _, rfl, h⟩
  · rintro ⟨x, u, rfl, h⟩
    exact .call h

theorem Prog.exec_ask_bind_iff {c : C} {f : A c → Prog C A α} {a : α} {t : List (Event C A)} :
    (Prog.ask c >>= f).Exec t a ↔ ∃ x u, t = ⟨c, x⟩ :: u ∧ (f x).Exec u a :=
  exec_call_iff

theorem Prog.exec_bind_iff {p : Prog C A α} {f : α → Prog C A β} {b : β}
    {t : List (Event C A)} :
    (p >>= f).Exec t b ↔ ∃ u v a, t = u ++ v ∧ p.Exec u a ∧ (f a).Exec v b := by
  induction p generalizing t with
  | ret a =>
    simp only [ret_bind]
    constructor
    · intro h
      exact ⟨[], t, a, rfl, .ret a, h⟩
    · rintro ⟨u, v, a', rfl, hu, hv⟩
      obtain ⟨rfl, rfl⟩ := exec_ret_iff.mp hu
      exact hv
  | call c k ih =>
    rw [call_bind, exec_call_iff]
    constructor
    · rintro ⟨x, w, rfl, h⟩
      obtain ⟨u, v, a, rfl, hu, hv⟩ := (ih x).mp h
      exact ⟨⟨c, x⟩ :: u, v, a, rfl, .call hu, hv⟩
    · rintro ⟨u, v, a, rfl, hu, hv⟩
      obtain ⟨x, w, rfl, hw⟩ := exec_call_iff.mp hu
      exact ⟨x, w ++ v, rfl, (ih x).mpr ⟨w, v, a, rfl, hw, hv⟩⟩

/-- Every call the program can come to issue satisfies `P`. -/
def Prog.Only (P : C → Prop) : Prog C A α → Prop
  | .ret _ => True
  | .call c k => P c ∧ ∀ x, (k x).Only P

@[simp] theorem Prog.only_ret (P : C → Prop) (a : α) : (Prog.ret a : Prog C A α).Only P :=
  trivial

@[simp] theorem Prog.only_call {P : C → Prop} {c : C} {k : A c → Prog C A α} :
    (Prog.call c k).Only P ↔ P c ∧ ∀ x, (k x).Only P := Iff.rfl

theorem Prog.only_ask_bind {P : C → Prop} {c : C} {f : A c → Prog C A α} :
    (Prog.ask c >>= f).Only P ↔ P c ∧ ∀ x, (f x).Only P := Iff.rfl

theorem Prog.Only.bind {P : C → Prop} {p : Prog C A α} {f : α → Prog C A β}
    (hp : p.Only P) (hf : ∀ a, (f a).Only P) : (p >>= f).Only P := by
  induction p with
  | ret a => exact hf a
  | call c k ih => exact ⟨hp.1, fun x => ih x (hp.2 x)⟩

theorem Prog.Only.exec {P : C → Prop} {p : Prog C A α} {t : List (Event C A)} {a : α}
    (hp : p.Only P) (h : p.Exec t a) : ∀ e ∈ t, P e.1 := by
  induction h with
  | ret a => simp
  | call _ ih =>
    intro e he
    rcases List.mem_cons.mp he with rfl | he
    · exact hp.1
    · exact ih (hp.2 _) e he

theorem Prog.Only.mono {P Q : C → Prop} (h : ∀ c, P c → Q c) {p : Prog C A α}
    (hp : p.Only P) : p.Only Q := by
  induction p with
  | ret a => trivial
  | call c k ih => exact ⟨h c hp.1, fun x => ih x (hp.2 x)⟩

/-- Every result the program can come to satisfies `Q`. -/
def Prog.Ends (Q : α → Prop) : Prog C A α → Prop
  | .ret a => Q a
  | .call _ k => ∀ x, (k x).Ends Q

@[simp] theorem Prog.ends_ret {Q : α → Prop} {a : α} :
    (Prog.ret a : Prog C A α).Ends Q ↔ Q a := Iff.rfl

theorem Prog.ends_ask_bind {Q : α → Prop} {c : C} {f : A c → Prog C A α} :
    (Prog.ask c >>= f).Ends Q ↔ ∀ x, (f x).Ends Q := Iff.rfl

theorem Prog.Ends.bind {P : α → Prop} {Q : β → Prop} {p : Prog C A α} {f : α → Prog C A β}
    (hp : p.Ends P) (hf : ∀ a, P a → (f a).Ends Q) : (p >>= f).Ends Q := by
  induction p with
  | ret a => exact hf a hp
  | call c k ih => exact fun x => ih x (hp x)

theorem Prog.ends_true {p : Prog C A α} : p.Ends fun _ => True := by
  induction p with
  | ret a => trivial
  | call c k ih => exact ih

theorem Prog.Ends.exec {Q : α → Prop} {p : Prog C A α} {t : List (Event C A)} {a : α}
    (hp : p.Ends Q) (h : p.Exec t a) : Q a := by
  induction h with
  | ret a => exact hp
  | call _ ih => exact ih (hp _)

/-- The other side of the interface: in state `g` call `c` may be answered `x`,
and the state is then `g'`. -/
structure Env (C : Type) (A : C → Type) (G : Type) where
  may : G → (c : C) → A c → G → Prop

/-- `Q` holds at the end of every execution of the program from `g`. -/
def Env.Always (E : Env C A G) : Prog C A α → (α → G → Prop) → G → Prop
  | .ret a, Q, g => Q a g
  | .call c k, Q, g => ∀ x g', E.may g c x g' → E.Always (k x) Q g'

@[simp] theorem Env.always_ret {E : Env C A G} {a : α} {Q : α → G → Prop} {g : G} :
    E.Always (.ret a) Q g ↔ Q a g := Iff.rfl

theorem Env.always_call {E : Env C A G} {c : C} {k : A c → Prog C A α}
    {Q : α → G → Prop} {g : G} :
    E.Always (.call c k) Q g ↔ ∀ x g', E.may g c x g' → E.Always (k x) Q g' := Iff.rfl

theorem Env.always_ask_bind {E : Env C A G} {c : C} {f : A c → Prog C A α}
    {Q : α → G → Prop} {g : G} :
    E.Always (Prog.ask c >>= f) Q g ↔ ∀ x g', E.may g c x g' → E.Always (f x) Q g' := Iff.rfl

theorem Env.always_bind {E : Env C A G} {p : Prog C A α} {f : α → Prog C A β}
    {Q : β → G → Prop} {g : G} :
    E.Always (p >>= f) Q g ↔ E.Always p (fun a g' => E.Always (f a) Q g') g := by
  induction p generalizing g with
  | ret a => rfl
  | call c k ih =>
    simp only [Prog.call_bind, always_call]
    exact forall₃_congr fun x g' _ => ih x

theorem Env.Always.mono {E : Env C A G} {p : Prog C A α} {Q R : α → G → Prop} {g : G}
    (h : E.Always p Q g) (hQR : ∀ a g', Q a g' → R a g') : E.Always p R g := by
  induction p generalizing g with
  | ret a => exact hQR a g h
  | call c k ih => exact fun x g' hx => ih x (h x g' hx)

theorem Env.Always.and {E : Env C A G} {p : Prog C A α} {Q R : α → G → Prop} {g : G}
    (hQ : E.Always p Q g) (hR : E.Always p R g) : E.Always p (fun a g' => Q a g' ∧ R a g') g := by
  induction p generalizing g with
  | ret a => exact ⟨hQ, hR⟩
  | call c k ih => exact fun x g' hx => ih x (hQ x g' hx) (hR x g' hx)

/-- What every answer preserves, every program preserves. -/
theorem Env.always_of_invariant {E : Env C A G} {I : G → Prop} {P : C → Prop}
    (hI : ∀ g c x g', P c → I g → E.may g c x g' → I g')
    {p : Prog C A α} (hp : p.Only P) {g : G} (hg : I g) : E.Always p (fun _ => I) g := by
  induction p generalizing g with
  | ret a => exact hg
  | call c k ih => exact fun x g' hx => ih x (hp.2 x) (hI g c x g' hp.1 hg hx)

/-- An environment that allows no more answers to the calls that are made. -/
theorem Env.Always.restrict {E E' : Env C A G} {P : C → Prop} {p : Prog C A α}
    {Q : α → G → Prop} {g : G} (h : E.Always p Q g)
    (hE : ∀ g c x g', P c → E'.may g c x g' → E.may g c x g') (hp : p.Only P) :
    E'.Always p Q g := by
  induction p generalizing g with
  | ret a => exact h
  | call c k ih => exact fun x g' hx => ih x (h x g' (hE g c x g' hp.1 hx)) (hp.2 x)

/-- From `g` the program may end with `a` in `g'`. -/
inductive Env.Ran (E : Env C A G) : Prog C A α → G → α → G → Prop where
  | ret (a : α) (g : G) : Ran E (.ret a) g a g
  | call {c : C} {k : A c → Prog C A α} {g g₁ g' : G} {x : A c} {a : α}
      (hx : E.may g c x g₁) (hk : Ran E (k x) g₁ a g') : Ran E (.call c k) g a g'

theorem Env.Always.ran {E : Env C A G} {p : Prog C A α} {Q : α → G → Prop} {g g' : G} {a : α}
    (h : E.Always p Q g) (hp : E.Ran p g a g') : Q a g' := by
  induction hp with
  | ret a g => exact h
  | call hx _ ih => exact ih (h _ _ hx)

theorem Prog.Ends.always {E : Env C A G} {Q : α → Prop} {p : Prog C A α} (hp : p.Ends Q) {g : G} :
    E.Always p (fun a _ => Q a) g := by
  induction p generalizing g with
  | ret a => exact hp
  | call c k ih => exact fun x g' _ => ih x (hp x)

abbrev Handler (C : Type) (A : C → Type) (G : Type) := (c : C) → G → A c × G

def Prog.run (h : Handler C A G) : Prog C A α → G → α × G
  | .ret a, g => (a, g)
  | .call c k, g => (k (h c g).1).run h (h c g).2

@[simp] theorem Prog.run_ret (h : Handler C A G) (a : α) (g : G) :
    (Prog.ret a : Prog C A α).run h g = (a, g) := rfl

@[simp] theorem Prog.run_call (h : Handler C A G) (c : C) (k : A c → Prog C A α) (g : G) :
    (Prog.call c k).run h g = (k (h c g).1).run h (h c g).2 := rfl

@[simp] theorem Prog.run_ask_bind (h : Handler C A G) (c : C) (f : A c → Prog C A α) (g : G) :
    (Prog.ask c >>= f).run h g = (f (h c g).1).run h (h c g).2 := rfl

theorem Prog.run_bind (h : Handler C A G) (p : Prog C A α) (f : α → Prog C A β) (g : G) :
    (p >>= f).run h g = (f (p.run h g).1).run h (p.run h g).2 := by
  induction p generalizing g with
  | ret a => rfl
  | call c k ih => exact ih _ _

/-- The calls of a run and their answers. -/
def Prog.trace (h : Handler C A G) : Prog C A α → G → List (Event C A)
  | .ret _, _ => []
  | .call c k, g => ⟨c, (h c g).1⟩ :: (k (h c g).1).trace h (h c g).2

theorem Prog.exec_trace (h : Handler C A G) (p : Prog C A α) (g : G) :
    p.Exec (p.trace h g) (p.run h g).1 := by
  induction p generalizing g with
  | ret a => exact .ret a
  | call c k ih => exact .call (ih _ _)

theorem Env.Always.run {E : Env C A G} {h : Handler C A G}
    (hE : ∀ g c, E.may g c (h c g).1 (h c g).2) {p : Prog C A α} {Q : α → G → Prop} {g : G}
    (hp : E.Always p Q g) : Q (p.run h g).1 (p.run h g).2 := by
  induction p generalizing g with
  | ret a => exact hp
  | call c k ih => exact ih _ (hp _ _ (hE g c))

theorem Env.ran_run {E : Env C A G} {h : Handler C A G}
    (hE : ∀ g c, E.may g c (h c g).1 (h c g).2) (p : Prog C A α) (g : G) :
    E.Ran p g (p.run h g).1 (p.run h g).2 := by
  induction p generalizing g with
  | ret a => exact .ret a g
  | call c k ih => exact .call (hE g c) (ih _ _)

/-- It is enough that the calls of the run are answered so. -/
theorem Env.ran_trace {E : Env C A G} {h : Handler C A G} {P : C → Prop}
    (hE : ∀ g c, P c → E.may g c (h c g).1 (h c g).2) {p : Prog C A α} {g : G}
    (hp : ∀ e ∈ p.trace h g, P e.1) : E.Ran p g (p.run h g).1 (p.run h g).2 := by
  induction p generalizing g with
  | ret a => exact .ret a g
  | call c k ih =>
    obtain ⟨hc, hrest⟩ := List.forall_mem_cons.mp hp
    exact .call (hE g c hc) (ih _ hrest)

/-- Any answer is possible that is `ok`, and the state is an account of the calls so far. -/
def Env.tracking (step : G → Event C A → G) (ok : Event C A → Prop) : Env C A G where
  may g c x g' := ok ⟨c, x⟩ ∧ g' = step g ⟨c, x⟩

section Tracking

variable {step : G → Event C A → G} {ok : Event C A → Prop}

theorem Env.tracking_ask_bind {c : C} {f : A c → Prog C A α} {Q : α → G → Prop} {g : G} :
    (Env.tracking step ok).Always (Prog.ask c >>= f) Q g ↔
      ∀ x, ok ⟨c, x⟩ → (Env.tracking step ok).Always (f x) Q (step g ⟨c, x⟩) := by
  constructor
  · intro h x hx
    exact h x _ ⟨hx, rfl⟩
  · intro h x g' hx
    rw [hx.2]
    exact h x hx.1

theorem Env.tracking_ask {c : C} {Q : A c → G → Prop} {g : G} :
    (Env.tracking step ok).Always (Prog.ask c) Q g ↔ ∀ x, ok ⟨c, x⟩ → Q x (step g ⟨c, x⟩) :=
  Env.tracking_ask_bind (f := .ret)

theorem Env.tracking_always_iff {p : Prog C A α} {Q : α → G → Prop} {g : G} :
    (Env.tracking step ok).Always p Q g ↔
      ∀ t a, p.Exec t a → (∀ e ∈ t, ok e) → Q a (t.foldl step g) := by
  induction p generalizing g with
  | ret a =>
    constructor
    · intro h t b hb _
      obtain ⟨rfl, rfl⟩ := Prog.exec_ret_iff.mp hb
      exact h
    · intro h
      exact h [] a (.ret a) (by simp)
  | call c k ih =>
    constructor
    · intro h t a ha hok
      obtain ⟨x, u, rfl, hu⟩ := Prog.exec_call_iff.mp ha
      obtain ⟨hx, hu'⟩ := List.forall_mem_cons.mp hok
      exact (ih x).mp (h x _ ⟨hx, rfl⟩) u a hu hu'
    · intro h x g' hx
      rw [hx.2]
      refine (ih x).mpr fun t a ht hok => ?_
      exact h (⟨c, x⟩ :: t) a (.call ht) (List.forall_mem_cons.mpr ⟨hx.1, hok⟩)

theorem Env.tracking_idle {p : Prog C A α} {g : G}
    (hp : p.Only fun c => ∀ x, step g ⟨c, x⟩ = g) :
    (Env.tracking step ok).Always p (fun _ g' => g' = g) g :=
  Env.always_of_invariant (I := (· = g)) (fun _ _ x g' hc hg hx => by rw [hx.2, hg, hc x]) hp rfl

end Tracking

/-- Every answer of the trace is `ok` when it comes. -/
def Along (step : G → Event C A → G) (ok : G → Event C A → Prop) :
    G → List (Event C A) → Prop
  | _, [] => True
  | g, e :: t => ok g e ∧ Along step ok (step g e) t

instance Along.decidable {step : G → Event C A → G} {ok : G → Event C A → Prop}
    [∀ g e, Decidable (ok g e)] : ∀ g t, Decidable (Along step ok g t)
  | _, [] => isTrue trivial
  | g, e :: t => @instDecidableAnd _ _ _ (Along.decidable (step g e) t)

theorem along_append {step : G → Event C A → G} {ok : G → Event C A → Prop} {g : G}
    {t u : List (Event C A)} :
    Along step ok g (t ++ u) ↔ Along step ok g t ∧ Along step ok (t.foldl step g) u := by
  induction t generalizing g with
  | nil => simp [Along]
  | cons e t ih => simp [Along, ih, and_assoc]

/-- What every event that is `ok` preserves, the trace preserves. -/
theorem Along.invariant {step : G → Event C A → G} {ok : G → Event C A → Prop} {I : G → Prop}
    (hI : ∀ g e, ok g e → I g → I (step g e)) {g : G} {t : List (Event C A)}
    (h : Along step ok g t) (hg : I g) : I (t.foldl step g) := by
  induction t generalizing g with
  | nil => exact hg
  | cons e t ih => exact ih h.2 (hI g e h.1 hg)

end UefiLkl.Interaction
