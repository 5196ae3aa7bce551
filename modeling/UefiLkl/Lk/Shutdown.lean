import UefiLkl.Lk.Events
set_option autoImplicit false

/-!
How a host timer is shut down: `timer_free` closes its event, tells its thread to stop and signals
it, and the thread frees the structure.
-/

namespace UefiLkl.Lk
open Coroutine

inductive Closing where
  | close
  | stop
  | signal
  | leave
  deriving DecidableEq, Repr

def Closing.frame (τ : Nat) : Closing → Frame
  | .close => .timerFree τ
  | .stop => .timerFreeStop τ
  | .signal => .timerFreeSignal τ
  | .leave => .timerFreeReturn τ

/-- `timer_free` was not called, or thread `u` is in it, or it has returned. -/
inductive Shutdown where
  | opened
  | closing (u : Tid) (step : Closing)
  | returned
  deriving DecidableEq, Repr

def Shutdown.isClosed : Shutdown → Bool
  | .opened | .closing _ .close => false
  | _ => true

def Shutdown.isStopped : Shutdown → Bool
  | .opened | .closing _ .close | .closing _ .stop => false
  | _ => true

theorem Shutdown.closed_of_stopped {s : Shutdown} (h : s.isStopped = true) : s.isClosed = true := by
  cases s with
  | opened => cases h
  | closing u step =>
    cases step with
    | close => cases h
    | _ => rfl
  | returned => rfl

def Shutdown.todo (τ : Nat) (u : Tid) : Shutdown → List Frame
  | .closing v step => if u = v then [step.frame τ] else []
  | _ => []

def Frame.shuts (τ : Nat) : Frame → Bool
  | .timerFree σ | .timerFreeStop σ | .timerFreeSignal σ | .timerFreeReturn σ => σ = τ
  | _ => false

/-- The thread of the timer stops only when it is told to, and frees the structure at its end. -/
structure Kernel.ShutAt (lk : Kernel) (τ : Nat) (s : Shutdown) : Prop where
  todo : ∀ u, (lk.frames u).filter (Frame.shuts τ) = s.todo τ u
  closed : (lk.ltimer τ).closed = s.isClosed
  requestStop : (lk.ltimer τ).requestStop = s.isStopped
  setting : s ≠ .opened → ∀ u, .timerSetOneshot τ ∉ lk.frames u
  returned : .timerFreed τ ∈ lk.log → s = .returned
  looping : s.isStopped = false → (lk.ltimer τ).frees = 0 ∧
    ∀ u, ∀ f ∈ lk.frames u, f.ofTimer = some τ → f.ends = false
  destroying : ∀ u, lk.doing u = some (.eventDestroy (.timer τ)) ∨ .timerFreePool τ ∈ lk.frames u →
    .call u (.eventDestroy (.timer τ)) ∈ lk.log
  freed : 0 < (lk.ltimer τ).frees → (lk.ltimer τ).frees = 1 ∧
    (∀ u, ∀ f ∈ lk.frames u, f.ofTimer ≠ some τ) ∧ ∃ t < lk.nextTid,
      (lk.threads t).entry = .timer τ ∧ .call t (.eventDestroy (.timer τ)) ∈ lk.log

/-- What the shutdown of the timer is about is left alone. -/
structure Kernel.Ignores (τ : Nat) (lk lk' : Kernel) : Prop where
  ltimer : lk'.ltimer τ = lk.ltimer τ
  frames : lk'.frames = lk.frames
  doing : ∀ u op, lk'.doing u = some op → lk.doing u = some op
  calls : ∀ t op, .call t op ∈ lk.log → .call t op ∈ lk'.log
  returned : .timerFreed τ ∈ lk'.log → .timerFreed τ ∈ lk.log
  born : ∀ t < lk.nextTid, t < lk'.nextTid ∧ (lk'.threads t).entry = (lk.threads t).entry

section Ignores

variable {lk lk' : Kernel} {c : Tid} {op : Op} {τ : Nat} {s : Shutdown}

theorem Kernel.Ignores.refl (lk : Kernel) : Kernel.Ignores τ lk lk :=
  ⟨rfl, rfl, fun _ _ => id, fun _ _ => id, id, fun _ ht => ⟨ht, rfl⟩⟩

theorem Kernel.ShutAt.ignore (h : lk.ShutAt τ s) (hi : Kernel.Ignores τ lk lk') :
    lk'.ShutAt τ s where
  todo := by
    rw [hi.frames]
    exact h.todo
  closed := by
    rw [hi.ltimer]
    exact h.closed
  requestStop := by
    rw [hi.ltimer]
    exact h.requestStop
  setting := by
    rw [hi.frames]
    exact h.setting
  returned hr := h.returned (hi.returned hr)
  looping := by
    rw [hi.ltimer, hi.frames]
    exact h.looping
  destroying u hu := by
    rw [hi.frames] at hu
    exact hi.calls u _ (h.destroying u (hu.imp_left (hi.doing u _)))
  freed hpos := by
    rw [hi.ltimer] at hpos ⊢
    rw [hi.frames]
    obtain ⟨hone, hgone, t, ht, hentry, hcall⟩ := h.freed hpos
    exact ⟨hone, hgone, t, (hi.born t ht).1, (hi.born t ht).2.trans hentry, hi.calls t _ hcall⟩

theorem Kernel.Changes.ignores (h : Kernel.Changes c op lk lk') : Kernel.Ignores τ lk lk' where
  ltimer := congrFun h.steady.ltimer τ
  frames := h.steady.frames
  doing u op hu := by rwa [h.steady.doing] at hu
  calls t op ht := by
    obtain ⟨l, hl, -⟩ := h.log
    rw [hl]
    exact List.mem_append_left l ht
  returned hr := h.mem_log hr rfl
  born t ht := ⟨ht.trans_le h.nextTid_le, h.entry ht⟩

theorem Kernel.ShutAt.begins (h : lk.ShutAt τ s) (c : Tid) (op : Op) :
    (lk.begins c op).ShutAt τ s where
  todo := h.todo
  closed := h.closed
  requestStop := h.requestStop
  setting := h.setting
  returned hr := h.returned (by simpa [Kernel.begins, Kernel.note] using hr)
  looping := h.looping
  destroying u hu := by
    by_cases hc : u = c ∧ op = .eventDestroy (.timer τ)
    · obtain ⟨rfl, rfl⟩ := hc
      exact List.mem_append_right _ List.mem_cons_self
    · refine List.mem_append_left _ (h.destroying u (hu.imp_left fun hdoing => ?_))
      by_cases hu : u = c
      · have hop : op = .eventDestroy (.timer τ) := by simpa [Kernel.begins, hu] using hdoing
        exact absurd ⟨hu, hop⟩ hc
      · simpa [Kernel.begins, Kernel.note, hu] using hdoing
  freed hpos := by
    obtain ⟨hone, hgone, t, ht, hentry, hcall⟩ := h.freed hpos
    exact ⟨hone, hgone, t, ht, hentry, List.mem_append_left _ hcall⟩

theorem Kernel.ShutAt.setFrames {frames : List Frame} (h : lk.ShutAt τ s)
    (htodo : frames.filter (Frame.shuts τ) = (lk.frames c).filter (Frame.shuts τ))
    (hsetting : s ≠ .opened → .timerSetOneshot τ ∉ frames)
    (hlooping : s.isStopped = false → ∀ f ∈ frames, f.ofTimer = some τ → f.ends = false)
    (hdestroying : .timerFreePool τ ∈ frames → .call c (.eventDestroy (.timer τ)) ∈ lk.log)
    (hfreed : 0 < (lk.ltimer τ).frees → ∀ f ∈ frames, f.ofTimer ≠ some τ) :
    (lk.setFrames c frames).ShutAt τ s := by
  have hcases : ∀ u f, f ∈ (lk.setFrames c frames).frames u →
      u = c ∧ f ∈ frames ∨ f ∈ lk.frames u := by
    intro u f hf
    by_cases hu : u = c
    · subst hu
      exact .inl ⟨rfl, by simpa [Kernel.setFrames] using hf⟩
    · exact .inr (by simpa [Kernel.setFrames, hu] using hf)
  refine ⟨fun u => ?_, h.closed, h.requestStop, fun hs u hu => ?_, h.returned, fun hs => ?_,
    fun u hu => ?_, fun hpos => ?_⟩
  · by_cases hu : u = c
    · subst hu
      simpa [Kernel.setFrames, htodo] using h.todo u
    · simpa [Kernel.setFrames, hu] using h.todo u
  · rcases hcases u _ hu with ⟨-, hu⟩ | hu
    · exact hsetting hs hu
    · exact h.setting hs u hu
  · refine ⟨(h.looping hs).1, fun u f hf hτ => ?_⟩
    rcases hcases u f hf with ⟨-, hf⟩ | hf
    · exact hlooping hs f hf hτ
    · exact (h.looping hs).2 u f hf hτ
  · rcases hu with hu | hu
    · exact h.destroying u (.inl hu)
    · rcases hcases u _ hu with ⟨rfl, hnew⟩ | hold
      · exact hdestroying hnew
      · exact h.destroying u (.inr hold)
  · obtain ⟨hone, hgone, hcalled⟩ := h.freed hpos
    refine ⟨hone, fun u f hf => ?_, hcalled⟩
    rcases hcases u f hf with ⟨-, hf⟩ | hf
    · exact hfreed hpos f hf
    · exact hgone u f hf

theorem Kernel.ShutAt.subset {frames : List Frame} (h : lk.ShutAt τ s)
    (htodo : frames.filter (Frame.shuts τ) = (lk.frames c).filter (Frame.shuts τ))
    (hsub : ∀ f ∈ frames, f ∈ lk.frames c ∨ f.ofTimer = none ∧ f ≠ .timerSetOneshot τ) :
    (lk.setFrames c frames).ShutAt τ s := by
  have hold : ∀ f ∈ frames, f.ofTimer = some τ → f ∈ lk.frames c := by
    intro f hf hτ
    refine (hsub f hf).resolve_right fun hnew => ?_
    rw [hnew.1] at hτ
    cases hτ
  refine h.setFrames htodo (fun hs hf => ?_) (fun hs f hf hτ => ?_) (fun hf => ?_)
    fun hpos f hf hτ => ?_
  · exact h.setting hs c ((hsub _ hf).resolve_right fun hnew => hnew.2 rfl)
  · exact (h.looping hs).2 c f (hold f hf hτ) hτ
  · exact h.destroying c (.inr (hold _ hf rfl))
  · exact (h.freed hpos).2.1 c f (hold f hf hτ) hτ

theorem Kernel.ShutAt.turn {f : Frame} {stack : List Frame} (h : lk.ShutAt τ s)
    (hframes : lk.frames c = f :: stack) (hf : f.shuts τ = true) :
    ∃ step, s = .closing c step ∧ f = step.frame τ ∧ stack.filter (Frame.shuts τ) = [] := by
  have htodo := h.todo c
  rw [hframes, List.filter_cons_of_pos hf] at htodo
  cases s with
  | closing v step =>
    by_cases hc : c = v
    · subst hc
      simp only [Shutdown.todo, if_true, List.cons.injEq] at htodo
      exact ⟨step, rfl, htodo.1, htodo.2⟩
    · simp [Shutdown.todo, hc] at htodo
  | _ => cases htodo

theorem Kernel.ShutAt.proceed {step : Closing} {s' : Shutdown} {stack : List Frame}
    (h : lk.ShutAt τ (.closing c step)) (new : List Frame)
    (hframes : lk.frames c = step.frame τ :: stack)
    (hstack : stack.filter (Frame.shuts τ) = [])
    (hframes' : lk'.frames = Function.update lk.frames c (new ++ stack))
    (hnew : ∀ f ∈ new, f.shuts τ = true)
    (htodo : ∀ u, s'.todo τ u = if u = c then new else [])
    (hclosed : (lk'.ltimer τ).closed = s'.isClosed)
    (hstop : (lk'.ltimer τ).requestStop = s'.isStopped)
    (hlater : s'.isStopped = false → (Shutdown.closing c step).isStopped = false)
    (hfrees : (lk'.ltimer τ).frees = (lk.ltimer τ).frees)
    (hdoing : ∀ u op, lk'.doing u = some op → lk.doing u = some op)
    (hcalls : ∀ t op, .call t op ∈ lk.log → .call t op ∈ lk'.log)
    (hreturned : .timerFreed τ ∈ lk'.log → s' = .returned)
    (hborn : ∀ t < lk.nextTid, t < lk'.nextTid ∧ (lk'.threads t).entry = (lk.threads t).entry) :
    lk'.ShutAt τ s' := by
  have hcases : ∀ u f, f.shuts τ = false → f ∈ lk'.frames u → f ∈ lk.frames u := by
    intro u f hshuts hf
    rw [hframes'] at hf
    by_cases hu : u = c
    · subst hu
      rw [Function.update_self] at hf
      rcases List.mem_append.mp hf with hf | hf
      · rw [hnew f hf] at hshuts
        cases hshuts
      · rw [hframes]
        exact List.mem_cons_of_mem _ hf
    · rwa [Function.update_of_ne hu] at hf
  have htimer : ∀ f : Frame, f.ofTimer = some τ → f.shuts τ = false := by
    intro f hf
    cases f <;> first | rfl | cases hf
  refine ⟨fun u => ?_, hclosed, hstop, fun _ u hu => ?_, hreturned, fun hs => ?_, fun u hu => ?_,
    fun hpos => ?_⟩
  · rw [htodo, hframes']
    by_cases hu : u = c
    · subst hu
      rw [Function.update_self, List.filter_append, hstack, List.append_nil, if_pos rfl,
        List.filter_eq_self.mpr hnew]
    · have hold := h.todo u
      rw [Function.update_of_ne hu, hold, if_neg hu]
      simp [Shutdown.todo, hu]
  · exact h.setting (by simp) u (hcases u _ rfl hu)
  · obtain ⟨hzero, hloop⟩ := h.looping (hlater hs)
    exact ⟨hfrees.trans hzero, fun u f hf hτ => hloop u f (hcases u f (htimer f hτ) hf) hτ⟩
  · exact hcalls u _ (h.destroying u (hu.imp (hdoing u _) (hcases u _ rfl)))
  · rw [hfrees] at hpos ⊢
    obtain ⟨hone, hgone, t, ht, hentry, hcall⟩ := h.freed hpos
    refine ⟨hone, fun u f hf hτ => hgone u f (hcases u f (htimer f hτ) hf) hτ, t, (hborn t ht).1,
      (hborn t ht).2.trans hentry, hcalls t _ hcall⟩

end Ignores

section Frames

variable {f f' : Frame} {op : Op} {next : Int → List Frame} {r : Int} {τ : Nat}

theorem Frame.section_shuts (hinstr : f.instr = .section op next) (hf : f ≠ .timerFreeSignal τ)
    (hf' : f' ∈ next r) : f'.shuts τ = false ∧ f' ≠ .timerSetOneshot τ ∧
      (f' = .timerFreePool τ → f = .timerDestroy τ) ∧ (f'.ends = true → f.ends = true) := by
  cases f <;> cases hinstr
  case timerFreeSignal σ =>
    have hσ : σ ≠ τ := fun h => hf (h ▸ rfl)
    rw [List.mem_singleton.mp hf']
    exact ⟨by simpa [Frame.shuts] using hσ, by simp, by simp, by simp [Frame.ends]⟩
  case threadDetachAndResume t =>
    rcases List.mem_append.mp hf' with hf' | hf'
    · split at hf' <;> simp_all [Frame.shuts, Frame.ends]
    · simp_all [Frame.shuts, Frame.ends]
  case threadResume | threadJoin | threadDetach | semDownWait =>
    dsimp only at hf'
    split at hf' <;> simp_all [Frame.shuts, Frame.ends]
  all_goals simp_all [Frame.shuts, Frame.ends]

theorem Frame.section_not_shuts (hinstr : f.instr = .section op next)
    (hf : f ≠ .timerFreeSignal τ) : f.shuts τ = false := by
  cases f <;> first | rfl | cases hinstr
  exact decide_eq_false fun hσ => hf (hσ ▸ rfl)

theorem Frame.act_next_shuts {g : Kernel → Kernel} {next : Kernel → List Frame} {lk : Kernel}
    (hinstr : f.instr = .act g next) (hf : f.shuts τ = false) (hf' : f' ∈ next lk) :
    f'.shuts τ = false ∧ f' ≠ .timerSetOneshot τ ∧ f' ≠ .timerFreePool τ ∧
      (f' = .timerDestroy τ → (lk.ltimer τ).requestStop = true) := by
  cases f <;> cases hinstr
  case mutexLock | mutexUnlock =>
    dsimp only at hf'
    split at hf' <;> simp_all [Frame.shuts]
  case timerThread σ | timerCheck σ =>
    dsimp only at hf'
    split at hf'
    · next hstop =>
      rw [List.mem_singleton.mp hf']
      refine ⟨rfl, by simp, by simp, fun h => ?_⟩
      cases h
      exact hstop
    · rw [List.mem_singleton.mp hf']
      exact ⟨rfl, by simp, by simp, by simp⟩
  case timerCall σ =>
    simp only [List.mem_cons, List.not_mem_nil, or_false] at hf'
    rcases hf' with rfl | rfl <;> simp [Frame.shuts]
  all_goals simp_all [Frame.shuts]

theorem Frame.ends_cases (hf : f.ends = true) (hτ : f.ofTimer = some τ) :
    f = .timerDestroy τ ∨ f = .timerFreePool τ := by
  cases f <;> cases hf <;> cases hτ
  · exact .inl rfl
  · exact .inr rfl

theorem Frame.callable_shuts (h : f.callable = true) (hf : f.shuts τ = true) :
    f = .timerFree τ := by
  cases f <;> simp_all [Frame.callable, Frame.shuts]

theorem Frame.act_doing {g : Kernel → Kernel} {next : Kernel → List Frame}
    (hinstr : f.instr = .act g next) (lk : Kernel) : (g lk).doing = lk.doing := by
  obtain ⟨_, _, _, _, _, _, _, heq⟩ := Frame.act_eq hinstr lk
  rw [heq]

theorem Frame.act_ignores {g : Kernel → Kernel} {next : Kernel → List Frame}
    (hinstr : f.instr = .act g next) (hf : f.shuts τ = false) (hpool : f ≠ .timerFreePool τ)
    (lk : Kernel) : Kernel.Ignores τ lk (g lk) := by
  have hevent : ∀ e, Kernel.Ignores τ lk (lk.useEvent e) := fun e => by
    rw [Kernel.useEvent_eq]
    exact { Kernel.Ignores.refl lk with }
  have hset : ∀ (lk' : Kernel) σ h, σ ≠ τ → Kernel.Ignores τ lk lk' →
      Kernel.Ignores τ lk (lk'.setTimer σ h) := fun lk' σ h hσ hi =>
    { hi with ltimer := (Function.update_of_ne hσ.symm _ _).trans hi.ltimer }
  have hnote : ∀ (lk' : Kernel) x, x ≠ .timerFreed τ → Kernel.Ignores τ lk lk' →
      Kernel.Ignores τ lk (lk'.note x) := fun lk' x hx hi =>
    { hi with
      calls := fun t op ht => List.mem_append_left _ (hi.calls t op ht)
      returned := fun hr => by
        rcases List.mem_append.mp hr with hr | hr
        · exact hi.returned hr
        · exact absurd (List.mem_singleton.mp hr).symm hx }
  cases f with
  | freeStack u | freeStruct u =>
    cases hinstr
    dsimp only
    rw [Kernel.useThread_eq]
    split <;> exact { Kernel.Ignores.refl lk with }
  | eventUnsignal e =>
    cases hinstr
    exact { hnote _ _ (by simp) (hevent e) with }
  | timerCall σ => cases hinstr; exact hnote _ _ (by simp) (hevent (.timer σ))
  | timerFreeReturn σ =>
    cases hinstr
    have hσ : σ ≠ τ := by simpa [Frame.shuts] using hf
    exact hnote _ _ (by simpa using hσ) (.refl lk)
  | timerSetOneshot σ | timerThread σ | timerCheck σ => cases hinstr; exact hevent (.timer σ)
  | timerFree σ | timerFreeStop σ =>
    cases hinstr
    have hσ : σ ≠ τ := by simpa [Frame.shuts] using hf
    exact hset _ _ _ hσ (hevent (.timer σ))
  | timerFreePool σ =>
    cases hinstr
    exact hset _ _ _ (fun hσ => hpool (hσ ▸ rfl)) (hevent (.timer σ))
  | mutexLock | mutexUnlock | lklThreadDetach => cases hinstr; exact .refl lk
  | timerAlloc => cases hinstr; exact { Kernel.Ignores.refl lk with }
  | _ => cases hinstr

end Frames

/-- `timer_set_oneshot` and `timer_free` are called of a timer that is not being freed, and the
second not while a thread is in the first. -/
def Kernel.FreesOnce (lk : Kernel) (τ : Nat) : Frame → Prop
  | .timerSetOneshot σ => σ = τ → (lk.ltimer τ).closed = false ∧
    ∀ u < lk.nextTid, ∀ f ∈ lk.frames u, f.shuts τ = false
  | .timerFree σ => σ = τ → (lk.ltimer τ).closed = false ∧
    ∀ u < lk.nextTid, ∀ f ∈ lk.frames u, f.shuts τ = false ∧ f ≠ .timerSetOneshot τ
  | _ => True

def Machine.FreesOnce (τ : Nat) (m : Machine) : Label → Prop
  | .call f => m.kernel.FreesOnce τ f
  | _ => True

section Steps

variable {ok : Machine → Label → Prop} {objects : Objects} {m : Machine} {label : Label}
  {lk lk' : Kernel} {c : Tid} {τ : Nat} {s : Shutdown}

theorem Kernel.ShutAt.unfreed {f : Frame} (h : lk.ShutAt τ s) (hf : f ∈ lk.frames c)
    (hτ : f.ofTimer = some τ) : (lk.ltimer τ).frees = 0 :=
  Nat.eq_zero_of_not_pos fun hpos => (h.freed hpos).2.1 c f hf hτ

theorem Kernel.ShutAt.stopped (h : lk.ShutAt τ s) (hpos : 0 < (lk.ltimer τ).frees) :
    s.isStopped = true := by
  by_contra hstopped
  rw [Bool.not_eq_true] at hstopped
  exact hpos.ne' (h.looping hstopped).1

theorem Kernel.ShutAt.opened (h : lk.ShutAt τ s) (hclosed : (lk.ltimer τ).closed = false)
    (hnone : ∀ u < lk.nextTid, ∀ f ∈ lk.frames u, f.shuts τ = false)
    (hunmade : ∀ u, lk.nextTid ≤ u → lk.frames u = []) : s = .opened := by
  have htodo : ∀ u, s.todo τ u = [] := by
    intro u
    rw [← h.todo u, List.filter_eq_nil_iff]
    intro f hf
    rcases Nat.lt_or_ge u lk.nextTid with hu | hu
    · simp [hnone u hu f hf]
    · rw [hunmade u hu] at hf
      cases hf
  cases s with
  | opened => rfl
  | closing v step => simpa [Shutdown.todo] using htodo v
  | returned =>
    have hshut := h.closed
    rw [hclosed] at hshut
    cases hshut

theorem Kernel.ShutAt.start {stack : List Frame} (h : lk.ShutAt τ .opened)
    (hframes : lk.frames c = stack) (hnone : ∀ u, .timerSetOneshot τ ∉ lk.frames u) :
    (lk.setFrames c (.timerFree τ :: stack)).ShutAt τ (.closing c .close) := by
  subst hframes
  have hset : ∀ u f, f ∈ (lk.setFrames c (.timerFree τ :: lk.frames c)).frames u →
      f = .timerFree τ ∨ f ∈ lk.frames u := by
    intro u f hf
    by_cases hu : u = c
    · subst hu
      exact List.mem_cons.mp (by simpa [Kernel.setFrames] using hf)
    · exact .inr (by simpa [Kernel.setFrames, hu] using hf)
  refine ⟨fun u => ?_, h.closed, h.requestStop, fun _ u hf => ?_, fun hr => ?_, fun hs => ?_,
    fun u hu => ?_, fun hpos => ?_⟩
  · have hold := h.todo u
    by_cases hu : u = c
    · subst hu
      simpa [Kernel.setFrames, Frame.shuts, Shutdown.todo, Closing.frame] using hold
    · simpa [Kernel.setFrames, hu, Shutdown.todo] using hold
  · exact hnone u ((hset u _ hf).resolve_left (by simp))
  · cases h.returned hr
  · obtain ⟨hzero, hloop⟩ := h.looping rfl
    refine ⟨hzero, fun u f hf hτ => ?_⟩
    rcases hset u f hf with rfl | hf
    · rfl
    · exact hloop u f hf hτ
  · exact h.destroying u (hu.imp_right fun hf => (hset u _ hf).resolve_left (by simp))
  · exact absurd (h.looping rfl).1 hpos.ne'

theorem Kernel.ShutAt.free (h : lk.ShutAt τ s) (hstopped : s.isStopped = true)
    (hzero : (lk.ltimer τ).frees = 0) (hgone : ∀ u, ∀ f ∈ lk.frames u, f.ofTimer ≠ some τ)
    (hcalled : ∃ t < lk.nextTid, (lk.threads t).entry = .timer τ ∧
      .call t (.eventDestroy (.timer τ)) ∈ lk.log) :
    (lk.setTimer τ fun timer => { timer with frees := timer.frees + 1 }).ShutAt τ s where
  todo := h.todo
  closed := by simpa [Kernel.setTimer] using h.closed
  requestStop := by simpa [Kernel.setTimer] using h.requestStop
  setting := h.setting
  returned := h.returned
  looping hs := by
    rw [hstopped] at hs
    cases hs
  destroying := h.destroying
  freed _ := ⟨by simp [Kernel.setTimer, hzero], hgone, hcalled⟩

theorem Kernel.ShutAt.act {f : Frame} {stack : List Frame} {g : Kernel → Kernel}
    {next : Kernel → List Frame} (h : lk.ShutAt τ s) (hframes : lk.frames c = f :: stack)
    (hinstr : f.instr = .act g next) (hf : f.shuts τ = true) :
    ∃ s', ((g lk).setFrames c (next lk ++ stack)).ShutAt τ s' := by
  obtain ⟨step, rfl, rfl, hstack⟩ := h.turn hframes hf
  have huse : (Shutdown.closing c step).isStopped = false → lk.useTimer τ = lk := fun hstep =>
    if_pos (h.looping hstep).1
  have hstop := h.requestStop
  cases step with
  | close =>
    cases hinstr
    refine ⟨.closing c .stop, ?_⟩
    dsimp only
    rw [huse rfl]
    refine h.proceed [.timerFreeStop τ] hframes hstack rfl (by simp [Frame.shuts])
      (fun _ => rfl) ?_ ?_ id ?_ (fun _ _ => id) (fun _ _ => id) (fun hr => ?_)
      fun _ ht => ⟨ht, rfl⟩
    · simp [Kernel.setFrames, Kernel.setTimer, Shutdown.isClosed]
    · simpa [Kernel.setFrames, Kernel.setTimer, Shutdown.isStopped] using hstop
    · simp [Kernel.setFrames, Kernel.setTimer]
    · cases h.returned hr
  | stop =>
    cases hinstr
    refine ⟨.closing c .signal, ?_⟩
    dsimp only
    rw [huse rfl]
    refine h.proceed [.timerFreeSignal τ] hframes hstack rfl (by simp [Frame.shuts])
      (fun _ => rfl) ?_ ?_ (fun hs => by cases hs) ?_ (fun _ _ => id) (fun _ _ => id)
      (fun hr => ?_) fun _ ht => ⟨ht, rfl⟩
    · simpa [Kernel.setFrames, Kernel.setTimer, Shutdown.isClosed] using h.closed
    · simp [Kernel.setFrames, Kernel.setTimer, Shutdown.isStopped]
    · simp [Kernel.setFrames, Kernel.setTimer]
    · cases h.returned hr
  | signal => cases hinstr
  | leave =>
    cases hinstr
    refine ⟨.returned, h.proceed [] hframes hstack rfl (by simp) (fun u => ?_) h.closed
      hstop (fun hs => by cases hs) rfl (fun _ _ => id) (fun _ _ => List.mem_append_left _)
      (fun _ => rfl) fun _ ht => ⟨ht, rfl⟩⟩
    simp [Shutdown.todo]

/-- Only the thread of the timer is in its frames, and in one of them at most. -/
theorem Kernel.Timed.gone {f : Frame} {frames stack : List Frame} (h : lk.Timed)
    (hending : lk.Ending) (hframes : lk.frames c = f :: stack) (hf : f.ofTimer = some τ)
    (hnew : ∀ f' ∈ frames, f'.ofTimer = none) (u : Tid) :
    ∀ f' ∈ (lk.setFrames c (frames ++ stack)).frames u, f'.ofTimer ≠ some τ := by
  intro f' hf' hτ
  by_cases hu : u = c
  · subst hu
    simp only [Kernel.setFrames, Function.update_self] at hf'
    rcases List.mem_append.mp hf' with hf' | hf'
    · rw [hnew f' hf'] at hτ
      cases hτ
    · have halone := hending.alone u
      rw [hframes, List.countP_cons_of_pos (by simp [Frame.isTimer, hf])] at halone
      have hpos : 0 < stack.countP Frame.isTimer :=
        List.countP_pos_iff.mpr ⟨f', hf', by simp [Frame.isTimer, hτ]⟩
      omega
  · have hold : f' ∈ lk.frames u := by simpa [Kernel.setFrames, hu] using hf'
    refine hu (h.single u c τ (h.owned u τ f' hold hτ) (h.owned c τ f ?_ hf))
    rw [hframes]
    exact List.mem_cons_self

theorem Kernel.ShutAt.pool {stack : List Frame} {g : Kernel → Kernel}
    {next : Kernel → List Frame} (h : lk.ShutAt τ s) (htimed : lk.Timed) (hending : lk.Ending)
    (hframes : lk.frames c = .timerFreePool τ :: stack)
    (hinstr : (Frame.timerFreePool τ).instr = .act g next) :
    ((g lk).setFrames c (next lk ++ stack)).ShutAt τ s := by
  have hmem : .timerFreePool τ ∈ lk.frames c := by simp [hframes]
  have hzero := h.unfreed hmem rfl
  have hstopped : s.isStopped = true := by
    by_contra hs
    have hends := (h.looping (Bool.eq_false_of_not_eq_true hs)).2 c _ hmem rfl
    cases hends
  have hentry := htimed.owned c τ _ hmem rfl
  have hmade : c < lk.nextTid := lt_of_not_ge fun hle => by
    rw [htimed.unborn c hle] at hentry
    cases hentry
  have huse : lk.useTimer τ = lk := if_pos hzero
  cases hinstr
  dsimp only
  rw [huse]
  have hset : (lk.setFrames c ([.exit 0] ++ stack)).ShutAt τ s := by
    refine h.subset ?_ fun f hf => ?_
    · rw [hframes]
      rfl
    · rcases List.mem_append.mp hf with hf | hf
      · rw [List.mem_singleton.mp hf]
        exact .inr ⟨rfl, by simp⟩
      · rw [hframes]
        exact .inl (List.mem_cons_of_mem _ hf)
  exact hset.free hstopped hzero (htimed.gone hending hframes rfl (by simp [Frame.ofTimer]))
    ⟨c, hmade, hentry, h.destroying c (.inr hmem)⟩

theorem Machine.Acts.shut (ha : m.Acts label lk) (h : m.kernel.ShutAt τ s)
    (huse : m.FreesOnce τ label) (htimed : m.kernel.Timed) (hending : m.kernel.Ending)
    (hcalled : ∀ t op, .call t op ∈ m.kernel.log → m.code t ≠ .fresh)
    (hunmade : ∀ u, m.kernel.nextTid ≤ u → m.kernel.frames u = [])
    (hfresh : m.code m.current = .fresh → m.kernel.frames m.current = []) :
    ∃ s', lk.ShutAt τ s' := by
  cases ha with
  | fresh hcode =>
    have hlock : Kernel.ShutAt { m.kernel with threadLock := false } τ s :=
      h.ignore { Kernel.Ignores.refl m.kernel with }
    have htimer : ∀ f ∈ (m.kernel.threads m.current).entry.frames, f.ofTimer = some τ →
        f = .timerThread τ ∧ (m.kernel.threads m.current).entry = .timer τ := by
      intro f hf hτ
      cases hentry : (m.kernel.threads m.current).entry <;> rw [hentry] at hf <;>
        simp_all [Entry.frames, Frame.ofTimer]
    refine ⟨s, hlock.setFrames ?_ (fun _ hf => ?_) (fun _ f hf hτ => ?_) (fun hf => ?_)
      fun hpos f hf hτ => ?_⟩
    · have hnil : Kernel.frames { m.kernel with threadLock := false } m.current = [] := hfresh hcode
      rw [hnil]
      cases (m.kernel.threads m.current).entry <;> rfl
    · cases hentry : (m.kernel.threads m.current).entry <;> rw [hentry] at hf <;>
        simp [Entry.frames] at hf
    · rw [(htimer f hf hτ).1]
      rfl
    · cases (htimer _ hf rfl).1
    · obtain ⟨-, -, t, -, hentry, hcall⟩ := h.freed hpos
      have ht : m.current = t := htimed.single _ t τ (htimer f hf hτ).2 hentry
      exact hcalled t _ hcall (ht ▸ hcode)
  | @act f stack g next hframes hinstr =>
    by_cases hshuts : f.shuts τ = true
    · exact h.act hframes hinstr hshuts
    rw [Bool.not_eq_true] at hshuts
    by_cases hpool : f = .timerFreePool τ
    · subst hpool
      exact ⟨s, h.pool htimed hending hframes hinstr⟩
    have hi := Frame.act_ignores hinstr hshuts hpool m.kernel
    have hold : ∀ f' ∈ stack, f' ∈ m.kernel.frames m.current := fun f' hf' => by
      rw [hframes]
      exact List.mem_cons_of_mem f hf'
    refine ⟨s, (h.ignore hi).setFrames ?_ (fun hs hf' => ?_) (fun hs f' hf' hτ => ?_)
      (fun hf' => hi.calls _ _ ?_) fun hpos f' hf' hτ => ?_⟩
    · rw [Frame.act_frames hinstr, hframes, List.filter_append,
        List.filter_cons_of_neg (by simp [hshuts]), List.filter_eq_nil_iff.mpr, List.nil_append]
      exact fun f' hf' => by simp [(Frame.act_next_shuts hinstr hshuts hf').1]
    · rcases List.mem_append.mp hf' with hf' | hf'
      · exact (Frame.act_next_shuts hinstr hshuts hf').2.1 rfl
      · exact h.setting hs m.current (hold _ hf')
    · rcases List.mem_append.mp hf' with hf' | hf'
      · obtain ⟨-, -, hnot, hstop⟩ := Frame.act_next_shuts hinstr hshuts hf'
        refine Bool.eq_false_of_not_eq_true fun hends => ?_
        have hstopped := hstop ((Frame.ends_cases hends hτ).resolve_right hnot)
        rw [h.requestStop, hs] at hstopped
        cases hstopped
      · exact (h.looping hs).2 m.current f' (hold f' hf') hτ
    · rcases List.mem_append.mp hf' with hf' | hf'
      · exact absurd rfl (Frame.act_next_shuts hinstr hshuts hf').2.2.1
      · exact h.destroying m.current (.inr (hold _ hf'))
    · rw [hi.ltimer] at hpos
      rcases List.mem_append.mp hf' with hf' | hf'
      · refine (h.freed hpos).2.1 m.current f ?_ ((Frame.act_next hinstr hf').2.2 τ hτ)
        rw [hframes]
        exact List.mem_cons_self
      · exact (h.freed hpos).2.1 m.current f' (hold f' hf') hτ
  | @call f stack hframes hf =>
    have huser : ∀ f' ∈ Frame.user :: stack, f' ∈ m.kernel.frames m.current := fun f' hf' => by
      rwa [hframes]
    have htimer := (Frame.callable_lawful hf).2.1
    by_cases hshuts : f.shuts τ = true
    · have hfree := Frame.callable_shuts hf hshuts
      subst hfree
      obtain ⟨hclosed, hnone⟩ := huse rfl
      have hs : s = .opened :=
        h.opened hclosed (fun u hu f hf => (hnone u hu f hf).1) hunmade
      subst hs
      exact ⟨_, h.start hframes fun u hset => by
        rcases Nat.lt_or_ge u m.kernel.nextTid with hu | hu
        · exact (hnone u hu _ hset).2 rfl
        · rw [hunmade u hu] at hset
          cases hset⟩
    · rw [Bool.not_eq_true] at hshuts
      refine ⟨s, h.setFrames ?_ (fun hs hf' => ?_) (fun hs f' hf' hτ => ?_) (fun hf' => ?_)
        fun hpos f' hf' hτ => ?_⟩
      · rw [hframes, List.filter_cons_of_neg (by simp [hshuts])]
      · rcases List.mem_cons.mp hf' with rfl | hf'
        · obtain ⟨hclosed, hnone⟩ := huse rfl
          exact hs (h.opened hclosed hnone hunmade)
        · exact h.setting hs m.current (huser _ hf')
      · rcases List.mem_cons.mp hf' with rfl | hf'
        · rw [htimer] at hτ
          cases hτ
        · exact (h.looping hs).2 m.current f' (huser f' hf') hτ
      · rcases List.mem_cons.mp hf' with rfl | hf'
        · cases htimer
        · exact h.destroying m.current (.inr (huser _ hf'))
      · rcases List.mem_cons.mp hf' with rfl | hf'
        · rw [htimer] at hτ
          cases hτ
        · exact (h.freed hpos).2.1 m.current f' (huser f' hf') hτ
  | @ret r stack hframes =>
    refine ⟨s, h.subset ?_ fun f hf => .inl ?_⟩
    · rw [hframes]
      rfl
    · rw [hframes]
      exact List.mem_cons_of_mem _ hf
  | @exit r hframes =>
    refine ⟨s, h.subset ?_ fun f hf => .inr ?_⟩
    · rw [hframes]
      rfl
    · rw [List.mem_singleton.mp hf]
      exact ⟨rfl, by simp⟩
  | tick =>
    refine ⟨s, h.ignore ?_⟩
    have hq := Kernel.Quiet.tick m.kernel
    have hentry : ∀ t, (m.kernel.threadTimerTick.1.threads t).entry =
        (m.kernel.threads t).entry := fun t => by
      obtain ⟨n, hn⟩ := hq.threads t
      rw [hn]
    rw [Kernel.threadTimerTick_eq]
    exact { Kernel.Ignores.refl m.kernel with born := fun t ht => ⟨ht, hentry t⟩ }

theorem Machine.Ground.ltimer (hg : m.Ground lk) : lk.ltimer = m.kernel.ltimer := by
  cases hg with
  | run => rfl
  | interrupt hi =>
    cases hi with
    | tick => rw [Kernel.threadTimerTick_eq]; rfl
    | _ => rfl

theorem Machine.Ground.shut (hg : m.Ground lk) (h : m.kernel.ShutAt τ s) : lk.ShutAt τ s := by
  cases hg with
  | run => exact h
  | @interrupt lk op hi =>
    have hground := Machine.Ground.interrupt hi
    have hlog : lk.log = m.kernel.log := hground.log
    have hlk : lk.ShutAt τ s := by
      refine h.ignore ⟨congrFun hground.ltimer τ, hi.frames, fun u op hu => ?_, fun t op ht => ?_,
        fun hr => ?_, fun t ht => ?_⟩
      · rwa [hi.quiet.doing] at hu
      · rwa [hlog]
      · rwa [hlog] at hr
      · obtain ⟨n, hn⟩ := hi.quiet.threads t
        rw [hi.quiet.nextTid, hn]
        exact ⟨ht, rfl⟩
    refine hlk.subset ?_ fun f hf => ?_
    · rw [List.filter_cons_of_neg (by simp [Frame.shuts])]
    · rcases List.mem_cons.mp hf with rfl | hf
      · exact .inr ⟨rfl, by simp⟩
      · exact .inl hf

theorem Kernel.Ignores.ends {op : Op} {b : Bool} {r : Int} (lk : Kernel) (frames : List Frame) :
    Kernel.Ignores τ (lk.setFrames c frames) (lk.ends c op b r frames) where
  ltimer := rfl
  frames := rfl
  doing u op' hu := by
    by_cases hc : u = c
    · simp [Kernel.ends, hc] at hu
    · simpa [Kernel.ends, Kernel.note, Kernel.setFrames, hc] using hu
  calls t op ht := List.mem_append_left _ ht
  returned hr := by simpa [Kernel.ends, Kernel.note, Kernel.setFrames] using hr
  born t ht := ⟨ht, rfl⟩

theorem Kernel.ShutAt.ends {op : Op} {f : Frame} {stack : List Frame} {next : Int → List Frame}
    (h : lk.ShutAt τ s) (hframes : lk.frames c = f :: stack) (hinstr : f.instr = .section op next)
    (hdoing : lk.doing c = some op) (b : Bool) (r : Int) :
    ∃ s', (lk.ends c op b r (next r ++ stack)).ShutAt τ s' := by
  by_cases hf : f = .timerFreeSignal τ
  · subst hf
    obtain ⟨step, rfl, hstep, hstack⟩ := h.turn hframes (by simp [Frame.shuts])
    cases step with
    | signal =>
      cases hinstr
      have hset : (lk.setFrames c ([.timerFreeReturn τ] ++ stack)).ShutAt τ
          (.closing c .leave) := by
        refine h.proceed [.timerFreeReturn τ] hframes hstack rfl (by simp [Frame.shuts])
          (fun _ => rfl) h.closed h.requestStop (fun hs => hs) rfl (fun _ _ => id) (fun _ _ => id)
          (fun hr => ?_) fun _ ht => ⟨ht, rfl⟩
        cases h.returned hr
      exact ⟨_, hset.ignore (.ends lk _)⟩
    | _ => cases hstep
  have hshuts := Frame.section_not_shuts hinstr hf
  have hmem : f ∈ lk.frames c := by simp [hframes]
  have hold : ∀ f' ∈ stack, f' ∈ lk.frames c := fun f' hf' => by
    rw [hframes]
    exact List.mem_cons_of_mem f hf'
  refine ⟨s, .ignore (h.setFrames ?_ (fun hs hf' => ?_) (fun hs f' hf' hτ => ?_) (fun hf' => ?_)
    fun hpos f' hf' hτ => ?_) (.ends lk _)⟩
  · rw [hframes, List.filter_append, List.filter_cons_of_neg (by simp [hshuts]),
      List.filter_eq_nil_iff.mpr, List.nil_append]
    exact fun f' hf' => by simp [(Frame.section_shuts hinstr hf hf').1]
  · rcases List.mem_append.mp hf' with hf' | hf'
    · exact (Frame.section_shuts hinstr hf hf').2.1 rfl
    · exact h.setting hs c (hold _ hf')
  · rcases List.mem_append.mp hf' with hf' | hf'
    · refine Bool.eq_false_of_not_eq_true fun hends => ?_
      have hloop := (h.looping hs).2 c f hmem ((Frame.section_next hinstr hf').2.2 τ hτ)
      rw [(Frame.section_shuts hinstr hf hf').2.2.2 hends] at hloop
      cases hloop
    · exact (h.looping hs).2 c f' (hold f' hf') hτ
  · rcases List.mem_append.mp hf' with hf' | hf'
    · have hdestroy := (Frame.section_shuts hinstr hf hf').2.2.1 rfl
      subst hdestroy
      cases hinstr
      exact h.destroying c (.inl hdoing)
    · exact h.destroying c (.inr (hold _ hf'))
  · rcases List.mem_append.mp hf' with hf' | hf'
    · exact (h.freed hpos).2.1 c f hmem ((Frame.section_next hinstr hf').2.2 τ hτ)
    · exact (h.freed hpos).2.1 c f' (hold f' hf') hτ

theorem Machine.Opens.shut {op : Op} {f : Frame} {stack : List Frame} {next : Int → List Frame}
    (h : m.Opens op lk) (hframes : lk.frames m.current = f :: stack)
    (hinstr : f.instr = .section op next) (hlk : lk.ShutAt τ s) :
    ((perform op).run (lk.begins m.current op)).Wp
      (fun lk' => Turn m.current op (f :: stack) lk' ∧ lk'.Sound) (fun lk' => ∃ s, lk'.ShutAt τ s)
      (fun b r lk' => ∃ s, (lk'.ends m.current op b r (next r ++ stack)).ShutAt τ s) true := by
  refine h.keeps (J := fun lk' => ∃ s, lk'.ShutAt τ s) hframes ⟨s, hlk.begins m.current op⟩ ?_ ?_
  · rintro lk₁ lk₂ - - hs ⟨s, hj⟩
    exact ⟨s, hj.ignore hs.ignores⟩
  · rintro b r lk₁ hframes' hdoing ⟨s, hj⟩
    exact hj.ends hframes' hinstr hdoing b r

theorem Machine.Run.unmade (hrun : Machine.Run ok (.boot objects) m) :
    m.Keeping fun lk => ∀ u, lk.nextTid ≤ u → lk.frames u = [] := by
  refine hrun.keeping (Machine.boot_keeping objects fun _ _ _ _ u hu => ?_) ?_ ?_
  · have hne : u ≠ bootstrapThread := (Nat.lt_of_succ_le hu).ne'
    simp [Kernel.idleStart, Kernel.start, hne]
  · intro m label lk _ hm ha u hu
    have hnext : lk.nextTid = m.kernel.nextTid := by
      rcases ha.quiet with hq | ⟨e, -, hq⟩
      · exact hq.nextTid
      · rw [hq.nextTid, Kernel.eventUnsignal, Kernel.useEvent_eq]
        rfl
    rw [hnext] at hu
    have hne : u ≠ m.current := (hm.kernel.1.current_lt.trans_le hu).ne'
    rw [ha.frames hne]
    exact hm.kernel.2 u hu
  · intro m label lk f stack op next _ hm hg hframes hinstr hbegins
    have hopens := hm.opens hg hframes hinstr hbegins
    have hlk : ∀ u, (lk.begins m.current op).nextTid ≤ u →
        (lk.begins m.current op).frames u = [] := by
      intro u hu
      have hle : m.kernel.nextTid ≤ u := by rwa [← hg.quiet.nextTid]
      have hne : u ≠ m.current := (hm.kernel.1.current_lt.trans_le hle).ne'
      exact (hg.frames hne).trans (hm.kernel.2 u hle)
    have hmoves := perform_changing m.current op (lk.begins m.current op) hopens.current
    have hkeeps : ∀ s s' : Kernel, Kernel.Changes m.current op s s' →
        (∀ u, s.nextTid ≤ u → s.frames u = []) → ∀ u, s'.nextTid ≤ u → s'.frames u = [] :=
      fun s s' hs hj u hu => by
        rw [hs.steady.frames]
        exact hj u (hs.nextTid_le.trans hu)
    refine (hmoves.wp_last (S := fun s => Turn m.current op (f :: stack) s ∧ s.Sound)
      (J := fun s => ∀ u, s.nextTid ≤ u → s.frames u = []) (fun s hs => hs.1.current)
      (fun s s' hs _ hj => hkeeps s s' hs hj) ⟨⟨hopens.current, by simp [Kernel.begins], hframes⟩,
        hopens.begins⟩ hlk true).mono ?_
    rintro b r s ⟨s₁, ⟨ht, hsound⟩, hj, hs⟩ u hu
    have hne : u ≠ m.current := by
      rintro rfl
      exact ((hsound.tracked.alive m.current op ht.doing).1.trans_le
        (hs.nextTid_le.trans hu)).ne rfl
    have hframes' : (s.ends m.current op b r (next r ++ stack)).frames u = s.frames u :=
      Function.update_of_ne hne _ _
    rw [hframes']
    exact hkeeps s₁ s hs hj u hu

structure Machine.Known (m : Machine) : Prop where
  timed : m.kernel.Timed
  ending : m.kernel.Ending
  called : ∀ t op, .call t op ∈ m.kernel.log → m.code t ≠ .fresh
  unmade : ∀ u, m.kernel.nextTid ≤ u → m.kernel.frames u = []

theorem Machine.Run.known (hrun : Machine.Run ok (.boot objects) m) : m.Known :=
  ⟨hrun.timed.kernel.2, hrun.ending.kernel.2, hrun.called, hrun.unmade.kernel.2⟩

theorem Kernel.idleStart_shut (objects : Objects) (τ : Nat) :
    (Kernel.idleStart objects).ShutAt τ .opened := by
  have hframes : ∀ u, ∀ f ∈ (Kernel.idleStart objects).frames u, f = .user := by
    intro u f hf
    by_cases hu : u = bootstrapThread
    · simpa [Kernel.idleStart, Kernel.start, hu] using hf
    · simp [Kernel.idleStart, Kernel.start, hu] at hf
  refine ⟨fun u => ?_, rfl, rfl, fun hs => absurd rfl hs, fun hr => absurd hr List.not_mem_nil,
    fun _ => ⟨rfl, fun u f hf hτ => ?_⟩, fun u hu => ?_, fun hpos => absurd hpos (lt_irrefl 0)⟩
  · refine List.filter_eq_nil_iff.mpr fun f hf => ?_
    rw [hframes u f hf]
    exact Bool.false_ne_true
  · rw [hframes u f hf] at hτ
    cases hτ
  · rcases hu with hu | hu
    · cases hu
    · cases hframes u _ hu

/-- In every run in which the timer is freed once its shutdown is at some stage. -/
theorem Machine.Run.shut (hrun : Machine.Run ok (.boot objects) m)
    (hok : ∀ m label, ok m label → m.FreesOnce τ label) :
    m.Keeping fun lk => ∃ s, lk.ShutAt τ s := by
  have hrun' := hrun.through fun m₁ h _ => h.known
  refine hrun'.acting (Machine.boot_keeping objects fun _ _ _ hchanges => ?_) ?_ ?_
  · exact ⟨.opened, (Kernel.idleStart_shut objects τ).ignore hchanges.ignores⟩
  · rintro m label lk ⟨hm', hknown⟩ hm ha
    obtain ⟨s, hs⟩ := hm.kernel.2
    exact ha.shut hs (hok m label hm') hknown.timed hknown.ending hknown.called hknown.unmade
      fun hcode => (hm.fresh _ hcode).2
  · intro m label lk f stack op next _ hm hg hframes hinstr hbegins
    obtain ⟨s, hs⟩ := hm.kernel.2
    exact (hm.opens hg hframes hinstr hbegins).shut hframes hinstr (hg.shut hs)

end Steps

def Frame.alarm : Frame → Bool
  | .op (.eventSignal (.timer _) _) => true
  | _ => false

/-- `LTimerCallback` is on top of all else, and is always in its operation. -/
def Kernel.Alarmed (lk : Kernel) : Prop :=
  ∀ u, (∀ f ∈ (lk.frames u).tail, f.alarm = false) ∧
    (lk.doing u = none → ∀ f ∈ lk.frames u, f.alarm = false)

section Alarms

variable {ok : Machine → Label → Prop} {objects : Objects} {m : Machine} {label : Label}
  {lk lk' : Kernel} {c : Tid} {op : Op} {f f' : Frame}

theorem Frame.section_alarm {next : Int → List Frame} {r : Int}
    (hinstr : f.instr = .section op next) (hf' : f' ∈ next r) : f'.alarm = false := by
  cases f <;> cases hinstr
  case threadDetachAndResume t =>
    rcases List.mem_append.mp hf' with hf' | hf'
    · split at hf' <;> simp_all [Frame.alarm]
    · simp_all [Frame.alarm]
  case threadResume | threadJoin | threadDetach | semDownWait =>
    dsimp only at hf'
    split at hf' <;> simp_all [Frame.alarm]
  all_goals simp_all [Frame.alarm]

theorem Frame.act_alarm {g : Kernel → Kernel} {next : Kernel → List Frame}
    (hinstr : f.instr = .act g next) (hf' : f' ∈ next lk) : f'.alarm = false := by
  cases f <;> cases hinstr
  case mutexLock | mutexUnlock | timerThread | timerCheck =>
    dsimp only at hf'
    split at hf' <;> simp_all [Frame.alarm]
  case timerCall σ =>
    simp only [List.mem_cons, List.not_mem_nil, or_false] at hf'
    rcases hf' with rfl | rfl <;> rfl
  all_goals simp_all [Frame.alarm]

theorem Frame.callable_alarm (h : f.callable = true) : f.alarm = false := by
  cases f with
  | op o =>
    cases o with
    | eventSignal e => cases e <;> simp_all [Frame.callable, Frame.alarm]
    | _ => rfl
  | _ => rfl

theorem Machine.Holds.free {J : Kernel → Prop} {t : Tid} {stack : List Frame} (h : m.Holds J)
    (hframes : m.kernel.frames t = f :: stack) (hf : ∀ op next, f.instr ≠ .section op next) :
    m.kernel.doing t = none := by
  cases hdoing : m.kernel.doing t with
  | none => rfl
  | some op =>
    obtain ⟨f', stack', next, hframes', hinstr⟩ := h.frame hdoing
    rw [hframes] at hframes'
    cases hframes'
    exact absurd hinstr (hf op next)

theorem Kernel.Alarmed.setFrames {frames : List Frame} (h : lk.Alarmed)
    (hframes : ∀ f ∈ frames, f.alarm = false) : (lk.setFrames c frames).Alarmed := by
  intro u
  by_cases hu : u = c
  · subst hu
    simp only [Kernel.setFrames, Function.update_self]
    exact ⟨fun f hf => hframes f (List.mem_of_mem_tail hf), fun _ => hframes⟩
  · simpa [Kernel.setFrames, hu] using h u

theorem Kernel.Alarmed.of_eq (h : lk.Alarmed) (hframes : lk'.frames = lk.frames)
    (hdoing : lk'.doing = lk.doing) : lk'.Alarmed := by
  intro u
  rw [hframes, hdoing]
  exact h u

theorem Machine.Aside.alarmed (ha : m.Aside lk) (hm : m.Keeping Kernel.Alarmed) : lk.Alarmed := by
  have h := hm.kernel.2
  have hstack : ∀ f stack, m.kernel.frames m.current = f :: stack →
      (∀ op next, f.instr ≠ .section op next) → ∀ f' ∈ f :: stack, f'.alarm = false := by
    intro f stack hframes hf f' hf'
    exact (h m.current).2 (hm.free hframes hf) f' (by rwa [hframes])
  cases ha with
  | fresh hcode =>
    have hlock : Kernel.Alarmed { m.kernel with threadLock := false } := h.of_eq rfl rfl
    refine hlock.setFrames ?_
    cases (m.kernel.threads m.current).entry <;> simp [Entry.frames, Frame.alarm]
  | @act f stack g next hframes hinstr =>
    have hg : (g m.kernel).Alarmed :=
      h.of_eq (Frame.act_frames hinstr _) (Frame.act_doing hinstr _)
    refine hg.setFrames fun f' hf' => ?_
    rcases List.mem_append.mp hf' with hf' | hf'
    · exact Frame.act_alarm hinstr hf'
    · exact hstack f stack hframes (by simp [hinstr]) f' (List.mem_cons_of_mem f hf')
  | @call f stack hframes hf =>
    exact h.setFrames (List.forall_mem_cons.mpr ⟨Frame.callable_alarm hf,
      hstack _ _ hframes (by simp [Frame.instr])⟩)
  | @ret stack hframes =>
    exact h.setFrames fun f hf =>
      hstack _ _ hframes (by simp [Frame.instr]) f (List.mem_cons_of_mem _ hf)
  | exit => exact h.setFrames (by simp [Frame.alarm])
  | tick =>
    rw [Kernel.threadTimerTick_eq]
    exact h.of_eq rfl rfl

theorem Machine.Ground.alarmed (hg : m.Ground lk) (h : m.kernel.Alarmed)
    (hdoing : m.kernel.doing m.current = none) :
    ∀ f ∈ (lk.frames m.current).tail, f.alarm = false := by
  cases hg with
  | run => exact (h m.current).1
  | @interrupt lk op hi =>
    simp only [Kernel.setFrames, Function.update_self, List.tail_cons, hi.frames]
    exact (h m.current).2 hdoing

theorem Machine.Run.alarmed (hrun : Machine.Run ok (.boot objects) m) :
    m.Keeping Kernel.Alarmed := by
  refine hrun.keeping (Machine.boot_keeping objects fun _ _ _ _ u => ?_)
    (fun _ _ _ _ hm ha => ha.alarmed hm) ?_
  · by_cases hu : u = bootstrapThread <;> simp [Kernel.idleStart, Kernel.start, hu, Frame.alarm]
  · intro m label lk f stack op next _ hm hg hframes hinstr hbegins
    have hopens := hm.opens hg hframes hinstr hbegins
    have htail := hg.alarmed hm.kernel.2 hopens.idle
    rw [hframes, List.tail_cons] at htail
    have hbegun : (lk.begins m.current op).Alarmed := by
      intro u
      by_cases hu : u = m.current
      · subst hu
        refine ⟨?_, fun hnone => by simp [Kernel.begins] at hnone⟩
        have hsame : (lk.begins m.current op).frames m.current = f :: stack := hframes
        rw [hsame]
        exact htail
      · have hframes' : (lk.begins m.current op).frames u = m.kernel.frames u := hg.frames hu
        have hdoing' : (lk.begins m.current op).doing u = m.kernel.doing u := by
          rw [← hg.quiet.doing]
          exact Function.update_of_ne hu _ _
        rw [hframes', hdoing']
        exact hm.kernel.2 u
    refine hopens.keeps hframes hbegun
      (fun s s' _ _ hs hj => hj.of_eq hs.steady.frames hs.steady.doing) fun b r s _ _ hj => ?_
    have hset : (s.setFrames m.current (next r ++ stack)).Alarmed := by
      refine hj.setFrames fun f' hf' => ?_
      rcases List.mem_append.mp hf' with hf' | hf'
      · exact Frame.section_alarm hinstr hf'
      · exact htail f' hf'
    intro u
    by_cases hu : u = m.current
    · refine ⟨(hset u).1, fun _ f' hf' => ?_⟩
      have hframes' : (s.ends m.current op b r (next r ++ stack)).frames u = next r ++ stack := by
        rw [hu]
        exact Function.update_self _ _ _
      rw [hframes'] at hf'
      rcases List.mem_append.mp hf' with hf' | hf'
      · exact Frame.section_alarm hinstr hf'
      · exact htail f' hf'
    · have hdoing' : (s.ends m.current op b r (next r ++ stack)).doing u = s.doing u :=
        Function.update_of_ne hu _ _
      rw [hdoing']
      exact hset u

/-- The event of a timer is signaled in `LTimerCallback`, which comes before `CloseEvent`, or in
`timer_free`. -/
theorem Machine.signals_timer {τ : Nat} {b : Bool} {stack : List Frame} {next : Int → List Frame}
    (hm : m.Keeping Kernel.Alarmed) (hg : m.Ground lk) (hframes : lk.frames m.current = f :: stack)
    (hinstr : f.instr = .section (.eventSignal (.timer τ) b) next)
    (hdoing : m.kernel.doing m.current = none) :
    (m.kernel.ltimer τ).closed = false ∨ f = .timerFreeSignal τ := by
  cases hg with
  | run =>
    refine .inr ?_
    have halarm := (hm.kernel.2 m.current).2 hdoing f (by simp [hframes])
    cases f <;> cases hinstr
    · cases halarm
    · rfl
  | @interrupt lk op hi =>
    simp only [Kernel.setFrames, Function.update_self, List.cons.injEq] at hframes
    rw [← hframes.1] at hinstr
    cases hinstr
    cases hi with
    | lTimer σ hnew hclosed => exact .inl hclosed

end Alarms

end UefiLkl.Lk
