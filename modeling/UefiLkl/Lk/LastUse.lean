import UefiLkl.Lk.Silence
set_option autoImplicit false

/-!
Nobody uses the structure of a host timer after it is freed, provided that its thread does not free
it after `timer_free` has asked for that and before it has begun its signal.
-/

namespace UefiLkl.Lk
open Coroutine

/-- Who is to signal the event of the timer is doing it already. -/
def Kernel.Signaling (lk : Kernel) (τ : Nat) : Prop :=
  ∀ u, .timerFreeSignal τ ∈ lk.frames u →
    lk.doing u ≠ none ∧ .timerFreeSignal τ ∉ (lk.frames u).tail

/-- The structure is freed when who is to signal the event has begun. -/
def Machine.FreesLast (τ : Nat) (m : Machine) : Label → Prop
  | .run => (m.kernel.frames m.current).head? = some (.timerFreePool τ) →
      ∀ u < m.kernel.nextTid, .timerFreeSignal τ ∈ m.kernel.frames u →
        (m.kernel.frames u).head? = some (.timerFreeSignal τ) ∧ m.kernel.doing u ≠ none
  | _ => True

section Signaling

variable {ok : Machine → Label → Prop} {objects : Objects} {m : Machine} {label : Label}
  {lk lk' : Kernel} {c : Tid} {op : Op} {τ : Nat} {s : Shutdown} {f : Frame} {stack : List Frame}
  {J : Kernel → Prop}

theorem Frame.act_next_signals {g : Kernel → Kernel} {next : Kernel → List Frame}
    (hinstr : f.instr = .act g next) (hmem : .timerFreeSignal τ ∈ next lk) :
    f = .timerFreeStop τ := by
  cases f <;> cases hinstr
  case timerFreeStop σ =>
    rw [List.mem_singleton, Frame.timerFreeSignal.injEq] at hmem
    rw [hmem]
  case mutexLock | mutexUnlock | timerThread | timerCheck =>
    dsimp only at hmem
    split at hmem <;> simp at hmem
  all_goals simp at hmem

theorem Frame.act_ltimer {α : Type} (field : LTimer → α) {g : Kernel → Kernel}
    {next : Kernel → List Frame} (hinstr : f.instr = .act g next)
    (hclose : f = .timerFree τ → ∀ timer, field { timer with closed := true } = field timer)
    (hstop : f = .timerFreeStop τ →
      ∀ timer, field { timer with requestStop := true } = field timer)
    (hfree : f = .timerFreePool τ →
      ∀ timer, field { timer with frees := timer.frees + 1 } = field timer) (lk : Kernel) :
    field ((g lk).ltimer τ) = field (lk.ltimer τ) := by
  have huse : ∀ e, (lk.useEvent e).ltimer = lk.ltimer := fun e => by rw [Kernel.useEvent_eq]
  have hset : ∀ σ (h : LTimer → LTimer), (σ = τ → ∀ timer, field (h timer) = field timer) →
      field (((lk.useTimer σ).setTimer σ h).ltimer τ) = field (lk.ltimer τ) := by
    intro σ h hh
    by_cases hσ : τ = σ
    · subst hσ
      simp [Kernel.setTimer, hh rfl, Kernel.useTimer, huse]
    · simp [Kernel.setTimer, hσ, Kernel.useTimer, huse]
  cases f with
  | freeStack u | freeStruct u =>
    cases hinstr
    dsimp only
    rw [Kernel.useThread_eq]
    split <;> rfl
  | eventUnsignal e =>
    cases hinstr
    exact congrArg (fun ltimer => field (ltimer τ)) (huse e)
  | timerFree σ => cases hinstr; exact hset σ _ fun hσ => hclose (hσ ▸ rfl)
  | timerFreeStop σ => cases hinstr; exact hset σ _ fun hσ => hstop (hσ ▸ rfl)
  | timerFreePool σ => cases hinstr; exact hset σ _ fun hσ => hfree (hσ ▸ rfl)
  | timerSetOneshot σ | timerThread σ | timerCheck σ | timerCall σ =>
    cases hinstr
    exact congrArg (fun ltimer => field (ltimer τ)) (huse (.timer σ))
  | timerFreeReturn | mutexLock | mutexUnlock | lklThreadDetach | timerAlloc =>
    cases hinstr
    rfl
  | _ => cases hinstr

theorem Kernel.Signaling.absent (h : lk.Signaling τ) (hdoing : lk.doing c = none) :
    .timerFreeSignal τ ∉ lk.frames c := fun hmem => (h c hmem).1 hdoing

theorem Kernel.Signaling.of_eq (h : lk.Signaling τ) (hframes : lk'.frames = lk.frames)
    (hdoing : lk'.doing = lk.doing) : lk'.Signaling τ := by
  intro u hu
  rw [hframes] at hu ⊢
  rw [hdoing]
  exact h u hu

theorem Kernel.Signaling.setFrames {new : List Frame} (h : lk.Signaling τ)
    (hnew : .timerFreeSignal τ ∉ new) : (lk.setFrames c new).Signaling τ := by
  intro u hu
  by_cases hc : u = c
  · subst hc
    exact absurd (by simpa [Kernel.setFrames] using hu) hnew
  · have hframes : (lk.setFrames c new).frames u = lk.frames u := Function.update_of_ne hc _ _
    rw [hframes] at hu ⊢
    exact h u hu

theorem Kernel.ShutAt.signaling (h : lk.ShutAt τ s)
    (hlast : ∀ u, .timerFreeSignal τ ∈ lk.frames u →
      (lk.frames u).head? = some (.timerFreeSignal τ) ∧ lk.doing u ≠ none) : lk.Signaling τ := by
  intro u hu
  obtain ⟨hhead, hdoing⟩ := hlast u hu
  obtain ⟨stack, hframes⟩ := List.head?_eq_some_iff.mp hhead
  obtain ⟨step, -, -, hstack⟩ := h.turn hframes (by simp [Frame.shuts])
  refine ⟨hdoing, fun hmem => ?_⟩
  rw [hframes, List.tail_cons] at hmem
  exact List.filter_eq_nil_iff.mp hstack _ hmem (by simp [Frame.shuts])

theorem Machine.Acts.signaling (ha : m.Acts label lk) (hm : m.Holds J)
    (hlast : m.FreesLast τ label) (hs : m.kernel.ShutAt τ s)
    (hunmade : ∀ u, m.kernel.nextTid ≤ u → m.kernel.frames u = [])
    (h : 0 < (m.kernel.ltimer τ).frees → m.kernel.Signaling τ)
    (hpos : 0 < (lk.ltimer τ).frees) : lk.Signaling τ := by
  cases ha with
  | fresh =>
    have hlock : Kernel.Signaling { m.kernel with threadLock := false } τ := h hpos
    refine hlock.setFrames ?_
    cases (m.kernel.threads m.current).entry <;> simp [Entry.frames]
  | @act f stack g next hframes hinstr =>
    have hdoing := hm.free hframes (by simp [hinstr])
    have hframes' := Frame.act_frames hinstr m.kernel
    have hdoing' := Frame.act_doing hinstr m.kernel
    have hstack : m.kernel.Signaling τ → .timerFreeSignal τ ∉ stack := fun hsig hmem =>
      hsig.absent hdoing (by rw [hframes]; exact List.mem_cons_of_mem f hmem)
    by_cases hpool : f = .timerFreePool τ
    · -- who is to signal has begun
      subst hpool
      have hsig : m.kernel.Signaling τ := by
        refine hs.signaling fun u hu => ?_
        rcases Nat.lt_or_ge u m.kernel.nextTid with hlt | hge
        · exact hlast (by rw [hframes]; rfl) u hlt hu
        · rw [hunmade u hge] at hu
          cases hu
      refine (hsig.of_eq hframes' hdoing').setFrames fun hmem => ?_
      cases hinstr
      rcases List.mem_append.mp hmem with hmem | hmem
      · simp at hmem
      · exact hstack hsig hmem
    · have hold : 0 < (m.kernel.ltimer τ).frees := by
        rw [← Frame.act_ltimer LTimer.frees hinstr (fun _ _ => rfl) (fun _ _ => rfl)
          (fun hf => absurd hf hpool) m.kernel]
        exact hpos
      have hsig := h hold
      refine (hsig.of_eq hframes' hdoing').setFrames fun hmem => ?_
      rcases List.mem_append.mp hmem with hmem | hmem
      · have hstop := Frame.act_next_signals hinstr hmem
        subst hstop
        obtain ⟨step, rfl, hstep, -⟩ := hs.turn hframes (by simp [Frame.shuts])
        have hstopped := hs.stopped hold
        cases step with
        | stop => cases hstopped
        | _ => cases hstep
      · exact hstack hsig hmem
  | @call f stack hframes hf =>
    have hsig := h hpos
    have habsent := hsig.absent (hm.free hframes (by simp [Frame.instr]))
    rw [hframes] at habsent
    refine hsig.setFrames fun hmem => ?_
    rcases List.mem_cons.mp hmem with rfl | hmem
    · cases hf
    · exact habsent hmem
  | @ret r stack hframes =>
    have hsig := h hpos
    have habsent := hsig.absent (hm.free hframes (by simp [Frame.instr]))
    rw [hframes] at habsent
    exact hsig.setFrames fun hmem => habsent (List.mem_cons_of_mem _ hmem)
  | exit => exact (h hpos).setFrames (by simp)
  | tick =>
    rw [Kernel.threadTimerTick_eq] at hpos ⊢
    exact (h hpos).of_eq rfl rfl

theorem Machine.Ground.signaling (hg : m.Ground lk) (h : m.kernel.Signaling τ)
    (hdoing : m.kernel.doing m.current = none) : lk.Signaling τ := by
  cases hg with
  | run => exact h
  | @interrupt lk op hi =>
    refine (h.of_eq hi.frames hi.quiet.doing).setFrames fun hmem => ?_
    rcases List.mem_cons.mp hmem with hmem | hmem
    · cases hmem
    · rw [hi.frames] at hmem
      exact h.absent hdoing hmem

theorem Kernel.Signaling.begins (h : lk.Signaling τ) (hfree : lk.doing c = none) :
    (lk.begins c op).Signaling τ := by
  intro u hu
  have hne : u ≠ c := by
    rintro rfl
    exact h.absent hfree hu
  have hdoing : (lk.begins c op).doing u = lk.doing u := Function.update_of_ne hne _ _
  rw [hdoing]
  exact h u hu

theorem Kernel.Signaling.ends {next : Int → List Frame} {b : Bool} {r : Int} (h : lk.Signaling τ)
    (hframes : lk.frames c = f :: stack) (hinstr : f.instr = .section op next) :
    (lk.ends c op b r (next r ++ stack)).Signaling τ := by
  have hnew : .timerFreeSignal τ ∉ next r ++ stack := by
    intro hmem
    rcases List.mem_append.mp hmem with hmem | hmem
    · exact (Frame.section_next_resumes hinstr hmem).2.1 rfl
    · refine (h c ?_).2 ?_
      · rw [hframes]
        exact List.mem_cons_of_mem f hmem
      · rw [hframes]
        exact hmem
  intro u hu
  have hne : u ≠ c := by
    rintro rfl
    exact hnew (by simpa [Kernel.ends, Kernel.note, Kernel.setFrames] using hu)
  have hdoing : (lk.ends c op b r (next r ++ stack)).doing u = lk.doing u :=
    Function.update_of_ne hne _ _
  rw [hdoing]
  exact h.setFrames hnew u hu

/-- In every run in which the structure is freed last, who is to signal has begun by then. -/
theorem Machine.Run.signaling (hrun : Machine.Run ok (.boot objects) m)
    (hok : ∀ m label, ok m label → m.FreesOnce τ label ∧ m.FreesLast τ label) :
    m.Keeping fun lk => 0 < (lk.ltimer τ).frees → lk.Signaling τ := by
  have hrun' := hrun.through (P := fun m => m.Known ∧ ∃ s, m.kernel.ShutAt τ s)
    fun m₁ h _ => ⟨h.known, (h.shut fun m label hm => (hok m label hm).1).kernel.2⟩
  refine hrun'.acting (Machine.boot_keeping objects fun _ _ _ _ hpos => ?_) ?_ ?_
  · exact absurd hpos (lt_irrefl 0)
  · rintro m label lk ⟨hm', hknown, s, hs⟩ hm ha
    exact ha.signaling hm (hok m label hm').2 hs hknown.unmade hm.kernel.2
  · rintro m label lk f stack op next ⟨-, -⟩ hm hg hframes hinstr hbegins
    have hopens := hm.opens hg hframes hinstr hbegins
    refine hopens.keeps (J := fun s => 0 < (s.ltimer τ).frees → s.Signaling τ) hframes
      (fun hpos => ?_) (fun s s' _ _ hs hj hpos => ?_) fun b r s hframes' _ hj hpos => ?_
    · have hold : 0 < (m.kernel.ltimer τ).frees := by
        rw [← hg.ltimer]
        exact hpos
      exact (hg.signaling (hm.kernel.2 hold) hopens.idle).begins hopens.free
    · rw [hs.steady.ltimer] at hpos
      exact (hj hpos).of_eq hs.steady.frames hs.steady.doing
    · exact (hj hpos).ends hframes' hinstr

end Signaling

def Frame.uses (τ : Nat) : Frame → Bool
  | .timerSetOneshot σ | .timerFree σ | .timerFreeStop σ | .eventUnsignal (.timer σ) => σ = τ
  | f => f.ofTimer = some τ

section Uses

variable {ok : Machine → Label → Prop} {objects : Objects} {m : Machine} {label : Label}
  {lk lk' : Kernel} {c : Tid} {op : Op} {τ : Nat} {s : Shutdown} {f : Frame} {stack : List Frame}

theorem Kernel.useEvent_fault {e : EventId} (he : e = .timer τ → (lk.ltimer τ).frees = 0)
    (h : .timer τ ∉ lk.faults) : .timer τ ∉ (lk.useEvent e).faults := by
  cases e with
  | host e => exact h
  | timer σ =>
    unfold Kernel.useEvent
    dsimp only
    split
    · exact h
    · next hfrees =>
      have hσ : σ ≠ τ := fun hσ => hfrees (hσ ▸ he (hσ ▸ rfl))
      simpa [hσ.symm] using h

theorem Kernel.Change.fault (h : Kernel.Change c op lk lk')
    (huse : op.on c = some (.event (.timer τ)) → (lk.ltimer τ).frees = 0)
    (hfault : .timer τ ∉ lk.faults) : .timer τ ∉ lk'.faults := by
  cases h with
  | pick => rw [Kernel.getTopThread_eq]; exact hfault
  | switch => rw [Kernel.setUpQuantum_eq]; exact hfault
  | useThread t =>
    unfold Kernel.useThread
    split
    · exact hfault
    · simpa using hfault
  | useEvent e hq =>
    refine Kernel.useEvent_fault (fun he => huse ?_) hfault
    rw [hq, he]
  | _ => exact hfault

theorem Kernel.Changes.fault (h : Kernel.Changes c op lk lk')
    (huse : op.on c = some (.event (.timer τ)) → (lk.ltimer τ).frees = 0)
    (hfault : .timer τ ∉ lk.faults) : .timer τ ∉ lk'.faults := by
  induction h with
  | refl => exact hfault
  | tail hsteps hstep ih =>
    refine hstep.fault (fun hop => ?_) ih
    rw [Kernel.Changes.steady hsteps |>.ltimer]
    exact huse hop

theorem Kernel.popAll_faults (q : Wq) (err : Status) (list : List Tid) (lk : Kernel) :
    (Kernel.popAll q err list lk).faults = lk.faults := by
  induction list generalizing lk with
  | nil => rfl
  | cons t rest ih =>
    rw [Kernel.popAll, ih]
    rfl

/-- After the switch the signal uses the event no more. -/
theorem eventSignal_fault {T : Kernel → Prop} (reschedule : Bool) (h : lk.Wf)
    (hfrees : (lk.ltimer τ).frees = 0) (hfault : .timer τ ∉ lk.faults) :
    ((perform (.eventSignal (.timer τ) reschedule)).run lk).Wp T (fun s => .timer τ ∉ s.faults)
      (fun _ _ s => .timer τ ∉ s.faults) true := by
  have huse : lk.lock.useEvent (.timer τ) = lk.lock := if_pos hfrees
  have hdispatched : ∀ s s' : Kernel, s.Dispatched s' → .timer τ ∉ s.faults →
      .timer τ ∉ s'.faults := fun s s' hd hs => by
    rw [hd.rest]
    exact hs
  simp only [perform, eventSignal, Section.run_bind, lockThreads_run, Susp.done_bind,
    Section.run_modify, Section.run_read, huse]
  generalize hnoted : Kernel.note lk.lock (.signal (.timer τ) (lk.lock.event (.timer τ)).signaled)
    = lk₁
  have hwf : lk₁.Wf := hnoted ▸ h
  have hfault₁ : .timer τ ∉ lk₁.faults := hnoted ▸ hfault
  have hfrees₁ : (lk₁.ltimer τ).frees = 0 := hnoted ▸ hfrees
  simp only [Section.run_ite]
  cases (lk.lock.event (.timer τ)).signaled with
  | true => exact hfault₁
  | false =>
    simp only [Bool.not_false, if_true]
    cases (lk.lock.event (.timer τ)).autounsignal with
    | true =>
      simp only [if_true, Section.run_bind, Susp.wp_bind]
      refine waitQueueWakeOne_wp hwf (fun _ => ?_) (fun t rest s _ hd => hdispatched _ s hd hfault₁)
        (fun t rest s _ hd => hdispatched _ s hd hfault₁) fun _ s _ hs => hs
      exact Kernel.useEvent_fault (fun _ => hfrees₁) hfault₁
    | false =>
      simp only [Bool.false_eq_true, if_false, Section.run_bind, Section.run_modify,
        Susp.done_bind, Susp.wp_bind]
      have hall : ∀ s, (Kernel.popAll (.event (.timer τ)) NO_ERROR
          (lk₁.wait (.event (.timer τ))).list (lk₁.setEvent (.timer τ) fun event =>
            { event with signaled := true })).Dispatched s → .timer τ ∉ s.faults := fun s hd => by
        refine hdispatched _ s hd ?_
        rw [Kernel.popAll_faults]
        exact hfault₁
      exact waitQueueWakeAll_wp hwf hall hall fun _ s _ hs => hs

theorem Kernel.ShutAt.unused (h : lk.ShutAt τ s) (hlawful : f.lawful = true)
    (hf : f ∈ lk.frames c) (huse : f.uses τ = true) : (lk.ltimer τ).frees = 0 := by
  refine Nat.eq_zero_of_not_pos fun hpos => ?_
  have hstopped := h.stopped hpos
  have hshuts : ∀ step, f = Closing.frame τ step → (step = .close ∨ step = .stop) → False := by
    intro step hstep hearly
    have hmem : f ∈ s.todo τ c := by
      rw [← h.todo c]
      refine List.mem_filter.mpr ⟨hf, ?_⟩
      rw [hstep]
      cases step <;> simp [Closing.frame, Frame.shuts]
    cases s with
    | closing u step' =>
      by_cases hc : c = u
      · simp only [Shutdown.todo, hc, if_true, List.mem_singleton] at hmem
        rw [hstep] at hmem
        rcases hearly with rfl | rfl
        · cases step' with
          | close => cases hstopped
          | _ => cases hmem
        · cases step' with
          | stop => cases hstopped
          | _ => cases hmem
      · simp [Shutdown.todo, hc] at hmem
    | _ => cases hmem
  have hown : f.ofTimer ≠ some τ := (h.freed hpos).2.1 c f hf
  cases f with
  | timerSetOneshot σ =>
    have hσ : σ = τ := by simpa [Frame.uses] using huse
    subst hσ
    refine h.setting ?_ c hf
    rintro rfl
    cases hstopped
  | timerFree σ =>
    have hσ : σ = τ := by simpa [Frame.uses] using huse
    exact hshuts .close (hσ ▸ rfl) (.inl rfl)
  | timerFreeStop σ =>
    have hσ : σ = τ := by simpa [Frame.uses] using huse
    exact hshuts .stop (hσ ▸ rfl) (.inr rfl)
  | eventUnsignal e => cases e <;> simp_all [Frame.uses, Frame.lawful, Frame.ofTimer]
  | _ => exact hown (by simpa [Frame.uses] using huse)

theorem Frame.act_fault {g : Kernel → Kernel} {next : Kernel → List Frame}
    (hinstr : f.instr = .act g next) (huse : f.uses τ = true → (lk.ltimer τ).frees = 0)
    (hfault : .timer τ ∉ lk.faults) : .timer τ ∉ (g lk).faults := by
  have hevent : ∀ σ, (σ = τ → f.uses τ = true) → .timer τ ∉ (lk.useEvent (.timer σ)).faults :=
    fun σ hσ => Kernel.useEvent_fault (fun he => huse (hσ (EventId.timer.inj he))) hfault
  cases f with
  | freeStack u | freeStruct u =>
    cases hinstr
    dsimp only
    split
    all_goals
      unfold Kernel.useThread
      split <;> simpa using hfault
  | eventUnsignal e =>
    cases hinstr
    refine Kernel.useEvent_fault (fun he => huse ?_) hfault
    simp [he, Frame.uses]
  | timerSetOneshot σ | timerFree σ | timerFreeStop σ | timerThread σ | timerCheck σ | timerCall σ
  | timerFreePool σ =>
    cases hinstr
    exact hevent σ fun hσ => by simp [hσ, Frame.uses, Frame.ofTimer]
  | timerFreeReturn | mutexLock | mutexUnlock | lklThreadDetach | timerAlloc =>
    cases hinstr
    exact hfault
  | _ => cases hinstr

theorem Machine.Acts.fault (ha : m.Acts label lk) (hs : m.kernel.ShutAt τ s)
    (htimed : m.kernel.Timed) (hfault : .timer τ ∉ m.kernel.faults) : .timer τ ∉ lk.faults := by
  cases ha with
  | @act f stack g next hframes hinstr =>
    have hmem : f ∈ m.kernel.frames m.current := by simp [hframes]
    exact Frame.act_fault hinstr (hs.unused (htimed.lawful _ f hmem) hmem) hfault
  | tick =>
    rw [Kernel.threadTimerTick_eq]
    exact hfault
  | _ => exact hfault

theorem Machine.signals_unfreed {b : Bool} {next : Int → List Frame}
    (hm : m.Keeping Kernel.Alarmed) (hg : m.Ground lk) (hs : m.kernel.ShutAt τ s)
    (hsig : 0 < (m.kernel.ltimer τ).frees → m.kernel.Signaling τ)
    (hframes : lk.frames m.current = f :: stack)
    (hinstr : f.instr = .section (.eventSignal (.timer τ) b) next)
    (hdoing : m.kernel.doing m.current = none) : (lk.ltimer τ).frees = 0 := by
  rw [hg.ltimer]
  refine Nat.eq_zero_of_not_pos fun hpos => ?_
  rcases Machine.signals_timer hm hg hframes hinstr hdoing with hclosed | rfl
  · rw [hs.closed, Shutdown.closed_of_stopped (hs.stopped hpos)] at hclosed
    cases hclosed
  · have hlk := hg.signaling (hsig hpos) hdoing
    have hdoing' : lk.doing m.current = none := by rw [hg.quiet.doing, hdoing]
    exact hlk.absent hdoing' (by rw [hframes]; exact List.mem_cons_self)

theorem Machine.Run.unfaulted (hrun : Machine.Run ok (.boot objects) m)
    (hok : ∀ m label, ok m label → m.FreesOnce τ label ∧ m.FreesLast τ label) :
    m.Keeping fun lk => (∃ s, lk.ShutAt τ s) ∧ .timer τ ∉ lk.faults := by
  have hrun' := hrun.through (P := fun m => m.Known ∧ m.Keeping Kernel.Alarmed ∧
    (0 < (m.kernel.ltimer τ).frees → m.kernel.Signaling τ))
    fun m₁ h _ => ⟨h.known, h.alarmed, (h.signaling hok).kernel.2⟩
  refine hrun'.acting (Machine.boot_keeping objects fun _ _ _ hchanges => ?_) ?_ ?_
  · exact ⟨⟨.opened, (Kernel.idleStart_shut objects τ).ignore hchanges.ignores⟩, List.not_mem_nil⟩
  · rintro m label lk ⟨hm', hknown, -⟩ hm ha
    obtain ⟨⟨s, hs⟩, hfault⟩ := hm.kernel.2
    exact ⟨ha.shut hs (hok m label hm').1 hknown.timed hknown.ending hknown.called hknown.unmade
      fun hcode => (hm.fresh _ hcode).2, ha.fault hs hknown.timed hfault⟩
  · rintro m label lk f stack op next ⟨-, hknown, halarmed, hsig⟩ hm hg hframes hinstr hbegins
    obtain ⟨⟨s, hs⟩, hfault⟩ := hm.kernel.2
    have hopens := hm.opens hg hframes hinstr hbegins
    have hlk := hg.shut hs
    have hlawful : f.lawful = true := (hg.timed hknown.timed).lawful m.current f (by simp [hframes])
    have hbegun : .timer τ ∉ (lk.begins m.current op).faults := by
      cases hg with
      | run => exact hfault
      | interrupt hi =>
        cases hi with
        | tick =>
          rw [Kernel.threadTimerTick_eq]
          exact hfault
        | _ => exact hfault
    refine (hopens.shut hframes hinstr hlk).and ?_
    by_cases hsignal : ∃ b, op = .eventSignal (.timer τ) b
    · obtain ⟨b, rfl⟩ := hsignal
      have hfrees := Machine.signals_unfreed halarmed hg hs hsig hframes hinstr hopens.idle
      exact eventSignal_fault b hopens.begins.wf hfrees hbegun
    · -- its own thread is in an operation on the event
      have hown : op.on m.current = some (.event (.timer τ)) → f.ofTimer = some τ := by
        intro hop
        refine Frame.section_wait hinstr hlawful ?_
        cases op <;> simp_all [Op.on]
      have hmoves := perform_changing m.current op (lk.begins m.current op) hopens.current
      have hturn : Turn m.current op (f :: stack) (lk.begins m.current op) :=
        ⟨hopens.current, by simp [Kernel.begins], hframes⟩
      have hkeeps : ∀ s₁ s₂ : Kernel, Kernel.Changes m.current op s₁ s₂ →
          (Turn m.current op (f :: stack) s₁ ∧ s₁.Sound) ∧ (∃ s, s₁.ShutAt τ s) →
          .timer τ ∉ s₁.faults → .timer τ ∉ s₂.faults := by
        rintro s₁ s₂ hs₂ ⟨⟨ht, -⟩, s', hs'⟩ hj
        exact hs₂.fault (fun hop => hs'.unfreed (by rw [ht.frames]; exact List.mem_cons_self)
          (hown hop)) hj
      exact (hmoves.wp (S := fun s => (Turn m.current op (f :: stack) s ∧ s.Sound) ∧
        ∃ s', s.ShutAt τ s') (fun s hs => hs.1.1.current) hkeeps
        ⟨⟨hturn, hopens.begins⟩, s, hlk.begins m.current op⟩ hbegun true)

/-- Nobody uses the structure of a timer after it is freed. -/
theorem timer_unused_after_free (hrun : Machine.Run ok (.boot objects) m)
    (hok : ∀ m label, ok m label → m.FreesOnce τ label ∧ m.FreesLast τ label) :
    .timer τ ∉ m.kernel.faults :=
  (hrun.unfaulted hok).kernel.2.2

instance (m : Machine) (label : Label) : Decidable (m.FreesLast τ label) :=
  match label with
  | .run => inferInstanceAs (Decidable ((m.kernel.frames m.current).head? =
      some (.timerFreePool τ) → ∀ u < m.kernel.nextTid, .timerFreeSignal τ ∈ m.kernel.frames u →
        (m.kernel.frames u).head? = some (.timerFreeSignal τ) ∧ m.kernel.doing u ≠ none))
  | .call _ | .ret _ | .tick | .preempt | .lTimer _ | .expire _ => isTrue trivial

/-- The signal of `timer_free` hands over to the thread of the timer, which frees the structure
before the signal is gone on with. -/
def handingRun : List Label :=
  [.call .timerAlloc, .run, .run, .run, .run, .run, .run, .run, .run, .run, .call (.timerFree 0),
    .run, .run, .run, .run, .run, .run, .run, .run, .run, .run]

theorem timer_unused_after_free_handing : ∃ m,
    Machine.Run (fun m label => m.FreesOnce 0 label ∧ m.FreesLast 0 label) (.boot .assorted) m ∧
    (m.kernel.ltimer 0).frees = 1 ∧ .timerFreed 0 ∈ m.kernel.log ∧
    .timer 0 ∉ m.kernel.faults := by
  have hresult : ((Machine.boot .assorted).after
      (fun m label => m.FreesOnce 0 label ∧ m.FreesLast 0 label) handingRun).map
      (fun m => ((m.kernel.ltimer 0).frees, decide (.timerFreed 0 ∈ m.kernel.log))) =
      some (1, true) := by
    decide +kernel
  obtain ⟨m, hm, hresult⟩ := Option.map_eq_some_iff.mp hresult
  simp only [Prod.mk.injEq, decide_eq_true_eq] at hresult
  obtain ⟨hfrees, hfreed⟩ := hresult
  have hrun : Machine.Run (fun m label => m.FreesOnce 0 label ∧ m.FreesLast 0 label)
      (.boot .assorted) m := (Machine.Run.nil _).after hm
  exact ⟨m, hrun, hfrees, hfreed, timer_unused_after_free hrun fun _ _ h => h⟩

/-- The thread of the timer, whose function yields after an earlier signal, finds the request to
stop, and frees the structure while `timer_free` is preempted before its own signal. -/
def racingRun : List Label :=
  [.call .timerAlloc, .run, .run, .run, .run, .run, .run, .run, .run, .run, .lTimer 0, .run, .run,
    .run, .call (.op .threadYield), .run, .run, .call (.timerFree 0), .run, .run,
    .tick, .tick, .tick, .tick, .tick, .run, .ret 0, .run, .run, .run, .run, .run, .run]

/-- It does not suffice that the timer is freed once, also where interrupts arrive only while they
are enabled. -/
theorem timer_used_after_free : ∃ m,
    Machine.Run (fun m label => m.FreesOnce 0 label ∧ m.Enabled label) (.boot .assorted) m ∧
    .timer 0 ∈ m.kernel.faults := by
  have hresult : ((Machine.boot .assorted).after
      (fun m label => m.FreesOnce 0 label ∧ m.Enabled label) racingRun).map
      (fun m => decide (.timer 0 ∈ m.kernel.faults)) = some true := by
    decide +kernel
  obtain ⟨m, hm, hresult⟩ := Option.map_eq_some_iff.mp hresult
  exact ⟨m, (Machine.Run.nil _).after hm, of_decide_eq_true hresult⟩

end Uses

end UefiLkl.Lk
