import UefiLkl.Lk.LastUse
set_option autoImplicit false

/-!
The shutdown of a host timer is not lost: once `timer_free` has returned, the thread of the timer
does not wait for its event.
-/

namespace UefiLkl.Lk
open Coroutine

/-- When the signal of `timer_free` is made, it is not heard of yet, or the thread of the timer is
not at the wait of its loop. -/
def Kernel.Told (lk : Kernel) (τ : Nat) (t : Tid) : Prop :=
  (lk.ltimer τ).requestStop = true → lk.Signaling τ →
    lk.log.foldl (Happening.unheard τ t) false = true ∨ .timerWait τ ∉ lk.frames t

section Told

variable {ok : Machine → Label → Prop} {objects : Objects} {m : Machine} {label : Label}
  {lk lk' : Kernel} {c t : Tid} {op : Op} {τ : Nat} {f : Frame} {stack : List Frame}
  {J : Kernel → Prop} {l : List Happening}

theorem Happening.unheard_append {log : List Happening} {b : Bool}
    (h : log.foldl (Happening.unheard τ t) b = true) (hl : ∀ u op b r, .ret u op b r ∉ l) :
    (log ++ l).foldl (Happening.unheard τ t) b = true := by
  rw [List.foldl_append]
  exact Happening.unheard_of_mem (.inl h) fun timeout atOnce r => hl t _ atOnce r

theorem Kernel.Told.mono (h : lk.Told τ t)
    (hstop : (lk'.ltimer τ).requestStop = true → (lk.ltimer τ).requestStop = true)
    (hsig : lk'.Signaling τ → lk.Signaling τ)
    (hlog : lk.log.foldl (Happening.unheard τ t) false = true →
      lk'.log.foldl (Happening.unheard τ t) false = true)
    (hframes : .timerWait τ ∈ lk'.frames t → .timerWait τ ∈ lk.frames t) : lk'.Told τ t :=
  fun hs hg => (h (hstop hs) (hsig hg)).imp hlog fun hnot hmem => hnot (hframes hmem)

theorem Kernel.Changes.told (hs : Kernel.Changes c op lk lk') (h : lk.Told τ t) :
    lk'.Told τ t := by
  obtain ⟨l, hl, hq⟩ := hs.log
  refine h.mono ?_ (fun hg => hg.of_eq hs.steady.frames.symm hs.steady.doing.symm) (fun hu => ?_) ?_
  · rw [hs.steady.ltimer]
    exact id
  · rw [hl]
    exact Happening.unheard_append hu fun u op b r hmem => hq _ hmem rfl
  · rw [hs.steady.frames]
    exact id

theorem Kernel.Signaling.of_setFrames {new : List Frame} (h : (lk'.setFrames c new).Signaling τ)
    (hframes : lk'.frames = lk.frames) (hdoing : lk'.doing = lk.doing) (hfree : lk.doing c = none)
    (hold : .timerFreeSignal τ ∈ lk.frames c → .timerFreeSignal τ ∈ new) : lk.Signaling τ := by
  intro u hu
  by_cases hc : u = c
  · subst hc
    have hnew : .timerFreeSignal τ ∈ (lk'.setFrames u new).frames u := by
      simpa [Kernel.setFrames] using hold hu
    have hbusy := (h u hnew).1
    rw [← hdoing] at hfree
    exact absurd hfree hbusy
  · have hsame : (lk'.setFrames c new).frames u = lk.frames u := by
      rw [← hframes]
      exact Function.update_of_ne hc _ _
    have hbusy := h u (by rw [hsame]; exact hu)
    rw [hsame] at hbusy
    rw [← hdoing]
    exact hbusy

theorem Frame.act_next_waits {g : Kernel → Kernel} {next : Kernel → List Frame}
    (hinstr : f.instr = .act g next) (hmem : .timerWait τ ∈ next lk) :
    f = .timerThread τ ∧ (lk.ltimer τ).requestStop = false := by
  cases f <;> cases hinstr
  case timerThread σ =>
    dsimp only at hmem
    split at hmem
    · simp at hmem
    · next hstop =>
      rw [List.mem_singleton, Frame.timerWait.injEq] at hmem
      rw [hmem]
      exact ⟨rfl, by simpa using hstop⟩
  case mutexLock | mutexUnlock | timerCheck =>
    dsimp only at hmem
    split at hmem <;> simp at hmem
  all_goals simp at hmem

/-- Its thread waits in the loop only. -/
theorem Frame.section_eventWait {timeout : LkTime} {next : Int → List Frame}
    (hinstr : f.instr = .section (.eventWait (.timer τ) timeout) next)
    (hlawful : f.lawful = true) : f = .timerWait τ := by
  have htimer := Frame.section_wait hinstr hlawful (.inl ⟨timeout, rfl⟩)
  cases f <;> cases hinstr
  · cases htimer
  · rfl

theorem Frame.act_rets {g : Kernel → Kernel} {next : Kernel → List Frame}
    (hinstr : f.instr = .act g next) (lk : Kernel) :
    ∃ l, (g lk).log = lk.log ++ l ∧ ∀ u op b r, .ret u op b r ∉ l := by
  rcases Frame.act_quiet hinstr lk with hq | ⟨e, -, hq⟩
  · obtain ⟨l, hl, hfn⟩ := hq.log
    refine ⟨l, hl, fun u op b r hmem => ?_⟩
    obtain ⟨σ, hσ | hσ⟩ := hfn _ hmem <;> cases hσ
  · refine ⟨[.unsignal e (lk.event e).signaled], ?_, by simp⟩
    rw [hq, Kernel.eventUnsignal, Kernel.useEvent_eq]
    rfl

theorem Kernel.Told.goes {new : List Frame} (h : lk.Told τ t) (hfree : lk.doing c = none)
    (hsignal : .timerFreeSignal τ ∈ lk.frames c → .timerFreeSignal τ ∈ new)
    (hwait : .timerWait τ ∈ new → .timerWait τ ∈ lk.frames c) : (lk.setFrames c new).Told τ t := by
  refine h.mono id (fun hg => hg.of_setFrames rfl rfl hfree hsignal) id fun hmem => ?_
  by_cases hc : t = c
  · subst hc
    exact hwait (by simpa [Kernel.setFrames] using hmem)
  · simpa [Kernel.setFrames, hc] using hmem

theorem Machine.Acts.told (ha : m.Acts label lk) (hm : m.Holds J) (h : m.kernel.Told τ t) :
    lk.Told τ t := by
  cases ha with
  | fresh hcode =>
    obtain ⟨hfree, hnil⟩ := hm.fresh _ hcode
    refine h.mono id (fun hg => ?_) id fun hmem => ?_
    · exact hg.of_setFrames rfl rfl hfree (by rw [hnil]; simp)
    · by_cases hc : t = m.current
      · subst hc
        simp only [Kernel.setFrames, Function.update_self] at hmem
        cases hentry : (m.kernel.threads m.current).entry <;> rw [hentry] at hmem <;>
          simp [Entry.frames] at hmem
      · simpa [Kernel.setFrames, hc] using hmem
  | @act f stack g next hframes hinstr =>
    have hfree := hm.free hframes (by simp [hinstr])
    have hframes' := Frame.act_frames hinstr m.kernel
    have hdoing' := Frame.act_doing hinstr m.kernel
    intro hs hg
    have hsig : m.kernel.Signaling τ := by
      refine hg.of_setFrames hframes' hdoing' hfree fun hmem => List.mem_append_right _ ?_
      rw [hframes] at hmem
      rcases List.mem_cons.mp hmem with rfl | hmem
      · cases hinstr
      · exact hmem
    by_cases hstop : f = .timerFreeStop τ
    · -- the signal is still to be made
      subst hstop
      cases hinstr
      refine absurd (hg m.current ?_).1 (not_not.mpr ?_)
      · simp [Kernel.setFrames]
      · exact (congrFun hdoing' m.current).trans hfree
    have hold : (m.kernel.ltimer τ).requestStop = true := by
      rw [← Frame.act_ltimer LTimer.requestStop hinstr (fun _ _ => rfl)
        (fun hf => absurd hf hstop) (fun _ _ => rfl) m.kernel]
      exact hs
    refine (h hold hsig).imp (fun hu => ?_) fun hnot hmem => ?_
    · obtain ⟨l, hlog, hl⟩ := Frame.act_rets hinstr m.kernel
      have hlog' : ((g m.kernel).setFrames m.current (next m.kernel ++ stack)).log =
          m.kernel.log ++ l := hlog
      rw [hlog']
      exact Happening.unheard_append hu hl
    · by_cases hc : t = m.current
      · subst hc
        simp only [Kernel.setFrames, Function.update_self] at hmem
        rcases List.mem_append.mp hmem with hmem | hmem
        · obtain ⟨-, hrunning⟩ := Frame.act_next_waits hinstr hmem
          rw [hold] at hrunning
          cases hrunning
        · exact hnot (by rw [hframes]; exact List.mem_cons_of_mem f hmem)
      · have hsame : ((g m.kernel).setFrames m.current (next m.kernel ++ stack)).frames t =
            m.kernel.frames t := by
          rw [← hframes']
          exact Function.update_of_ne hc _ _
        rw [hsame] at hmem
        exact hnot hmem
  | @call f stack hframes hf =>
    refine h.goes (hm.free hframes (by simp [Frame.instr])) (fun hmem => ?_) fun hmem => ?_
    · rw [hframes] at hmem
      exact List.mem_cons_of_mem f hmem
    · rcases List.mem_cons.mp hmem with rfl | hmem
      · cases hf
      · rwa [hframes]
  | @ret r stack hframes =>
    refine h.goes (hm.free hframes (by simp [Frame.instr])) (fun hmem => ?_) fun hmem => ?_
    · rw [hframes] at hmem
      rcases List.mem_cons.mp hmem with hmem | hmem
      · cases hmem
      · exact hmem
    · rw [hframes]
      exact List.mem_cons_of_mem _ hmem
  | @exit r hframes =>
    refine h.goes (hm.free hframes (by simp [Frame.instr])) (fun hmem => ?_) fun hmem => ?_
    · rw [hframes] at hmem
      simp at hmem
    · simp at hmem
  | tick =>
    rw [Kernel.threadTimerTick_eq]
    exact h

theorem Machine.Ground.told (hg : m.Ground lk) (h : m.kernel.Told τ t)
    (hfree : m.kernel.doing m.current = none) : lk.Told τ t := by
  cases hg with
  | run => exact h
  | @interrupt lk op hi =>
    have hground := Machine.Ground.interrupt hi
    refine h.mono (fun hs => ?_) (fun hsig => ?_) (fun hu => ?_) fun hmem => ?_
    · rw [← hground.ltimer]
      exact hs
    · refine hsig.of_setFrames hi.frames hi.quiet.doing hfree fun hmem => ?_
      rw [hi.frames]
      exact List.mem_cons_of_mem _ hmem
    · rw [hground.log]
      exact hu
    · by_cases hc : t = m.current
      · subst hc
        simpa [Kernel.setFrames, hi.frames] using hmem
      · simpa [Kernel.setFrames, hc, hi.frames] using hmem

theorem Kernel.Told.begins (h : lk.Told τ t) (hfree : lk.doing c = none)
    (hframes : lk.frames c = f :: stack) (hf : f ≠ .timerFreeSignal τ) :
    (lk.begins c op).Told τ t := by
  refine h.mono id (fun hg u hu => ?_) (fun hu => ?_) id
  · have hbusy := hg u hu
    have hne : u ≠ c := by
      rintro rfl
      refine hbusy.2 ?_
      have hsame : (lk.begins u op).frames u = f :: stack := hframes
      rw [hsame, List.tail_cons]
      rw [hframes] at hu
      exact (List.mem_cons.mp hu).resolve_left (Ne.symm hf)
    have hdoing : (lk.begins c op).doing u = lk.doing u := Function.update_of_ne hne _ _
    rw [hdoing] at hbusy
    exact hbusy
  · exact Happening.unheard_append (l := [.call c op]) hu (by simp)

theorem Kernel.Told.ends {next : Int → List Frame} {b : Bool} {r : Int} (h : lk.Told τ t)
    (hframes : lk.frames c = f :: stack) (hinstr : f.instr = .section op next)
    (hdoing : lk.doing c = some op) (hlawful : f.lawful = true)
    (hstack : f = .timerWait τ → .timerWait τ ∉ stack) :
    (lk.ends c op b r (next r ++ stack)).Told τ t := by
  have hself : (lk.ends c op b r (next r ++ stack)).frames c = next r ++ stack :=
    Function.update_self _ _ _
  have hother : ∀ u, u ≠ c → (lk.ends c op b r (next r ++ stack)).frames u = lk.frames u ∧
      (lk.ends c op b r (next r ++ stack)).doing u = lk.doing u := fun u hu =>
    ⟨Function.update_of_ne hu _ _, Function.update_of_ne hu _ _⟩
  intro hs hg
  have hsig : lk.Signaling τ := by
    intro u hu
    by_cases hc : u = c
    · subst hc
      have hidle : (lk.ends u op b r (next r ++ stack)).doing u = none := Function.update_self _ _ _
      refine ⟨by rw [hdoing]; simp, fun hmem => ?_⟩
      rw [hframes, List.tail_cons] at hmem
      refine (hg u ?_).1 hidle
      rw [hself]
      exact List.mem_append_right _ hmem
    · have hbusy := hg u (by rw [(hother u hc).1]; exact hu)
      rwa [(hother u hc).1, (hother u hc).2] at hbusy
  by_cases hwait : f = .timerWait τ ∧ c = t
  · -- its thread goes on to look whether to stop
    obtain ⟨rfl, rfl⟩ := hwait
    refine .inr fun hmem => ?_
    rw [hself] at hmem
    rcases List.mem_append.mp hmem with hmem | hmem
    · exact (Frame.section_next_resumes hinstr hmem).2.2 rfl
    · exact hstack rfl hmem
  · refine (h hs hsig).imp (fun hu => ?_) fun hnot hmem => ?_
    · have hlog : (lk.ends c op b r (next r ++ stack)).log = lk.log ++ [.ret c op b r] := rfl
      rw [hlog, List.foldl_append, hu]
      cases op with
      | eventWait e timeout =>
        simp only [List.foldl_cons, List.foldl_nil, Happening.unheard, ite_eq_right_iff,
          Bool.false_eq_true, imp_false]
        rintro ⟨rfl, rfl⟩
        exact hwait ⟨Frame.section_eventWait hinstr hlawful, rfl⟩
      | _ => rfl
    · by_cases hc : t = c
      · subst hc
        rw [hself] at hmem
        rcases List.mem_append.mp hmem with hmem | hmem
        · exact (Frame.section_next_resumes hinstr hmem).2.2 rfl
        · exact hnot (by rw [hframes]; exact List.mem_cons_of_mem f hmem)
      · rw [(hother t hc).1] at hmem
        exact hnot hmem

theorem eventSignal_told {b : Bool} {next : Int → List Frame}
    (h : m.Opens (.eventSignal (.timer τ) b) lk)
    (hinstr : f.instr = .section (.eventSignal (.timer τ) b) next) (hlawful : f.lawful = true) :
    ((perform (.eventSignal (.timer τ) b)).run
      (lk.begins m.current (.eventSignal (.timer τ) b))).Wp
      (fun s => Turn m.current (.eventSignal (.timer τ) b) (f :: stack) s ∧ s.Sound)
      (fun s => s.Told τ t)
      (fun b' r s => (s.ends m.current (.eventSignal (.timer τ) b) b' r (next r ++ stack)).Told τ t)
      true := by
  have hunheard : ∀ s, (lk.begins m.current (.eventSignal (.timer τ) b)).Signals (.timer τ) s →
      s.log.foldl (Happening.unheard τ t) false = true := by
    rintro s ⟨-, signaled, list, released, -, his⟩
    rw [his.log, List.append_assoc, List.foldl_append]
    exact Happening.unheard_of_mem (.inr ⟨_, List.mem_cons_self⟩) (by simp)
  refine eventSignal_wp b h.begins.wf (fun s hs _ _ => .inl (hunheard s hs))
    (fun state s hs _ _ => .inl ?_) fun state s ht hj => ?_
  · have hlog : ((s.unlock state).ends m.current (.eventSignal (.timer τ) b) true NO_ERROR
        (next NO_ERROR ++ stack)).log =
        s.log ++ [.ret m.current (.eventSignal (.timer τ) b) true NO_ERROR] := rfl
    rw [hlog, List.foldl_append, hunheard s hs]
    rfl
  · have hj' : (s.unlock state).Told τ t := hj
    exact hj'.ends ht.1.frames hinstr ht.1.doing hlawful (by rintro rfl; cases hinstr)

/-- In every run the thread of the timer is told to stop. -/
theorem Machine.Run.told (hrun : Machine.Run ok (.boot objects) m) :
    m.Keeping fun lk => lk.Told τ t := by
  have hrun' := hrun.through (P := Machine.Known) fun m₁ h _ => h.known
  refine hrun'.acting (Machine.boot_keeping objects fun _ _ _ _ hs => ?_)
    (fun m label lk _ hm ha => ha.told hm hm.kernel.2) ?_
  · cases hs
  · rintro m label lk f stack op next ⟨-, hknown⟩ hm hg hframes hinstr hbegins
    have hopens := hm.opens hg hframes hinstr hbegins
    have hmem : f ∈ lk.frames m.current := by simp [hframes]
    have hlawful := (hg.timed hknown.timed).lawful m.current f hmem
    by_cases hf : f = .timerFreeSignal τ
    · subst hf
      have hop : op = .eventSignal (.timer τ) true := by
        cases hinstr
        rfl
      subst hop
      exact eventSignal_told hopens hinstr hlawful
    · have hstack : f = .timerWait τ → .timerWait τ ∉ stack := by
        rintro rfl hmem
        have halone := (hg.ending hknown.ending).alone m.current
        rw [hframes, List.countP_cons_of_pos rfl] at halone
        have hpos : 0 < stack.countP Frame.isTimer :=
          List.countP_pos_iff.mpr ⟨.timerWait τ, hmem, rfl⟩
        omega
      have hbegun : (lk.begins m.current op).Told τ t :=
        (hg.told hm.kernel.2 hopens.idle).begins hopens.free hframes hf
      exact hopens.keeps (J := fun s => s.Told τ t) hframes hbegun
        (fun s s' _ _ hs hj => hs.told hj) fun b r s hframes' hdoing hj =>
          hj.ends hframes' hinstr hdoing hlawful hstack

/-- Once `timer_free` has returned, the thread of the timer does not wait for its event, nor does
anyone else. -/
theorem timer_stop_heard (hrun : Machine.Run ok (.boot objects) m)
    (hok : ∀ m label, ok m label → m.FreesOnce τ label ∧ m.Minds (.event (.timer τ)) label)
    (hfreed : .timerFreed τ ∈ m.kernel.log) : (m.kernel.wait (.event (.timer τ))).list = [] := by
  obtain ⟨s, hs⟩ := (hrun.shut fun m label hm => (hok m label hm).1).kernel.2
  have hreturned := hs.returned hfreed
  subst hreturned
  have hsig : m.kernel.Signaling τ := fun u hu => by
    exact absurd (by simp [Frame.shuts]) (List.filter_eq_nil_iff.mp (hs.todo u) _ hu)
  refine List.eq_nil_iff_forall_not_mem.mpr fun t hmem => ?_
  have hentry := hrun.timer_waits hmem
  rcases (hrun.told (t := t)).kernel.2 hs.requestStop hsig with hunheard | hnot
  · have hhears := ((hrun.weaken fun m label hm => (hok m label hm).2).hears hentry).kernel.2
    rw [(hhears.unheard hunheard).1] at hmem
    cases hmem
  · obtain ⟨op, hdoing, hwaits⟩ := hrun.timed.kernel.1.tracked.queued _ t hmem
    obtain ⟨f, stack, next, hframes, hinstr⟩ := hrun.timed.frame hdoing
    have hf : f ∈ m.kernel.frames t := by simp [hframes]
    obtain ⟨timeout, rfl⟩ := Op.eq_eventWait hwaits
    have hwait := Frame.section_eventWait hinstr (hrun.timed.kernel.2.lawful t f hf)
    exact hnot (hwait ▸ hf)

theorem timer_stop_heard_handing : ∃ m,
    Machine.Run (fun m label => m.FreesOnce 0 label ∧ m.Minds (.event (.timer 0)) label)
      (.boot .assorted) m ∧
    .block (.event (.timer 0)) 2 ∈ m.kernel.log ∧ .timerFreed 0 ∈ m.kernel.log ∧
    (m.kernel.wait (.event (.timer 0))).list = [] := by
  have hresult : ((Machine.boot .assorted).after
      (fun m label => m.FreesOnce 0 label ∧ m.Minds (.event (.timer 0)) label) handingRun).map
      (fun m => (decide (.block (.event (.timer 0)) 2 ∈ m.kernel.log),
        decide (.timerFreed 0 ∈ m.kernel.log))) = some (true, true) := by
    decide +kernel
  obtain ⟨m, hm, hresult⟩ := Option.map_eq_some_iff.mp hresult
  simp only [Prod.mk.injEq, decide_eq_true_eq] at hresult
  obtain ⟨hblock, hfreed⟩ := hresult
  have hrun : Machine.Run
      (fun m label => m.FreesOnce 0 label ∧ m.Minds (.event (.timer 0)) label)
      (.boot .assorted) m := (Machine.Run.nil _).after hm
  exact ⟨m, hrun, hblock, hfreed, timer_stop_heard hrun (fun _ _ h => h) hfreed⟩

end Told

end UefiLkl.Lk
