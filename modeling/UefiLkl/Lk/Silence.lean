import UefiLkl.Lk.Shutdown
set_option autoImplicit false

/-!
What a host timer still does once `timer_free` has returned: nobody signals its event again, and
its function is called at most once more.
-/

namespace UefiLkl.Lk
open Coroutine

section After

variable {α : Type} [DecidableEq α] {a x : α} {log l l' : List α}

def afterFirst (a : α) : List α → List α
  | [] => []
  | x :: log => if x = a then log else afterFirst a log

theorem afterFirst_sublist (a : α) (log : List α) : (afterFirst a log).Sublist log := by
  induction log with
  | nil => exact List.Sublist.refl _
  | cons x log ih =>
    rw [afterFirst]
    split
    · exact List.sublist_cons_self x log
    · exact ih.cons x

theorem afterFirst_of_not_mem (h : a ∉ log) : afterFirst a log = [] := by
  induction log with
  | nil => rfl
  | cons x log ih =>
    rw [List.mem_cons, not_or] at h
    rw [afterFirst, if_neg (Ne.symm h.1)]
    exact ih h.2

theorem sublist_afterFirst (a : α) (l l' : List α) : l'.Sublist (afterFirst a (l ++ a :: l')) := by
  induction l with
  | nil => simp [afterFirst]
  | cons x l ih =>
    rw [List.cons_append, afterFirst]
    split
    · exact (List.sublist_cons_self a l').trans (List.sublist_append_right l (a :: l'))
    · exact ih

theorem count_afterFirst_append (a x : α) (log l : List α) :
    (afterFirst a (log ++ l)).count x ≤ (afterFirst a log).count x + l.count x := by
  induction log with
  | nil => simpa [afterFirst] using (afterFirst_sublist a l).count_le x
  | cons y log ih =>
    rw [List.cons_append, afterFirst, afterFirst]
    split
    · exact (List.count_append ..).le
    · exact ih

theorem mem_afterFirst_append (h : x ∈ afterFirst a (log ++ l)) : x ∈ afterFirst a log ∨ x ∈ l := by
  have hle := count_afterFirst_append a x log l
  have hpos := List.count_pos_iff.mpr h
  rcases Nat.eq_zero_or_pos ((afterFirst a log).count x) with hzero | hpos'
  · exact .inr (List.count_pos_iff.mp (by omega))
  · exact .inl (List.count_pos_iff.mp hpos')

end After

/-- The event of the timer is signaled, or its function is called. -/
def Happening.stirs (τ : Nat) : Happening → Bool
  | .call _ (.eventSignal (.timer σ) _) | .fnBegins σ => σ = τ
  | _ => false

/-- After `timer_free` has returned there is no signal any more, and the function is called when
the thread was just about to. -/
structure Kernel.Silent (lk : Kernel) (τ : Nat) : Prop where
  unsignaled : ∀ t b,
    .call t (.eventSignal (.timer τ) b) ∉ afterFirst (.timerFreed τ) lk.log
  begun : ∀ u, (afterFirst (.timerFreed τ) lk.log).count (.fnBegins τ) +
    (lk.frames u).count (.timerCall τ) ≤ 1

section Silent

variable {ok : Machine → Label → Prop} {objects : Objects} {m : Machine} {label : Label}
  {lk lk' : Kernel} {c : Tid} {τ : Nat} {s : Shutdown} {f : Frame} {stack : List Frame}
  {l : List Happening}

theorem Kernel.Silent.extend (h : lk.Silent τ) (hlog : lk'.log = lk.log ++ l)
    (hl : ∀ x ∈ l, x.stirs τ = false)
    (hframes : ∀ u, (lk'.frames u).count (.timerCall τ) ≤ (lk.frames u).count (.timerCall τ)) :
    lk'.Silent τ where
  unsignaled t b hmem := by
    rw [hlog] at hmem
    rcases mem_afterFirst_append hmem with hmem | hmem
    · exact h.unsignaled t b hmem
    · simpa [Happening.stirs] using hl _ hmem
  begun u := by
    have hnone : l.count (.fnBegins τ) = 0 :=
      List.count_eq_zero_of_not_mem fun hmem => by simpa [Happening.stirs] using hl _ hmem
    have hle := count_afterFirst_append (.timerFreed τ) (.fnBegins τ) lk.log l
    rw [hlog]
    have hsum := h.begun u
    have hframe := hframes u
    omega

theorem Kernel.Silent.of_not_mem (hlog : .timerFreed τ ∉ lk.log) (h : lk.Ending) :
    lk.Silent τ where
  unsignaled t b := by
    rw [afterFirst_of_not_mem hlog]
    exact List.not_mem_nil
  begun u := by
    rw [afterFirst_of_not_mem hlog, List.count_nil, Nat.zero_add]
    refine le_trans ?_ (h.alone u)
    rw [List.count_eq_countP]
    refine List.countP_mono_left fun f _ hf => ?_
    rw [eq_of_beq hf]
    rfl

theorem Happening.stirs_of_queue {x : Happening} (h : x.queue ≠ none) : x.stirs τ = false := by
  cases x <;> first | rfl | exact absurd rfl h

theorem Kernel.Changes.silent {op : Op} (hs : Kernel.Changes c op lk lk') (h : lk.Silent τ) :
    lk'.Silent τ := by
  obtain ⟨l, hl, hq⟩ := hs.log
  refine h.extend hl (fun x hx => Happening.stirs_of_queue (hq x hx)) fun u => ?_
  rw [hs.steady.frames]

theorem Kernel.useTimer_log (lk : Kernel) (τ : Nat) : (lk.useTimer τ).log = lk.log := by
  rw [Kernel.useTimer, Kernel.useEvent_eq]

theorem Frame.act_log {g : Kernel → Kernel} {next : Kernel → List Frame}
    (hinstr : f.instr = .act g next) (hf : f ≠ .timerCall τ) (lk : Kernel) :
    ∃ l, (g lk).log = lk.log ++ l ∧ ∀ x ∈ l, x.stirs τ = false := by
  have huse : ∀ e, (lk.useEvent e).log = lk.log := fun e => by rw [Kernel.useEvent_eq]
  have hsame : ∀ lk' : Kernel, lk'.log = lk.log →
      ∃ l, lk'.log = lk.log ++ l ∧ ∀ x ∈ l, x.stirs τ = false := fun lk' hlog =>
    ⟨[], by rw [hlog, List.append_nil], by simp⟩
  cases f with
  | freeStack u | freeStruct u =>
    cases hinstr
    dsimp only
    rw [Kernel.useThread_eq]
    split <;> exact hsame _ rfl
  | eventUnsignal e =>
    cases hinstr
    exact ⟨[.unsignal e (lk.event e).signaled], congrArg (· ++ _) (huse e),
      by simp [Happening.stirs]⟩
  | timerCall σ =>
    cases hinstr
    refine ⟨[.fnBegins σ], congrArg (· ++ _) (huse (.timer σ)), ?_⟩
    simpa [Happening.stirs] using hf
  | timerFreeReturn σ =>
    cases hinstr
    exact ⟨[.timerFreed σ], rfl, by simp [Happening.stirs]⟩
  | mutexLock | mutexUnlock | lklThreadDetach | timerAlloc => cases hinstr; exact hsame _ rfl
  | timerSetOneshot σ | timerFree σ | timerFreeStop σ | timerThread σ | timerCheck σ
  | timerFreePool σ => cases hinstr; exact hsame _ (huse (.timer σ))
  | _ => cases hinstr

/-- The function is called when the thread was not told to stop. -/
theorem Frame.act_next_calls {g : Kernel → Kernel} {next : Kernel → List Frame}
    (hinstr : f.instr = .act g next) (hmem : .timerCall τ ∈ next lk) :
    f = .timerCheck τ ∧ (lk.ltimer τ).requestStop = false := by
  cases f <;> cases hinstr
  case timerCheck σ =>
    dsimp only at hmem
    split at hmem
    · simp at hmem
    · next hstop =>
      rw [List.mem_singleton, Frame.timerCall.injEq] at hmem
      rw [hmem]
      exact ⟨rfl, by simpa using hstop⟩
  case mutexLock | mutexUnlock | timerThread =>
    dsimp only at hmem
    split at hmem <;> simp at hmem
  all_goals simp at hmem

/-- An operation is not gone on with by a call of the function, by a wait of the loop or by the
signal of `timer_free`. -/
theorem Frame.section_next_resumes {op : Op} {next : Int → List Frame} {r : Int} {f' : Frame}
    (hinstr : f.instr = .section op next) (hf' : f' ∈ next r) :
    f' ≠ .timerCall τ ∧ f' ≠ .timerFreeSignal τ ∧ f' ≠ .timerWait τ := by
  cases f <;> cases hinstr
  case threadDetachAndResume t =>
    rcases List.mem_append.mp hf' with hf' | hf'
    · split at hf' <;> simp_all
    · simp_all
  case threadResume | threadJoin | threadDetach | semDownWait =>
    dsimp only at hf'
    split at hf' <;> simp_all
  all_goals simp_all

theorem Kernel.Silent.setFrames {new : List Frame} (h : lk.Silent τ)
    (hcount : new.count (.timerCall τ) ≤ (lk.frames c).count (.timerCall τ)) :
    (lk.setFrames c new).Silent τ := by
  refine h.extend (l := []) (List.append_nil _).symm (by simp) fun u => ?_
  by_cases hu : u = c
  · subst hu
    simpa [Kernel.setFrames] using hcount
  · simp [Kernel.setFrames, hu]

theorem Kernel.Silent.call (h : lk.Silent τ) (htimed : lk.Timed)
    (hframes : lk.frames c = .timerCall τ :: stack) :
    (((lk.useTimer τ).note (.fnBegins τ)).setFrames c
      (.user :: .timerThread τ :: stack)).Silent τ := by
  have hlog := lk.useTimer_log τ
  have hle := count_afterFirst_append (.timerFreed τ) (.fnBegins τ) lk.log [.fnBegins τ]
  have hown := h.begun c
  rw [hframes, List.count_cons_self] at hown
  rw [List.count_singleton_self] at hle
  constructor
  · intro t b hmem
    simp only [Kernel.setFrames, Kernel.note, hlog] at hmem
    rcases mem_afterFirst_append hmem with hmem | hmem
    · exact h.unsignaled t b hmem
    · simp at hmem
  · intro u
    simp only [Kernel.setFrames, Kernel.note, hlog]
    by_cases hu : u = c
    · subst hu
      simp only [Function.update_self]
      have hstack : (Frame.user :: .timerThread τ :: stack).count (.timerCall τ) =
          stack.count (.timerCall τ) := by simp
      omega
    · -- another thread is not the timer's
      have hnone : (lk.frames u).count (.timerCall τ) = 0 := by
        refine List.count_eq_zero_of_not_mem fun hmem => hu ?_
        exact htimed.single u c τ (htimed.owned u τ _ hmem rfl)
          (htimed.owned c τ (.timerCall τ) (by simp [hframes]) rfl)
      have hframes' : (lk.useTimer τ).frames u = lk.frames u := by
        rw [Kernel.useTimer, Kernel.useEvent_eq]
      rw [Function.update_of_ne hu, hframes', hnone]
      omega

theorem Machine.Acts.silent (ha : m.Acts label lk) (h : m.kernel.Silent τ)
    (hs : m.kernel.ShutAt τ s) (htimed : m.kernel.Timed) (hending : lk.Ending) : lk.Silent τ := by
  cases ha with
  | fresh =>
    have hlock : Kernel.Silent { m.kernel with threadLock := false } τ := ⟨h.unsignaled, h.begun⟩
    refine hlock.setFrames (Nat.zero_le _ |>.trans' (le_of_eq ?_))
    cases (m.kernel.threads m.current).entry <;> simp [Entry.frames]
  | @act f stack g next hframes hinstr =>
    by_cases hcall : f = .timerCall τ
    · subst hcall
      cases hinstr
      exact h.call htimed hframes
    obtain ⟨l, hlog, hl⟩ := Frame.act_log hinstr hcall m.kernel
    by_cases hnext : .timerCall τ ∈ next m.kernel
    · -- it is not told to stop, so `timer_free` has not returned
      obtain ⟨rfl, hstop⟩ := Frame.act_next_calls hinstr hnext
      cases hinstr
      refine .of_not_mem (fun hmem => ?_) hending
      have hfreed : .timerFreed τ ∈ m.kernel.log := m.kernel.useTimer_log τ ▸ hmem
      rw [hs.requestStop, hs.returned hfreed] at hstop
      cases hstop
    · have hg : (g m.kernel).Silent τ := h.extend hlog hl fun u => by rw [Frame.act_frames hinstr]
      refine hg.setFrames ?_
      rw [Frame.act_frames hinstr, hframes, List.count_append,
        List.count_eq_zero_of_not_mem hnext, Nat.zero_add]
      exact (List.sublist_cons_self f stack).count_le _
  | @call f stack hframes hf =>
    refine h.setFrames ?_
    have hne : f ≠ .timerCall τ := fun hcall => by
      rw [hcall] at hf
      cases hf
    rw [hframes, List.count_cons_of_ne hne]
  | @ret r stack hframes =>
    refine h.setFrames ?_
    rw [hframes]
    exact (List.sublist_cons_self Frame.user stack).count_le _
  | exit => exact h.setFrames (by simp)
  | tick =>
    refine h.extend (l := []) ?_ (by simp) fun u => ?_
    · rw [Kernel.threadTimerTick_eq, List.append_nil]
    · rw [Kernel.threadTimerTick_eq]

theorem Machine.Ground.silent (hg : m.Ground lk) (h : m.kernel.Silent τ) : lk.Silent τ := by
  refine h.extend (l := []) (by rw [hg.log, List.append_nil]) (by simp) fun u => ?_
  by_cases hu : u = m.current
  · subst hu
    cases hg with
    | run => exact le_rfl
    | interrupt hi => simp [Kernel.setFrames, hi.frames]
  · rw [hg.frames hu]

theorem Kernel.Silent.begins {op : Op} (h : lk.Silent τ)
    (hop : ∀ b, op = .eventSignal (.timer τ) b → .timerFreed τ ∉ lk.log) :
    (lk.begins c op).Silent τ := by
  by_cases hstirs : (Happening.call c op).stirs τ = true
  · have hsignal : ∃ b, op = .eventSignal (.timer τ) b := by
      cases op with
      | eventSignal e b => cases e <;> simp_all [Happening.stirs]
      | _ => cases hstirs
    obtain ⟨b, rfl⟩ := hsignal
    have hnew : afterFirst (.timerFreed τ) (lk.begins c (.eventSignal (.timer τ) b)).log = [] := by
      refine afterFirst_of_not_mem fun hmem => ?_
      rcases List.mem_append.mp hmem with hmem | hmem
      · exact hop b rfl hmem
      · simp at hmem
    refine ⟨fun t b' hmem => ?_, fun u => ?_⟩
    · rw [hnew] at hmem
      cases hmem
    · rw [hnew]
      have hsum := h.begun u
      have hframes : (lk.begins c (.eventSignal (.timer τ) b)).frames u = lk.frames u := rfl
      rw [hframes, List.count_nil]
      omega
  · refine h.extend (l := [.call c op]) rfl (fun x hx => ?_) fun u => le_rfl
    rw [List.mem_singleton.mp hx]
    simpa using hstirs

theorem Machine.Run.silent (hrun : Machine.Run ok (.boot objects) m)
    (hok : ∀ m label, ok m label → m.FreesOnce τ label) :
    m.Keeping fun lk => lk.Silent τ := by
  have hrun' := hrun.through (P := fun m => m.Known ∧ m.Keeping Kernel.Alarmed ∧
    ∃ s, m.kernel.ShutAt τ s) fun m₁ h _ => ⟨h.known, h.alarmed, (h.shut hok).kernel.2⟩
  refine hrun'.acting (Machine.boot_keeping objects fun _ _ _ hchanges => ?_) ?_ ?_
  · refine ⟨fun t b hmem => ?_, fun u => ?_⟩
    · cases hmem
    · by_cases hu : u = bootstrapThread <;>
        simp [Kernel.idleStart, Kernel.start, hu, afterFirst]
  · rintro m label lk ⟨-, hknown, -, s, hs⟩ hm ha
    exact ha.silent hm.kernel.2 hs hknown.timed (ha.aside.ending hknown.ending hknown.called)
  · rintro m label lk f stack op next ⟨-, hknown, halarmed, s, hs⟩ hm hg hframes hinstr hbegins
    have hopens := hm.opens hg hframes hinstr hbegins
    have hbegun : (lk.begins m.current op).Silent τ := by
      refine (hg.silent hm.kernel.2).begins fun b hop hmem => ?_
      subst hop
      have hlk := hg.shut hs
      have hs' := hlk.returned hmem
      subst hs'
      rcases Machine.signals_timer halarmed hg hframes hinstr hopens.idle with hclosed | rfl
      · rw [hs.closed] at hclosed
        cases hclosed
      · have htodo := hlk.todo m.current
        rw [hframes, List.filter_cons_of_pos (by simp [Frame.shuts])] at htodo
        cases htodo
    refine hopens.keeps (J := fun s => s.Silent τ) hframes hbegun
      (fun s s' _ _ hs hj => hs.silent hj) fun b r s hframes' _ hj => ?_
    have hset : (s.setFrames m.current (next r ++ stack)).Silent τ := by
      refine hj.setFrames ?_
      rw [hframes', List.count_append,
        List.count_eq_zero_of_not_mem fun hmem =>
        (Frame.section_next_resumes hinstr hmem).1 rfl, Nat.zero_add]
      exact (List.sublist_cons_self f stack).count_le _
    exact hset.extend (l := [.ret m.current op b r]) rfl (by simp [Happening.stirs])
      fun u => le_rfl

/-- The structure is freed once at most, when the timer is closed and its thread is done with it;
and when `timer_free` has returned, nobody signals the event and the function is called at most
once more. -/
theorem timer_shut_down (hrun : Machine.Run ok (.boot objects) m)
    (hok : ∀ m label, ok m label → m.FreesOnce τ label) :
    (m.kernel.ltimer τ).frees ≤ 1 ∧
    (0 < (m.kernel.ltimer τ).frees → (m.kernel.ltimer τ).closed = true ∧
      (m.kernel.ltimer τ).requestStop = true ∧
      (∀ u, ∀ f ∈ m.kernel.frames u, f.ofTimer ≠ some τ) ∧
      ∃ t, (m.kernel.threads t).entry = .timer τ ∧
        .call t (.eventDestroy (.timer τ)) ∈ m.kernel.log) ∧
    ∀ l l', m.kernel.log = l ++ .timerFreed τ :: l' → (m.kernel.ltimer τ).closed = true ∧
      (m.kernel.ltimer τ).requestStop = true ∧
      (∀ t b, .call t (.eventSignal (.timer τ) b) ∉ l') ∧ l'.count (.fnBegins τ) ≤ 1 := by
  obtain ⟨s, hs⟩ := (hrun.shut hok).kernel.2
  have hsilent := (hrun.silent hok).kernel.2
  refine ⟨?_, fun hpos => ?_, fun l l' hlog => ?_⟩
  · rcases Nat.eq_zero_or_pos (m.kernel.ltimer τ).frees with hzero | hpos
    · omega
    · exact (hs.freed hpos).1.le
  · obtain ⟨-, hgone, t, -, hentry, hcall⟩ := hs.freed hpos
    have hstopped := hs.stopped hpos
    exact ⟨hs.closed.trans (Shutdown.closed_of_stopped hstopped), hs.requestStop.trans hstopped,
      hgone, t, hentry, hcall⟩
  · have hreturned := hs.returned (hlog ▸ List.mem_append_right l List.mem_cons_self)
    have hafter : l'.Sublist (afterFirst (.timerFreed τ) m.kernel.log) :=
      hlog ▸ sublist_afterFirst _ l l'
    refine ⟨?_, ?_, fun t b hmem => hsilent.unsignaled t b (hafter.subset hmem), ?_⟩
    · rw [hs.closed, hreturned]
      rfl
    · rw [hs.requestStop, hreturned]
      rfl
    · have hbegun := hsilent.begun 0
      have hle := hafter.count_le (.fnBegins τ)
      omega

instance (lk : Kernel) (f : Frame) : Decidable (lk.FreesOnce τ f) :=
  match f with
  | .timerSetOneshot σ => inferInstanceAs (Decidable (σ = τ → (lk.ltimer τ).closed = false ∧
      ∀ u < lk.nextTid, ∀ f ∈ lk.frames u, f.shuts τ = false))
  | .timerFree σ => inferInstanceAs (Decidable (σ = τ → (lk.ltimer τ).closed = false ∧
      ∀ u < lk.nextTid, ∀ f ∈ lk.frames u, f.shuts τ = false ∧ f ≠ .timerSetOneshot τ))
  | .user | .idle | .exit _ | .op _ | .threadResume _ | .threadJoin _ _ | .freeStack _
  | .freeStruct _ | .threadDetach _ | .threadDetachAndResume _ | .eventUnsignal _ | .semUp _
  | .semDown _ | .semDownWait _ | .mutexLock _ | .mutexUnlock _ | .lklThreadCreate
  | .lklThreadDetach | .timerAlloc | .timerAllocThread _ | .timerFreeStop _ | .timerFreeSignal _
  | .timerFreeReturn _ | .timerThread _ | .timerWait _ | .timerCheck _ | .timerCall _
  | .timerDestroy _ | .timerFreePool _ => isTrue trivial

instance (m : Machine) (label : Label) : Decidable (m.FreesOnce τ label) :=
  match label with
  | .call f => inferInstanceAs (Decidable (m.kernel.FreesOnce τ f))
  | .run | .ret _ | .tick | .preempt | .lTimer _ | .expire _ => isTrue trivial

/-- The quantum of the timer's thread is over when it has found that it is not to stop, and the
timer is freed before it is its turn again. The ticks arrive while `ints` is off, as it always is
in a timer's thread. -/
def lateRun : List Label :=
  [.call .timerAlloc, .run, .run, .run, .run, .run, .run, .run, .run, .run, .lTimer 0, .run, .run,
    .tick, .tick, .tick, .tick, .tick, .run, .call (.timerFree 0), .run, .run, .run, .run,
    .call (.op .threadYield), .run, .run, .run, .ret 0, .run, .run, .run]

theorem timer_shut_down_late : ∃ m l l',
    Machine.Run (Machine.FreesOnce 0) (.boot .assorted) m ∧
    m.kernel.log = l ++ .timerFreed 0 :: l' ∧ .fnBegins 0 ∈ l' ∧ l'.count (.fnBegins 0) ≤ 1 ∧
    (m.kernel.ltimer 0).frees = 1 ∧ ∃ t, (m.kernel.threads t).entry = .timer 0 ∧
      .call t (.eventDestroy (.timer 0)) ∈ m.kernel.log := by
  have hresult : ((Machine.boot .assorted).after (Machine.FreesOnce 0) lateRun).map
      (fun m => (m.kernel.log[19]?, decide (.fnBegins 0 ∈ m.kernel.log.drop 20),
        (m.kernel.ltimer 0).frees)) = some (some (.timerFreed 0), true, 1) := by
    decide +kernel
  obtain ⟨m, hm, hresult⟩ := Option.map_eq_some_iff.mp hresult
  simp only [Prod.mk.injEq, decide_eq_true_eq] at hresult
  obtain ⟨hfreed, hbegins, hfrees⟩ := hresult
  obtain ⟨hlt, hget⟩ := List.getElem?_eq_some_iff.mp hfreed
  have hlog : m.kernel.log = m.kernel.log.take 19 ++ .timerFreed 0 :: m.kernel.log.drop 20 := by
    rw [← hget, List.getElem_cons_drop, List.take_append_drop]
  have hrun : Machine.Run (Machine.FreesOnce 0) (.boot .assorted) m := (Machine.Run.nil _).after hm
  obtain ⟨-, hpool, hreturned⟩ := timer_shut_down hrun fun _ _ h => h
  obtain ⟨-, -, -, hdestroyed⟩ := hpool (by rw [hfrees]; exact Nat.one_pos)
  obtain ⟨-, -, -, hcount⟩ := hreturned _ _ hlog
  exact ⟨m, _, _, hrun, hlog, hbegins, hcount, hfrees, hdestroyed⟩

end Silent

end UefiLkl.Lk
