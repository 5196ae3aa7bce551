import UefiLkl.Lk.Runs
set_option autoImplicit false

/-!
What holds of one object, with its wait queue, over a run: only the operations on the object
and the history of it count.
-/

namespace UefiLkl.Lk
open Coroutine

/-- It happened to the object of the queue, or in an operation on it. -/
def Happening.concerns (q : Wq) : Happening → Prop
  | .call t op | .ret t op _ _ => op.on t = some q
  | h => h.queue = some q

/-- The object of the queue is as it was, and so are the threads in operations on it. -/
structure Kernel.Elsewhere (q : Wq) (lk lk' : Kernel) : Prop where
  wait : lk'.wait q = lk.wait q
  sem : ∀ s, q = .sem s → lk'.sem s = lk.sem s
  mutex : ∀ m, q = .mutex m → lk'.mutex m = lk.mutex m
  event : ∀ e, q = .event e → lk'.event e = lk.event e
  doing : ∀ t op, op.on t = some q → (lk'.doing t = some op ↔ lk.doing t = some op)
  ret : ∀ t op, lk.doing t = some op → op.on t = some q →
    (lk'.threads t).waitQueueBlockRet = (lk.threads t).waitQueueBlockRet
  log : ∃ l, lk'.log = lk.log ++ l ∧ ∀ h ∈ l, ¬ h.concerns q

def Happening.blocks (q : Wq) : Happening → Option Tid
  | .block q' t => if q' = q then some t else none
  | _ => none

/-- Who is woken with what he waited for. -/
def Happening.wakes (q : Wq) : Happening → Option Tid
  | .wake q' t err => if q' = q ∧ err = NO_ERROR then some t else none
  | _ => none

section Elsewhere

variable {c t : Tid} {op : Op} {q : Wq} {lk lk' lk'' : Kernel}

theorem Happening.concerns_of_queue {h : Happening} {q' : Wq} (hq : h.queue = some q') :
    h.concerns q ↔ q' = q := by
  cases h <;> simp_all [Happening.queue, Happening.concerns]

theorem Happening.concerns_of_blocks (h : Happening) (hb : h.blocks q = some t) :
    h.concerns q := by
  cases h <;> simp_all [Happening.blocks, Happening.concerns, Happening.queue]

theorem Happening.concerns_of_wakes (h : Happening) (hw : h.wakes q = some t) :
    h.concerns q := by
  cases h <;> simp_all [Happening.wakes, Happening.concerns, Happening.queue]

theorem Kernel.Elsewhere.trans (h : Kernel.Elsewhere q lk lk') (h' : Kernel.Elsewhere q lk' lk'') :
    Kernel.Elsewhere q lk lk'' where
  wait := h'.wait.trans h.wait
  sem s hs := (h'.sem s hs).trans (h.sem s hs)
  mutex m hm := (h'.mutex m hm).trans (h.mutex m hm)
  event e he := (h'.event e he).trans (h.event e he)
  doing t op ht := (h'.doing t op ht).trans (h.doing t op ht)
  ret t op ht hq := (h'.ret t op ((h.doing t op hq).mpr ht) hq).trans (h.ret t op ht hq)
  log := by
    obtain ⟨l, hl, hq⟩ := h.log
    obtain ⟨l', hl', hq'⟩ := h'.log
    refine ⟨l ++ l', by rw [hl', hl, List.append_assoc], ?_⟩
    intro x hx
    exact (List.mem_append.mp hx).elim (hq x) (hq' x)

theorem Kernel.Sound.waits_on {t : Tid} {q' : Wq} (h : lk.Sound) (hdoing : lk.doing t = some op)
    (hq : op.on t = some q) (ht : lk.Waits q' t) : q' = q := by
  have hmem : t ∈ (lk.wait q').list := by
    rcases ht with hmem | ⟨hblocked, hqueue⟩
    · exact hmem
    · exact (h.wf.blocked q' t).mpr ⟨Set.notMem_empty t, hblocked, hqueue⟩
  obtain ⟨op', hop', hon⟩ := h.tracked.queued q' t hmem
  rw [hdoing] at hop'
  cases hop'
  exact Option.some_inj.mp ((Op.on_of_waitsOn hon t).symm.trans hq)

theorem Kernel.Spares.elsewhere (hs : lk.Spares c op q) (hsound : lk.Sound)
    (hdoing : lk.doing c = some op) (h : Kernel.Changes c op lk lk') :
    Kernel.Elsewhere q lk lk' := by
  obtain ⟨hapart, -⟩ := hs.apart h
  refine ⟨hapart.wait, hapart.sem, hapart.mutex, hapart.event, fun t op' ht => ?_,
    fun t op' ht hq => ?_, ?_⟩
  · rw [h.steady.doing]
  · have hc : t ≠ c := by
      rintro rfl
      rw [hdoing] at ht
      cases ht
      exact hs.on hq
    refine h.waitQueueBlockRet hc (hsound.tracked.alive t op' ht).1 fun q' hw => ?_
    have heq := hsound.waits_on ht hq hw
    subst heq
    exact ⟨hs.on, fun err hop => hs.unblock t err hop hw⟩
  · obtain ⟨l, hl, hq⟩ := hapart.log
    refine ⟨l, hl, fun x hx hcon => ?_⟩
    obtain ⟨q', hq', hne⟩ := hq x hx
    exact hne ((Happening.concerns_of_queue hq').mp hcon)

theorem Kernel.Quiet.elsewhere (q : Wq) (h : lk.Quiet lk') : Kernel.Elsewhere q lk lk' := by
  refine ⟨by rw [h.wait], fun s _ => by rw [h.sem], fun m _ => by rw [h.mutex],
    fun e _ => by rw [h.event], fun t op _ => by rw [h.doing], fun t op _ _ => ?_, ?_⟩
  · obtain ⟨n, hn⟩ := h.threads t
    rw [hn]
  · obtain ⟨l, hl, hq⟩ := h.log
    refine ⟨l, hl, fun x hx hcon => ?_⟩
    obtain ⟨τ, rfl | rfl⟩ := hq x hx <;> cases hcon

theorem Kernel.Elsewhere.begins (hop : op.on c ≠ some q) (hnone : lk.doing c = none) :
    Kernel.Elsewhere q lk (lk.begins c op) where
  wait := rfl
  sem _ _ := rfl
  mutex _ _ := rfl
  event _ _ := rfl
  doing t op' ht := by
    by_cases htc : t = c
    · subst htc
      simp only [Kernel.begins, Function.update_self, hnone, Option.some.injEq, reduceCtorEq,
        iff_false]
      rintro rfl
      exact hop ht
    · simp [Kernel.begins, htc, Kernel.note]
  ret _ _ _ _ := rfl
  log := ⟨[.call c op], rfl, by simpa [Happening.concerns] using hop⟩

theorem Kernel.Elsewhere.ends {b : Bool} {r : Int} {frames : List Frame} (hop : op.on c ≠ some q)
    (hdoing : lk.doing c = some op) : Kernel.Elsewhere q lk (lk.ends c op b r frames) where
  wait := rfl
  sem _ _ := rfl
  mutex _ _ := rfl
  event _ _ := rfl
  doing t op' ht := by
    by_cases htc : t = c
    · subst htc
      simp only [Kernel.ends, Function.update_self, hdoing, Option.some.injEq, reduceCtorEq,
        false_iff]
      rintro rfl
      exact hop ht
    · simp [Kernel.ends, htc, Kernel.note, Kernel.setFrames]
  ret _ _ _ _ := rfl
  log := ⟨[.ret c op b r], rfl, by simpa [Happening.concerns] using hop⟩

theorem Kernel.eventUnsignal_elsewhere {e : EventId} (hq : q ≠ .event e) :
    Kernel.Elsewhere q lk (lk.eventUnsignal e) := by
  unfold Kernel.eventUnsignal
  rw [Kernel.useEvent_eq]
  refine ⟨rfl, fun _ _ => rfl, fun _ _ => rfl, fun e' he => ?_, fun _ _ _ => Iff.rfl,
    fun _ _ _ _ => rfl, ⟨[_], rfl, ?_⟩⟩
  · refine Function.update_of_ne ?_ _ _
    rintro rfl
    exact hq he
  · simpa [Happening.concerns, Happening.queue] using Ne.symm hq

end Elsewhere

structure Machine.Opens (m : Machine) (op : Op) (lk : Kernel) : Prop where
  current : lk.currentThread = m.current
  free : lk.doing m.current = none
  sound : lk.Sound
  notIdle : op.forIdle = false → m.current ≠ idleThread
  quiet : m.kernel.Quiet lk
  log : lk.log = m.kernel.log

def Op.unblocks : Op → Option Tid
  | .threadUnblock t _ => some t
  | _ => none

/-- The step takes nobody out of the queue from outside. -/
def Machine.Minds (q : Wq) (m : Machine) (label : Label) : Prop :=
  ∀ op ∈ m.begins label, ∀ t ∈ op.unblocks, ¬ m.kernel.Waits q t

instance (lk : Kernel) (q : Wq) (t : Tid) : Decidable (lk.Waits q t) :=
  inferInstanceAs (Decidable (_ ∨ _ ∧ _))

instance (q : Wq) (m : Machine) (label : Label) : Decidable (m.Minds q label) :=
  inferInstanceAs (Decidable (∀ op ∈ m.begins label, ∀ t ∈ op.unblocks, ¬ m.kernel.Waits q t))

section Rule

variable {ok : Machine → Label → Prop} {J : Kernel → Prop} {m m' : Machine} {label : Label}
  {q : Wq} {op : Op} {lk : Kernel}

theorem Machine.begins_outside (h : m.begins label = some op) : m.code m.current = .outside := by
  unfold Machine.begins at h
  split at h
  · assumption
  · cases h

theorem Machine.Ground.log (h : m.Ground lk) : lk.log = m.kernel.log := by
  cases h with
  | run => rfl
  | interrupt hi =>
    cases hi with
    | tick => rw [Kernel.threadTimerTick_eq]; rfl
    | _ => rfl

theorem Machine.Keeping.opens {f : Frame} {stack : List Frame} {next : Int → List Frame}
    (h : m.Keeping J) (hg : m.Ground lk) (hframes : lk.frames m.current = f :: stack)
    (hinstr : f.instr = .section op next) (hbegins : m.begins label = some op) :
    m.Opens op lk where
  current := hg.quiet.currentThread
  free := by
    rw [hg.quiet.doing]
    exact h.outside _ (Machine.begins_outside hbegins)
  sound := hg.sound h.kernel.1
  notIdle hop hidle := by
    have hf := (hg.sound h.kernel.1).tracked.idle f (by
      rw [← hidle, hframes]
      exact List.mem_cons_self)
    rw [(Frame.ofIdle_section hf hinstr).1] at hop
    cases hop
  quiet := hg.quiet
  log := hg.log

theorem Machine.Opens.begins (h : m.Opens op lk) : (lk.begins m.current op).Sound :=
  h.sound.begins op h.current h.free

theorem Machine.Opens.idle (h : m.Opens op lk) : m.kernel.doing m.current = none := by
  rw [← h.quiet.doing]
  exact h.free

theorem Machine.Opens.keeps {frames : List Frame} {after : Int → List Frame} (h : m.Opens op lk)
    (hframes : lk.frames m.current = frames) (hbegun : J (lk.begins m.current op))
    (hchanges : ∀ s s', Turn m.current op frames s → s.Sound →
      Kernel.Changes m.current op s s' → J s → J s')
    (hends : ∀ b r s, s.frames m.current = frames → s.doing m.current = some op → J s →
      J (s.ends m.current op b r (after r))) :
    ((perform op).run (lk.begins m.current op)).Wp
      (fun s => Turn m.current op frames s ∧ s.Sound) J
      (fun b r s => J (s.ends m.current op b r (after r))) true := by
  have hmoves := perform_changing m.current op (lk.begins m.current op) h.current
  have hturn : Turn m.current op frames (lk.begins m.current op) :=
    ⟨h.current, by simp [Kernel.begins], hframes⟩
  refine (hmoves.wp_last (S := fun s => Turn m.current op frames s ∧ s.Sound) (J := J)
    (fun s hs => hs.1.current) (fun s s' hs ht => hchanges s s' ht.1 ht.2 hs) ⟨hturn, h.begins⟩
    hbegun true).mono ?_
  rintro b r s ⟨s₁, ⟨ht, hsound⟩, hj, hs⟩
  refine hends b r s ?_ ?_ (hchanges s₁ s ht hsound hs hj)
  · rw [Kernel.Changes.steady hs |>.frames, ht.frames]
  · rw [Kernel.Changes.steady hs |>.doing, ht.doing]

theorem threadUnblock_done (t : Tid) (err : Status) (lk : Kernel) :
    ∃ r lk', (perform (.threadUnblock t err)).run lk = .done r lk' := by
  simp only [perform, locked, threadUnblockFromWaitQueue, Section.run_bind, lockThreads_run,
    Section.run_modify, Section.run_read, Susp.done_bind, Section.run_ite]
  split
  · exact ⟨_, _, rfl⟩
  · split
    · exact ⟨_, _, rfl⟩
    · exact ⟨_, _, rfl⟩

theorem Machine.Opens.elsewhere {frames : List Frame} {after : Int → List Frame}
    (h : m.Opens op lk) (hon : op.on m.current ≠ some q)
    (hunblock : ∀ t err, op = .threadUnblock t err → ¬ lk.Waits q t) (hq : ∀ t, q ≠ .retcode t)
    (hJ : ∀ lk lk', Kernel.Elsewhere q lk lk' → J lk → J lk')
    (hframes : lk.frames m.current = frames) (hlk : J lk) :
    ((perform op).run (lk.begins m.current op)).Wp
      (fun s => Turn m.current op frames s ∧ s.Sound) J
      (fun b r lk' => J (lk'.ends m.current op b r (after r))) true := by
  have hmoves := perform_changing m.current op (lk.begins m.current op) h.current
  have hsound := h.begins
  have hJ₀ : J (lk.begins m.current op) := hJ _ _ (.begins hon h.free) hlk
  have hdoing : (lk.begins m.current op).doing m.current = some op := by simp [Kernel.begins]
  by_cases hop : ∃ t err, op = .threadUnblock t err
  · obtain ⟨t, err, rfl⟩ := hop
    obtain ⟨r, lk', hrun⟩ := threadUnblock_done t err (lk.begins m.current (.threadUnblock t err))
    rw [hrun] at hmoves ⊢
    have hspares : (lk.begins m.current (.threadUnblock t err)).Spares m.current
        (.threadUnblock t err) q :=
      ⟨hon, fun u err' hu => hunblock u err' hu, fun u hu => absurd hu (hq u)⟩
    have helse := hspares.elsewhere hsound hdoing hmoves.1
    have hdoing' : lk'.doing m.current = some (.threadUnblock t err) := by
      rw [(Kernel.Changes.steady hmoves.1).doing]
      exact hdoing
    exact hJ _ _ (helse.trans (.ends hon hdoing')) hJ₀
  · have hspares : ∀ s : Kernel, s.Spares m.current op q := fun s =>
      ⟨hon, fun t err hu => absurd ⟨t, err, hu⟩ hop, fun t ht => absurd ht (hq t)⟩
    refine h.keeps hframes hJ₀ (fun s s' ht hsound' hs hj => ?_) fun b r s _ hdoing' hj => ?_
    · exact hJ _ _ ((hspares s).elsewhere hsound' ht.doing hs) hj
    · exact hJ _ _ (.ends hon hdoing') hj

/-- What holds of an object goes on to hold if the operations on it, the clearing of an event, and
what takes a thread out of its queue keep it. -/
theorem Machine.Run.queue (hrun : Machine.Run ok m m') (h : m.Keeping J)
    (hq : ∀ t, q ≠ .retcode t)
    (hJ : ∀ lk lk', Kernel.Elsewhere q lk lk' → J lk → J lk')
    (hunsignal : ∀ m label e, ok m label → q = .event e →
      .eventUnsignal e ∈ m.kernel.frames m.current → J m.kernel → J (m.kernel.eventUnsignal e))
    (hown : ∀ m label lk op frames (after : Int → List Frame), ok m label →
      m.begins label = some op →
      (op.on m.current = some q ∨ ∃ t err, op = .threadUnblock t err ∧ lk.Waits q t) →
      m.Opens op lk → J lk →
      ((perform op).run (lk.begins m.current op)).Wp
        (fun s => Turn m.current op frames s ∧ s.Sound) J
        (fun b r lk' => J (lk'.ends m.current op b r (after r))) true) :
    m'.Keeping J := by
  refine hrun.keeping h ?_ ?_
  · intro m label lk hok hm ha
    rcases ha.quiet with hquiet | ⟨e, hframe, hquiet⟩
    · exact hJ _ _ (hquiet.elsewhere q) hm.kernel.2
    · by_cases he : q = .event e
      · exact hJ _ _ (hquiet.elsewhere q) (hunsignal m label e hok he hframe hm.kernel.2)
      · exact hJ _ _ ((Kernel.eventUnsignal_elsewhere he).trans (hquiet.elsewhere q)) hm.kernel.2
  · intro m label lk f stack op next hok hm hg hframes hinstr hbegins
    have hopens := hm.opens hg hframes hinstr hbegins
    have hlk : J lk := hJ _ _ (hg.quiet.elsewhere q) hm.kernel.2
    by_cases hon : op.on m.current = some q ∨ ∃ t err, op = .threadUnblock t err ∧ lk.Waits q t
    · exact hown m label lk op _ _ hok hbegins hon hopens hlk
    · obtain ⟨hon, hunblock⟩ := not_or.mp hon
      exact hopens.elsewhere hon (fun t err hop hw => hunblock ⟨t, err, hop, hw⟩) hq hJ hframes hlk

theorem Machine.Opens.waits {t : Tid} (h : m.Opens op lk) (hw : lk.Waits q t) :
    m.kernel.Waits q t := by
  refine hw.imp (fun hmem => ?_) fun hblocked => ?_
  · rwa [h.quiet.wait] at hmem
  · obtain ⟨n, hn⟩ := h.quiet.threads t
    simpa [hn] using hblocked

/-- The same, where nobody is taken out of the queue from outside. -/
theorem Machine.Run.object (hrun : Machine.Run ok m m') (h : m.Keeping J)
    (hq : ∀ t, q ≠ .retcode t)
    (hJ : ∀ lk lk', Kernel.Elsewhere q lk lk' → J lk → J lk')
    (hminds : ∀ m label, ok m label → m.Minds q label)
    (hunsignal : ∀ m label e, ok m label → q = .event e →
      .eventUnsignal e ∈ m.kernel.frames m.current → J m.kernel → J (m.kernel.eventUnsignal e))
    (hown : ∀ m label lk op frames (after : Int → List Frame), ok m label →
      m.begins label = some op →
      op.on m.current = some q → m.Opens op lk → J lk →
      ((perform op).run (lk.begins m.current op)).Wp
        (fun s => Turn m.current op frames s ∧ s.Sound) J
        (fun b r lk' => J (lk'.ends m.current op b r (after r))) true) :
    m'.Keeping J := by
  refine hrun.queue h hq hJ hunsignal ?_
  intro m label lk op frames after hok hbegins hon hopens hlk
  rcases hon with hon | ⟨t, err, rfl, hw⟩
  · exact hown m label lk op frames after hok hbegins hon hopens hlk
  · exact absurd (hopens.waits hw) (hminds m label hok _ hbegins t rfl)

theorem Machine.settle_wp {T J : Kernel → Prop} {Q : Bool → Int → Kernel → Prop} {b : Bool}
    {x : Susp Kernel Int} (m : Machine) (c : Tid) (op : Op) (after : Int → List Frame)
    (h : x.Wp T J Q b) : J (m.settle c op after b x).kernel ∨ ∃ r lk, Q b r lk ∧
      (m.settle c op after b x).kernel = lk.ends c op b r (after r) := by
  cases x with
  | done r lk => exact .inr ⟨r, lk, h, rfl⟩
  | switch lk k => exact .inl h.1

/-- What the running thread does in an operation: it comes to a switch, or to the end, and in
between only the queue of an object is changed. -/
inductive Machine.Segment (m m' : Machine) (f : Frame) (stack : List Frame) (op : Op)
    (next : Int → List Frame) (l : List Happening) : Prop where
  | on (hframes : m'.kernel.frames m.current = f :: stack)
    (hlog : m'.kernel.log = m.kernel.log ++ l) : Segment m m' f stack op next l
  | back (b : Bool) (r : Int) (hframes : m'.kernel.frames m.current = next r ++ stack)
    (hlog : m'.kernel.log = m.kernel.log ++ l ++ [.ret m.current op b r]) :
    Segment m m' f stack op next l

theorem Machine.Segment.settle {lk : Kernel} {x : Susp Kernel Int} {f : Frame} {stack : List Frame}
    {next : Int → List Frame} {b : Bool} {start : List Happening}
    (hframes : lk.frames m.current = f :: stack) (hlog : lk.log = m.kernel.log ++ start)
    (hmoves : x.Moves (fun lk => lk.currentThread = m.current)
      (Kernel.Changes m.current op) lk) :
    ∃ l, (∀ x ∈ l, x.queue ≠ none) ∧ m.Segment
      (m.settle m.current op (fun r => next r ++ stack) b x) f stack op next (start ++ l) := by
  have hstate := hmoves.state
  obtain ⟨l, hl, hqueue⟩ := hstate.log
  refine ⟨l, hqueue, ?_⟩
  rw [hlog, List.append_assoc] at hl
  cases x with
  | done r s => exact .back b r (Function.update_self _ _ _) (congrArg (· ++ [_]) hl)
  | switch s k => exact .on ((congrFun hstate.steady.frames _).trans hframes) hl

theorem Machine.Keeping.segment {f : Frame} {stack : List Frame} {next : Int → List Frame}
    (h : m.Keeping J) (hframes : m.kernel.frames m.current = f :: stack)
    (hinstr : f.instr = .section op next) (hstep : m.step .run = some m') :
    ∃ l, (∀ x ∈ l, x.queue ≠ none) ∧ m.Segment m' f stack op next
      ((m.begins .run).toList.map (Happening.call m.current) ++ l) := by
  unfold Machine.step at hstep
  cases hcode : m.code m.current with
  | fresh =>
    rw [(h.fresh _ hcode).2] at hframes
    cases hframes
  | inside k =>
    obtain ⟨f', stack', op', next', hframes', hinstr', -, hmoves, -⟩ := h.inside _ k hcode
    rw [hframes] at hframes'
    cases hframes'
    rw [hinstr] at hinstr'
    cases hinstr'
    simp only [hcode, if_true, Machine.resume, hframes, hinstr, Option.some.injEq] at hstep
    rw [← hstep]
    exact Machine.Segment.settle hframes (by simp [Machine.begins, hcode]) (hmoves _ rfl)
  | outside =>
    simp only [hcode, Machine.exec, hframes, hinstr, Option.some.injEq] at hstep
    rw [← hstep]
    have hbegins : m.begins .run = some op := by
      simp [Machine.begins, hcode, hframes, Frame.op?, hinstr]
    have hlog : (m.kernel.begins m.current op).log =
        m.kernel.log ++ (m.begins .run).toList.map (Happening.call m.current) := by
      rw [hbegins]
      rfl
    have hbegun : (m.kernel.begins m.current op).frames m.current = f :: stack := hframes
    exact Machine.Segment.settle hbegun hlog
      (perform_changing m.current op (m.kernel.begins m.current op) rfl)

end Rule

/-- Who runs and who is ready may be others, and whose timer is set. -/
structure Kernel.Dispatched (lk lk' : Kernel) : Prop where
  rest : lk' = { lk with
    threads := lk'.threads
    runQueue := lk'.runQueue
    runQueueBitmap := lk'.runQueueBitmap
    currentThread := lk'.currentThread
    armed := lk'.armed }
  threads : ∀ t, ∃ state n,
    lk'.threads t = { lk.threads t with state := state, remainingQuantum := n }

section Dispatched

variable {lk lk' lk'' : Kernel} {c t : Tid}

theorem Kernel.Dispatched.refl (lk : Kernel) : lk.Dispatched lk := ⟨rfl, fun _ => ⟨_, _, rfl⟩⟩

theorem Kernel.Dispatched.trans (h : lk.Dispatched lk') (h' : lk'.Dispatched lk'') :
    lk.Dispatched lk'' where
  rest := by
    rw [h'.rest, h.rest]
  threads t := by
    obtain ⟨state, n, ht⟩ := h.threads t
    obtain ⟨state', n', ht'⟩ := h'.threads t
    exact ⟨state', n', by rw [ht', ht]⟩

theorem Kernel.Dispatched.setState (lk : Kernel) (t : Tid) (state : ThreadState) :
    lk.Dispatched (lk.setState t state) where
  rest := rfl
  threads u := by
    by_cases hu : u = t
    · subst hu
      exact ⟨state, (lk.threads u).remainingQuantum, Function.update_self _ _ _⟩
    · exact ⟨_, _, Function.update_of_ne hu _ _⟩

theorem Kernel.Dispatched.insertHead (lk : Kernel) (t : Tid) :
    lk.Dispatched (lk.insertInRunQueueHead t) :=
  ⟨rfl, fun _ => ⟨_, _, rfl⟩⟩

theorem Kernel.Dispatched.arm (lk : Kernel) (t : Tid) (b : Bool) : lk.Dispatched (lk.arm t b) :=
  ⟨rfl, fun _ => ⟨_, _, rfl⟩⟩

theorem Kernel.Dispatched.pick (lk : Kernel) :
    lk.Dispatched (lk.getTopThread.2.setState lk.getTopThread.1 .running) := by
  have htop : lk.Dispatched lk.getTopThread.2 := by
    rw [Kernel.getTopThread_eq]
    exact ⟨rfl, fun _ => ⟨_, _, rfl⟩⟩
  exact htop.trans (.setState _ _ _)

theorem Kernel.Dispatched.switch (lk : Kernel) (t : Tid) :
    lk.Dispatched { lk.setUpQuantum t with currentThread := t } := by
  refine ⟨by rw [Kernel.setUpQuantum_eq], fun u => ?_⟩
  unfold Kernel.setUpQuantum
  split
  · by_cases hu : u = t
    · subst hu
      exact ⟨(lk.threads u).state, 5, Function.update_self _ _ _⟩
    · exact ⟨_, _, Function.update_of_ne hu _ _⟩
  · exact ⟨_, _, rfl⟩

theorem Kernel.Dispatched.dequeue {q : Wq} (h : lk.Dispatched lk') (rest : List Tid) (t : Tid)
    (err : Status) : (lk.dequeue q rest t err).Dispatched (lk'.dequeue q rest t err) where
  rest := by
    rw [h.rest]
    rfl
  threads u := by
    obtain ⟨state, n, hu⟩ := h.threads u
    by_cases hut : u = t
    · subst hut
      exact ⟨.ready, n, by simp [Kernel.dequeue, Kernel.note, Kernel.setWait, hu]⟩
    · exact ⟨state, n, by simp [Kernel.dequeue, Kernel.note, Kernel.setThread, Kernel.setWait, hut,
        hu]⟩

theorem Kernel.Dispatched.popAll {q : Wq} (err : Status) (list : List Tid)
    (h : lk.Dispatched lk') :
    (Kernel.popAll q err list lk).Dispatched (Kernel.popAll q err list lk') := by
  induction list generalizing lk lk' with
  | nil => exact h
  | cons t rest ih =>
    have hhead : (lk.dequeue q rest t err).insertInRunQueueHead t |>.Dispatched
        ((lk'.dequeue q rest t err).insertInRunQueueHead t) := by
      have hd := (h.dequeue (q := q) rest t err).trans (.insertHead _ t)
      exact ⟨by rw [hd.rest]; rfl, hd.threads⟩
    exact ih hhead

theorem Kernel.Placed.getTopThread_ne (h : lk.Placed none ∅)
    (hstate : (lk.threads t).state ≠ .ready)
    (hidle : t ≠ idleThread) : lk.getTopThread.1 ≠ t := by
  unfold Kernel.getTopThread
  rcases lk.scan_spec (List.finRange 32).reverse with ⟨heq, -⟩ | ⟨p, ts, hq, -, -⟩
  · rw [heq]
    exact hidle.symm
  · intro ht
    have hmem : t ∈ lk.runQueue p := by simp [hq, ht]
    exact hstate ((h.ready p t).mp hmem).2.1

section Resched

variable {T J : Kernel → Prop} {b : Bool}

theorem threadResched_wp {Q : Bool → Unit → Kernel → Prop} (h : lk.Placed none ∅)
    (hJ : ∀ lk', lk.Dispatched lk' → J lk')
    (hsame : ∀ lk', lk.Dispatched lk' →
      (lk.threads lk.currentThread).state = .ready ∨ lk.currentThread = idleThread → Q b () lk')
    (hback : ∀ lk', T lk' → J lk' → Q false () lk') : (threadResched.run lk).Wp T J Q b := by
  have hcurrent : lk.getTopThread.2.currentThread = lk.currentThread := by
    rw [Kernel.getTopThread_eq]
  simp only [threadResched]
  by_cases hc : lk.getTopThread.1 =
      (lk.getTopThread.2.setState lk.getTopThread.1 .running).currentThread
  · rw [if_pos hc]
    refine hsame _ (.pick lk) ?_
    by_contra hne
    obtain ⟨hstate, hidle⟩ := not_or.mp hne
    exact h.getTopThread_ne hstate hidle (hc.trans hcurrent)
  · rw [if_neg hc]
    exact ⟨hJ _ ((Kernel.Dispatched.pick lk).trans (.switch _ _)), fun lk' ht hj => hback lk' ht hj⟩

theorem waitQueueBlock_wp {Q : Bool → Status → Kernel → Prop} {q : Wq} {timeout : LkTime}
    (h : lk.Wf) (hidle : lk.currentThread ≠ idleThread)
    (hq : ∀ u, q = .retcode u → u < lk.nextTid) (htimeout : timeout ≠ 0)
    (hJ : ∀ lk', (lk.enqueue q lk.currentThread).Dispatched lk' → J lk')
    (hback : ∀ lk' lk'', T lk' → J lk' → lk'.Dispatched lk'' →
      Q false (lk'.threads lk.currentThread).waitQueueBlockRet lk'') :
    ((waitQueueBlock q timeout).run lk).Wp T J Q b := by
  have hplaced := h.enqueue hidle hq
  have hblocked : ((lk.enqueue q lk.currentThread).threads lk.currentThread).state = .blocked := by
    simp [Kernel.enqueue, Kernel.note]
  unfold waitQueueBlock
  simp only [Section.run_bind, getCurrentThread_run, Susp.done_bind, if_neg htimeout]
  have hrest : ∀ lk₁ : Kernel, (lk.enqueue q lk.currentThread).Dispatched lk₁ →
      lk₁.threads = (lk.enqueue q lk.currentThread).threads →
      lk₁.currentThread = lk.currentThread → lk₁.Placed none ∅ → ((do
        threadResched
        if timeout ≠ INFINITE_TIME then .modify fun lk₂ => lk₂.arm lk.currentThread false
        Section.read fun lk₂ => (lk₂.threads lk.currentThread).waitQueueBlockRet).run lk₁).Wp
          T J Q b := by
    intro lk₁ hdisp hthreads hcurrent hlk₁
    rw [Section.run_bind, Susp.wp_bind]
    refine threadResched_wp hlk₁ (fun lk' hd => hJ lk' (hdisp.trans hd)) (fun lk' _ hc => ?_)
      fun lk' ht hj => ?_
    · rw [hthreads, hcurrent, hblocked] at hc
      exact hc.elim (fun hr => by cases hr) fun hi => absurd hi hidle
    · by_cases hinf : timeout ≠ INFINITE_TIME
      · rw [if_pos hinf]
        exact hback lk' _ ht hj (.arm _ _ _)
      · rw [if_neg hinf]
        exact hback lk' _ ht hj (.refl _)
  by_cases hinf : timeout ≠ INFINITE_TIME
  · simp only [if_pos hinf] at hrest ⊢
    exact hrest _ (.arm _ _ _) rfl rfl hplaced
  · simp only [if_neg hinf] at hrest ⊢
    exact hrest _ (.refl _) rfl rfl hplaced

theorem waitQueueWakeOne_wp {Q : Bool → Int → Kernel → Prop} {q : Wq} {reschedule : Bool}
    {err : Status} (h : lk.Wf) (hnil : (lk.wait q).list = [] → Q b 0 lk)
    (hJ : ∀ t rest lk', (lk.wait q).list = t :: rest → (lk.dequeue q rest t err).Dispatched lk' →
      J lk')
    (hsame : ∀ t rest lk', (lk.wait q).list = t :: rest →
      (lk.dequeue q rest t err).Dispatched lk' → Q b 1 lk')
    (hback : reschedule = true → ∀ lk', T lk' → J lk' → Q false 1 lk') :
    ((waitQueueWakeOne q reschedule err).run lk).Wp T J Q b := by
  unfold waitQueueWakeOne
  simp only [Section.run_bind, getCurrentThread_run, Section.run_read, Susp.done_bind]
  cases hlist : (lk.wait q).list with
  | nil => exact hnil hlist
  | cons t rest =>
    cases reschedule with
    | false => exact hsame t rest _ hlist (.insertHead _ _)
    | true =>
      have hdisp : (lk.dequeue q rest t err).Dispatched
          ((((lk.dequeue q rest t err).setState lk.currentThread .ready).insertInRunQueueHead
            lk.currentThread).insertInRunQueueHead t) :=
        (Kernel.Dispatched.setState _ _ _).trans ((Kernel.Dispatched.insertHead _ _).trans
          (.insertHead _ _))
      simp only [if_true, Section.run_bind, Section.run_modify, Susp.done_bind, Susp.wp_bind]
      exact threadResched_wp (h.wakeOne hlist err) (fun lk' hd =>
        hJ t rest lk' hlist (hdisp.trans hd))
        (fun lk' hd _ => hsame t rest lk' hlist (hdisp.trans hd)) (hback rfl)

theorem waitQueueWakeAll_wp {Q : Bool → Int → Kernel → Prop} {q : Wq} {reschedule : Bool}
    {err : Status} (h : lk.Wf)
    (hJ : ∀ lk', (Kernel.popAll q err (lk.wait q).list lk).Dispatched lk' → J lk')
    (hsame : ∀ lk', (Kernel.popAll q err (lk.wait q).list lk).Dispatched lk' →
      Q b (lk.wait q).list.length lk')
    (hback : reschedule = true → ∀ lk', T lk' → J lk' → Q false (lk.wait q).list.length lk') :
    ((waitQueueWakeAll q reschedule err).run lk).Wp T J Q b := by
  unfold waitQueueWakeAll
  simp only [Section.run_bind, getCurrentThread_run, Section.run_read, Susp.done_bind]
  have hcount := h.count q
  by_cases hre : reschedule = true ∧ (lk.wait q).count > 0
  · have hdisp : (Kernel.popAll q err (lk.wait q).list lk).Dispatched
        (Kernel.popAll q err (lk.wait q).list ((lk.setState lk.currentThread
          .ready).insertInRunQueueHead lk.currentThread)) :=
      .popAll err _ ((Kernel.Dispatched.setState _ _ _).trans (.insertHead _ _))
    have hlen : ((lk.setState lk.currentThread .ready).insertInRunQueueHead
        lk.currentThread |>.wait q).list.length > 0 := by
      have hpos : ((lk.wait q).list.length : Int) > 0 := hcount ▸ hre.2
      exact_mod_cast hpos
    rw [if_pos hre]
    simp only [Section.run_bind, Section.run_modify, Section.run_read, Susp.done_bind,
      if_pos hlen, if_pos hre.1, Susp.wp_bind]
    exact threadResched_wp (h.wakeAll q err) (fun lk' hd => hJ lk' (hdisp.trans hd))
      (fun lk' hd _ => hsame lk' (hdisp.trans hd)) (hback hre.1)
  · rw [if_neg hre]
    simp only [Section.run_bind, Section.run_modify, Section.run_read, Susp.done_bind]
    have hnone : ¬ ((lk.wait q).list.length > 0 ∧ reschedule = true) := by
      rintro ⟨hlen, hr⟩
      exact hre ⟨hr, by omega⟩
    by_cases hlen : (lk.wait q).list.length > 0
    · have hr : ¬ reschedule = true := fun hr => hnone ⟨hlen, hr⟩
      rw [if_pos hlen, if_neg hr]
      exact hsame _ (.refl _)
    · rw [if_neg hlen]
      exact hsame _ (.refl _)

end Resched

end Dispatched

end UefiLkl.Lk
