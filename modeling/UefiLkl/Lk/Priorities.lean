import Mathlib.Data.List.Rotate
import UefiLkl.Lk.Handover
set_option autoImplicit false

/-!
The thread that runs has the highest priority, threads of one priority take turns, and the
idle thread runs when nobody else is ready.
-/

namespace UefiLkl.Lk
open Coroutine

section Steps

variable {m m' : Machine} {label : Label} {lk : Kernel} {op : Op}

theorem Kernel.eventUnsignal_inPlace (lk : Kernel) (e : EventId) :
    lk.InPlace (lk.eventUnsignal e) :=
  ((Kernel.Still.useEvent lk e).trans (.of_eq rfl)).toInPlace

theorem Machine.Aside.inPlace (h : m.Aside lk) : m.kernel.InPlace lk := by
  rcases h.quiet with hq | ⟨e, -, hq⟩
  · exact hq.inPlace
  · exact (m.kernel.eventUnsignal_inPlace e).trans hq.inPlace

structure Machine.Enters (m : Machine) (label : Label) (op : Op) (m' : Machine) (lk : Kernel) :
    Prop where
  quiet : m.kernel.Quiet lk
  threads : lk.threads = if label = .tick then m.kernel.threadTimerTick.1.threads
    else m.kernel.threads
  wf : (lk.begins m.current op).Wf
  notIdle : op.forIdle = false → m.current ≠ idleThread
  settle : ∃ after, m' = m.settle m.current op after true
    ((perform op).run (lk.begins m.current op))

theorem Machine.enters_of_ground {f : Frame} {stack : List Frame} {next : Int → List Frame}
    (hsound : m.kernel.Sound) (hground : m.Ground lk)
    (hthreads : lk.threads = if label = .tick then m.kernel.threadTimerTick.1.threads
      else m.kernel.threads)
    (hframes : lk.frames m.current = f :: stack) (hinstr : f.instr = .section op next)
    (hm : ∃ after, m' = m.settle m.current op after true
      ((perform op).run (lk.begins m.current op))) : m.Enters label op m' lk where
  quiet := hground.quiet
  threads := hthreads
  wf := (hground.sound hsound).wf
  notIdle hop hidle := by
    have hf := (hground.sound hsound).tracked.idle f (by
      rw [← hidle, hframes]
      exact List.mem_cons_self)
    rw [(Frame.ofIdle_section hf hinstr).1] at hop
    cases hop
  settle := hm

theorem Machine.step_ground (hbegins : m.begins label = some op) (hstep : m.step label = some m') :
    ∃ lk f stack next, m.Ground lk ∧
      (lk.threads = if label = .tick then m.kernel.threadTimerTick.1.threads
        else m.kernel.threads) ∧
      lk.frames m.current = f :: stack ∧ f.instr = .section op next ∧
      m' = m.settle m.current op (fun r => next r ++ stack) true
        ((perform op).run (lk.begins m.current op)) := by
  have hinterrupt : ∀ lk : Kernel, m.Interrupt lk op → m.interrupt lk op = some m' →
      (lk.threads = if label = .tick then m.kernel.threadTimerTick.1.threads
        else m.kernel.threads) → ∃ lk f stack next, m.Ground lk ∧
          (lk.threads = if label = .tick then m.kernel.threadTimerTick.1.threads
            else m.kernel.threads) ∧
          lk.frames m.current = f :: stack ∧ f.instr = .section op next ∧
          m' = m.settle m.current op (fun r => next r ++ stack) true
            ((perform op).run (lk.begins m.current op)) := by
    intro lk hi hm hthreads
    rw [Machine.interrupt_eq op hi.quiet.currentThread, Option.some.injEq] at hm
    exact ⟨_, .op op, lk.frames m.current, fun _ => [], .interrupt hi, hthreads,
      Function.update_self _ _ _, rfl, hm.symm⟩
  have hcode := Machine.begins_outside hbegins
  simp only [Machine.begins, hcode] at hbegins
  simp only [Machine.step, hcode] at hstep
  cases label with
  | run =>
    unfold Machine.exec at hstep
    cases hframes : m.kernel.frames m.current with
    | nil => simp [hframes] at hstep
    | cons f stack =>
      simp only [hframes, List.head?_cons, Option.bind_some, Frame.op?] at hbegins hstep
      cases hinstr : f.instr with
      | «section» o next =>
        simp only [hinstr, Option.some.injEq] at hbegins hstep
        subst hbegins
        exact ⟨_, f, stack, next, .run, rfl, hframes, hinstr, hstep.symm⟩
      | act g next => simp [hinstr] at hbegins
      | user => simp [hinstr] at hbegins
  | call f => cases hbegins
  | ret r => cases hbegins
  | tick =>
    dsimp only at hbegins hstep
    split at hbegins
    · next htick =>
      cases hbegins
      rw [if_pos htick] at hstep
      exact hinterrupt _ .tick hstep rfl
    · cases hbegins
  | preempt =>
    cases hbegins
    exact hinterrupt _ .preempt hstep rfl
  | lTimer τ =>
    cases hbegins
    dsimp only at hstep
    split at hstep
    · next hτ => exact hinterrupt _ (.lTimer τ hτ.1 hτ.2) hstep rfl
    · cases hstep
  | expire t =>
    cases hbegins
    dsimp only at hstep
    split at hstep
    · next ht => exact hinterrupt _ (.expire t ht) hstep rfl
    · cases hstep

theorem Machine.step_enters (hsound : m.kernel.Sound) (hbegins : m.begins label = some op)
    (hstep : m.step label = some m') : ∃ lk, m.Enters label op m' lk := by
  obtain ⟨lk, f, stack, next, hground, hthreads, hframes, hinstr, hm⟩ :=
    Machine.step_ground hbegins hstep
  exact ⟨lk, Machine.enters_of_ground hsound hground hthreads hframes hinstr ⟨_, hm⟩⟩

theorem Machine.settle_still (m : Machine) (c : Tid) (op : Op) (after : Int → List Frame)
    (b : Bool) (x : Susp Kernel Int) : x.state.Still (m.settle c op after b x).kernel := by
  cases x with
  | done r lk => exact .of_eq rfl
  | switch lk k => exact .refl lk

theorem Machine.step_inPlace
    (hrest : ∀ t k, m.code t = .inside k → ∀ lk, ∃ r lk', k lk = .done r lk' ∧ lk.Still lk')
    (hbegins : m.begins label = none) (hstep : m.step label = some m') :
    m.kernel.InPlace m'.kernel ∧ m'.code = Function.update m.code m.current .outside := by
  cases Machine.step_cases hstep with
  | aside hcode ha => exact ⟨ha.inPlace, rfl⟩
  | enter hcode hg hframes hinstr hop =>
    rw [hbegins] at hop
    cases hop
  | @resume k f stack op next hcode hframes hinstr =>
    obtain ⟨r, lk, hk, hin⟩ := hrest _ k hcode m.kernel
    rw [hk]
    exact ⟨(hin.trans (.of_eq rfl)).toInPlace, rfl⟩

end Steps

/-- What is left of an operation leaves the queues alone, and who was switched to has the highest
priority. -/
structure Machine.Poised (m : Machine) : Prop where
  rest : ∀ t k, m.code t = .inside k → ∀ lk, ∃ r lk', k lk = .done r lk' ∧ lk.Still lk'
  topmost : m.code m.current ≠ .outside → m.kernel.Topmost

section Runs

variable {ok : Machine → Label → Prop} {objects : Objects} {m m' : Machine} {label : Label}
  {op : Op} {lk : Kernel}

theorem Machine.Enters.current (h : m.Enters label op m' lk) :
    (lk.begins m.current op).currentThread = m.current :=
  h.quiet.currentThread

/-- The operation comes to `thread_resched`, or to its end. -/
theorem Machine.Enters.comes (h : m.Enters label op m' lk) :
    Comes (op.Reschedules (lk.begins m.current op))
      (fun lk' => (op.keepsRanks = true → (lk.begins m.current op).SameRanks lk') ∧
        lk'.currentThread = m.current ∧
        ∀ t, (lk'.threads t).share = op.shareAfter (lk.begins m.current op) t)
      ((perform op).run (lk.begins m.current op)) :=
  (perform_comes h.wf fun hop => by
    rw [h.current]
    exact h.notIdle hop).imp Iff.rfl fun _ hlk =>
      ⟨hlk.1, hlk.2.1.trans h.current, hlk.2.2⟩

theorem Machine.Enters.still (h : m.Enters label op m' lk) :
    ((perform op).run (lk.begins m.current op)).state.Still m'.kernel := by
  obtain ⟨after, rfl⟩ := h.settle
  exact m.settle_still _ _ _ _ _

theorem Machine.Enters.inPlace (h : m.Enters label op m' lk) :
    ((perform op).run (lk.begins m.current op)).state.InPlace m'.kernel :=
  h.still.toInPlace

theorem Machine.Enters.poised (h : m.Enters label op m' lk) (hp : m.Poised) : m'.Poised := by
  have hcomes := h.comes
  have hmoves := perform_changing m.current op (lk.begins m.current op) h.current
  obtain ⟨after, rfl⟩ := h.settle
  generalize (perform op).run (lk.begins m.current op) = x at hcomes hmoves ⊢
  cases x with
  | done r lk' =>
    have hcurrent : lk'.currentThread = m.current := hmoves.2
    refine ⟨fun t k ht => ?_, fun ht => ?_⟩
    · by_cases hc : t = m.current
      · simp [Machine.settle, hc] at ht
      · exact hp.rest t k (by simpa [Machine.settle, hc] using ht)
    · have hsame : (m.settle m.current op after true (.done r lk')).current = m.current := hcurrent
      rw [hsame] at ht
      simp [Machine.settle] at ht
  | switch lk' k =>
    have hresched : Reschedules (fun _ => True) (.switch lk' k) := by
      rcases hcomes with ⟨-, hx⟩ | ⟨-, a, lk'', hx, -⟩
      · exact hx.mono fun _ _ => trivial
      · cases hx
    refine ⟨fun t k' ht => ?_, fun _ => hresched.topmost⟩
    by_cases hc : t = m.current
    · simp only [Machine.settle, hc, Function.update_self, Code.inside.injEq] at ht
      rw [← ht]
      exact hresched.once.2
    · exact hp.rest t k' (by simpa [Machine.settle, hc] using ht)

theorem Machine.Poised.step (hp : m.Poised) (hsound : m.kernel.Sound)
    (hstep : m.step label = some m') : m'.Poised := by
  cases hbegins : m.begins label with
  | some op =>
    obtain ⟨lk, henters⟩ := Machine.step_enters hsound hbegins hstep
    exact henters.poised hp
  | none =>
    obtain ⟨hin, hcode⟩ := Machine.step_inPlace hp.rest hbegins hstep
    refine ⟨fun t k ht => ?_, fun ht => ?_⟩
    · rw [hcode] at ht
      by_cases hc : t = m.current
      · simp [hc] at ht
      · exact hp.rest t k (by simpa [hc] using ht)
    · have hcurrent : m'.current = m.current := hin.currentThread
      simp [hcode, hcurrent] at ht

theorem Machine.Run.poised (hrun : Machine.Run ok (.boot objects) m) : m.Poised := by
  induction hrun with
  | nil =>
    refine ⟨fun t k ht => ?_, fun ht => ?_⟩
    · by_cases hb : t = bootstrapThread <;> simp [Machine.boot, hb] at ht
    · have hcurrent : (Machine.boot objects).current = bootstrapThread := by
        obtain ⟨threads, runQueue, runQueueBitmap, hrun, -, -⟩ := lklThreadInit_run objects
        simp only [Machine.current, Machine.boot, hrun]
        rfl
      rw [hcurrent] at ht
      simp [Machine.boot] at ht
  | snoc hrun _ hstep ih => exact ih.step hrun.sound hstep

theorem Op.Reschedules.congr {lk' : Kernel} (h : lk.Quiet lk') (c : Tid) (op' : Op) :
    op.Reschedules (lk'.begins c op') ↔ op.Reschedules lk := by
  cases op with
  | threadJoin t timeout =>
    obtain ⟨n, hn⟩ := h.threads t
    simp [Op.Reschedules, Kernel.begins, Kernel.note, hn]
  | _ => simp [Op.Reschedules, Kernel.begins, Kernel.note, h.wait, h.sem, h.mutex, h.event]

/-- After an operation that came to `thread_resched`, after a switch, and after an operation that
was gone on with. -/
theorem Machine.Run.topmost (hrun : Machine.Run ok (.boot objects) m)
    (hstep : m.step label = some m')
    (h : (∃ op, m.begins label = some op ∧ op.Reschedules m.kernel) ∨
      m'.current ≠ m.current ∨ m.code m.current ≠ .outside) : m'.kernel.Topmost := by
  have hp := hrun.poised
  cases hbegins : m.begins label with
  | none =>
    obtain ⟨hin, -⟩ := Machine.step_inPlace hp.rest hbegins hstep
    rcases h with ⟨op, hop, -⟩ | hcurrent | hcode
    · rw [hbegins] at hop
      cases hop
    · exact absurd hin.currentThread hcurrent
    · exact hin.topmost (hp.topmost hcode)
  | some op =>
    obtain ⟨lk, henters⟩ := Machine.step_enters hrun.sound hbegins hstep
    rcases henters.comes with ⟨-, hresched⟩ | ⟨hnot, r, lk', hdone, -⟩
    · exact henters.inPlace.topmost hresched.topmost
    · rcases h with ⟨op', hop, hresched⟩ | hcurrent | hcode
      · rw [hbegins] at hop
        cases hop
        exact absurd ((Op.Reschedules.congr henters.quiet _ _).mpr hresched) hnot
      · have hmoves := perform_changing m.current op (lk.begins m.current op) henters.current
        have hin := henters.inPlace
        rw [hdone] at hmoves hin
        exact absurd (hin.currentThread.trans hmoves.2) hcurrent
      · exact absurd (Machine.begins_outside hbegins) hcode

/-- Threads that only call `thread_yield`: nothing else is begun but what a tick, or the end of
another interrupt, does. -/
def Machine.Yields (m : Machine) (label : Label) : Prop :=
  m.begins label = none ∨ m.begins label = some .threadYield ∨
    m.begins label = some .threadPreempt ∧ (label = .tick ∨ label = .preempt)

/-- The turn of the running thread is over: it yields, or its quantum is consumed. -/
def Machine.passes (m : Machine) (label : Label) : Bool :=
  match m.begins label with
  | some .threadYield => true
  | some .threadPreempt =>
    label = .tick ∨ (m.kernel.threads m.current).remainingQuantum ≤ 0
  | _ => false

/-- Runs of such threads, and how many turns were over in them. -/
inductive Machine.Turns (m : Machine) : Nat → Machine → Prop where
  | nil : Turns m 0 m
  | snoc {k : Nat} {m' m'' : Machine} {label : Label} (hturns : Turns m k m')
    (hyields : m'.Yields label) (hstep : m'.step label = some m'') :
    Turns m (k + (m'.passes label).toNat) m''

/-- The running thread, and the others of the priority in the order in which they are ready. -/
def Kernel.ring (lk : Kernel) (p : Priority) : List Tid := lk.currentThread :: lk.runQueue p

theorem Kernel.InPlace.ring {lk' : Kernel} (h : lk.InPlace lk') (p : Priority) :
    lk'.ring p = lk.ring p := by
  rw [Kernel.ring, Kernel.ring, h.currentThread, h.runQueue]

theorem Reschedules.ring {α : Type} {R : Kernel → Prop} {x : Susp Kernel α} {p : Priority}
    {list : List Tid} (h : Reschedules R x)
    (hR : ∀ lk, R lk → lk.runQueue p = list ∧ ∀ p', p < p' → lk.runQueue p' = [])
    (hne : list ≠ []) : x.state.ring p = list := by
  obtain ⟨lk, f, hplaced, hlk, hf, rfl⟩ := h
  obtain ⟨hlist, habove⟩ := hR lk hlk
  refine Susp.state_bind (P := fun lk' : Kernel => lk'.ring p = list) ?_ hf
    fun _ _ hs h => (hs.ring p).trans h
  obtain ⟨hcurrent, hqueue, -, -⟩ := threadResched_state lk
  rw [Kernel.ring, hcurrent, hqueue]
  rcases hplaced.top_cases with ⟨-, hnone⟩ | ⟨p', ts, htop, hrest, habove'⟩
  · exact absurd (hlist.symm.trans (hnone p)) hne
  · have hp : p' = p := by
      refine le_antisymm (not_lt.mp fun hlt => ?_) (not_lt.mp fun hlt => ?_)
      · rw [habove p' hlt] at htop
        cases htop
      · exact hne (hlist.symm.trans (habove' p hlt))
    subst hp
    rw [hrest, Function.update_self, ← htop, hlist]

theorem Kernel.Wf.above (h : lk.Wf) (htop : lk.Topmost) {p : Priority}
    (hp : (lk.threads lk.currentThread).priority < p) : lk.runQueue p = [] := by
  rw [List.eq_nil_iff_forall_not_mem]
  intro t ht
  obtain ⟨-, hready, hprio⟩ := (h.ready p t).mp ht
  exact absurd (htop t hready) (by rw [hprio]; exact not_le.mpr hp)

theorem Kernel.Wf.mem_ring (h : lk.Wf) {p : Priority}
    (hp : (lk.threads lk.currentThread).priority = p) (t : Tid) : t ∈ lk.ring p ↔
      ((lk.threads t).state = .running ∨ (lk.threads t).state = .ready) ∧
        (lk.threads t).priority = p := by
  have hrun := h.running t (Set.notMem_empty t)
  rw [Option.some.injEq] at hrun
  rw [Kernel.ring, List.mem_cons, h.ready p t, hrun]
  constructor
  · rintro (rfl | ⟨-, hready, hprio⟩)
    · exact ⟨.inl rfl, hp⟩
    · exact ⟨.inr hready, hprio⟩
  · rintro ⟨hc | hready, hprio⟩
    · exact .inl hc.symm
    · exact .inr ⟨Set.notMem_empty t, hready, hprio⟩

theorem Kernel.Wf.nodup_ring (h : lk.Wf) (p : Priority) : (lk.ring p).Nodup := by
  refine List.nodup_cons.mpr ⟨fun hmem => ?_, h.once p⟩
  have hready := ((h.ready p _).mp hmem).2.1
  rw [(h.running _ (Set.notMem_empty _)).mpr rfl] at hready
  cases hready

theorem Kernel.tick_quantum (lk : Kernel) (h : lk.threadTimerTick.2 = true) :
    (lk.threadTimerTick.1.threads lk.currentThread).remainingQuantum ≤ 0 := by
  unfold Kernel.threadTimerTick at h ⊢
  dsimp only at h ⊢
  split at h
  · cases h
  · next hflag =>
    rw [if_neg hflag, Kernel.setThread_self]
    simpa using h

theorem Machine.tick_preempts (hbegins : m.begins .tick = some op) :
    m.kernel.threadTimerTick.2 = true := by
  simp only [Machine.begins, Machine.begins_outside hbegins] at hbegins
  split at hbegins
  · assumption
  · cases hbegins

theorem Machine.Enters.quantum (h : m.Enters label op m' lk)
    (hbegins : m.begins label = some .threadPreempt) (hlabel : label = .tick ∨ label = .preempt) :
    0 < (lk.threads m.current).remainingQuantum ↔ m.passes label = false := by
  rw [h.threads, Machine.passes, hbegins]
  rcases hlabel with rfl | rfl
  · rw [if_pos rfl]
    have htick := m.kernel.tick_quantum (Machine.tick_preempts hbegins)
    exact ⟨fun hlt => absurd htick (not_le.mpr hlt), by simp⟩
  · rw [if_neg (by decide)]
    simp

/-- What a step does to the ring: it is turned by one where a turn is over. -/
theorem Machine.Yields.ring (hrun : Machine.Run ok (.boot objects) m) (htop : m.kernel.Topmost)
    (hyields : m.Yields label) (hstep : m.step label = some m') :
    m.kernel.SameRanks m'.kernel ∧
      m'.kernel.ring (m.kernel.threads m.current).priority =
        (m.kernel.ring (m.kernel.threads m.current).priority).rotate (m.passes label).toNat := by
  have hturn : ∀ {op : Op} {lk : Kernel} (list : List Tid), m.Enters label op m' lk → list ≠ [] →
      Reschedules (fun lk' => (lk.begins m.current op).SameRanks lk' ∧
        lk'.runQueue = Function.update m.kernel.runQueue
          (m.kernel.threads m.current).priority list)
        ((perform op).run (lk.begins m.current op)) →
      m.kernel.SameRanks m'.kernel ∧
        m'.kernel.ring (m.kernel.threads m.current).priority = list := by
    intro op lk list henters hne hresched
    refine ⟨?_, ?_⟩
    · obtain ⟨lk', hlk', hranks⟩ := hresched.ranks
      have hbegins : m.kernel.SameRanks (lk.begins m.current op) :=
        (henters.quiet.inPlace.trans (Kernel.Still.begins lk _ _).toInPlace).sameRanks
      exact hbegins.trans (hlk'.1.trans (hranks.trans henters.inPlace.sameRanks))
    · rw [henters.inPlace.ring]
      refine hresched.ring (fun lk' hlk' => ?_) hne
      rw [hlk'.2, Function.update_self]
      refine ⟨rfl, fun p' hp' => ?_⟩
      rw [Function.update_of_ne hp'.ne']
      exact hrun.sound.wf.above htop hp'
  rcases hyields with hbegins | hbegins | ⟨hbegins, hlabel⟩
  · obtain ⟨hin, -⟩ := Machine.step_inPlace hrun.poised.rest hbegins hstep
    refine ⟨hin.sameRanks, ?_⟩
    rw [hin.ring, Machine.passes, hbegins]
    exact (List.rotate_zero _).symm
  · obtain ⟨lk, henters⟩ := Machine.step_enters hrun.sound hbegins hstep
    have hyield := (threadYield_reschedules henters.wf).bind (f := fun _ => pure (0 : Int))
      fun _ => .pure _
    have hmoved := hturn (m.kernel.runQueue (m.kernel.threads m.current).priority ++ [m.current])
      henters (by simp) (hyield.mono fun lk' hlk' => ⟨hlk'.1, ?_⟩)
    · refine ⟨hmoved.1, ?_⟩
      rw [hmoved.2, Machine.passes, hbegins]
      simp [Kernel.ring, Machine.current]
    · rw [hlk'.2.1, henters.current]
      simp only [Kernel.begins, Kernel.note, henters.quiet.inPlace.priority, henters.quiet.runQueue]
  · obtain ⟨lk, henters⟩ := Machine.step_enters hrun.sound hbegins hstep
    have hquantum := henters.quantum hbegins hlabel
    have hpreempt := (threadPreempt_reschedules henters.wf).bind (f := fun _ => pure (0 : Int))
      fun _ => .pure _
    have hmoved := hturn (if 0 < (lk.threads m.current).remainingQuantum then
        m.current :: m.kernel.runQueue (m.kernel.threads m.current).priority
      else m.kernel.runQueue (m.kernel.threads m.current).priority ++ [m.current])
      henters (by split <;> simp) (hpreempt.mono fun lk' hlk' => ⟨hlk'.1.toSameRanks, ?_⟩)
    · refine ⟨hmoved.1, ?_⟩
      rw [hmoved.2]
      by_cases hq : 0 < (lk.threads m.current).remainingQuantum
      · rw [if_pos hq, hquantum.mp hq]
        exact (List.rotate_zero _).symm
      · have hpasses : m.passes label = true :=
          Bool.eq_true_of_not_eq_false fun hp => hq (hquantum.mpr hp)
        rw [if_neg hq, hpasses]
        simp [Kernel.ring, Machine.current]
    · rw [hlk'.2, henters.current]
      simp only [Kernel.begins, Kernel.note, henters.quiet.inPlace.priority, henters.quiet.runQueue]

/-- After a run of such threads the ring is turned as often as turns were over. -/
structure Machine.Turned (m : Machine) (k : Nat) (m' : Machine) : Prop where
  topmost : m'.kernel.Topmost
  ranks : m.kernel.SameRanks m'.kernel
  ring : m'.kernel.ring (m.kernel.threads m.current).priority =
    (m.kernel.ring (m.kernel.threads m.current).priority).rotate k
  priority : (m'.kernel.threads m'.current).priority = (m.kernel.threads m.current).priority

theorem Machine.Turns.turned {k : Nat} (hturns : m.Turns k m')
    (hrun : Machine.Run ok (.boot objects) m) (htop : m.kernel.Topmost) :
    Machine.Run (fun _ _ => True) (.boot objects) m' ∧ m.Turned k m' := by
  induction hturns with
  | nil =>
    exact ⟨hrun.weaken fun _ _ _ => trivial, htop, .refl _, (List.rotate_zero _).symm, rfl⟩
  | @snoc k m' m'' label _ hyields hstep ih =>
    obtain ⟨hrun', hturned⟩ := ih
    obtain ⟨hranks, hring⟩ := hyields.ring hrun' hturned.topmost hstep
    have hranks' := hturned.ranks.trans hranks
    rw [hturned.priority, hturned.ring, List.rotate_rotate] at hring
    refine ⟨hrun'.snoc trivial hstep, ?_, hranks', hring, ?_⟩
    · rcases hyields with hbegins | hbegins | ⟨hbegins, -⟩
      · obtain ⟨hin, -⟩ := Machine.step_inPlace hrun'.poised.rest hbegins hstep
        exact hin.topmost hturned.topmost
      · exact hrun'.topmost hstep (.inl ⟨_, hbegins, trivial⟩)
      · exact hrun'.topmost hstep (.inl ⟨_, hbegins, trivial⟩)
    · have hmem : m''.current ∈ m''.kernel.ring (m.kernel.threads m.current).priority :=
        List.mem_cons_self
      rw [hring, List.mem_rotate] at hmem
      rw [hranks'.priority]
      exact ((hrun.sound.wf.mem_ring rfl _).mp hmem).2

end Runs

theorem exists_unique_turn {α : Type} {ring : List α} (h : ring.Nodup) {a : α} (ha : a ∈ ring)
    (j : Nat) : ∃! i, i < ring.length ∧ ring[(j + i) % ring.length]? = some a := by
  have hpos : 0 < ring.length := List.length_pos_of_mem ha
  have hturn : ∀ i < ring.length, ring[(j + i) % ring.length]? = (ring.rotate j)[i]? := by
    intro i hi
    rw [List.getElem?_rotate hi, Nat.add_comm]
  obtain ⟨i, hi, hget⟩ := List.mem_iff_getElem.mp (List.mem_rotate.mpr ha : a ∈ ring.rotate j)
  have hlt : i < ring.length := by simpa using hi
  refine ⟨i, ⟨hlt, ?_⟩, ?_⟩
  · rw [hturn i hlt, List.getElem?_eq_getElem hi, hget]
  · rintro i' ⟨hi', hget'⟩
    rw [hturn i' hi', List.getElem?_eq_some_iff] at hget'
    obtain ⟨hlt', hget'⟩ := hget'
    exact (List.nodup_rotate.mpr h).getElem_inj_iff.mp (hget'.trans hget.symm)

/-- What the functions of `UefiHost.c` and its callbacks come to under the lock. -/
def Op.ofHost : Op → Bool
  | .threadCreate priority _ => priority = DEFAULT_PRIORITY
  | .threadResume _ | .threadYield | .threadPreempt | .threadExit _ | .threadDetach _ => true
  | .threadJoin _ timeout => timeout = INFINITE_TIME ∨ timeout = 0
  | .semPost _ resched => resched
  | .semWait _ | .semDestroy _ => true
  | .mutexAcquire _ timeout => timeout = INFINITE_TIME
  | .mutexRelease _ | .mutexDestroy _ => true
  | .eventWait (.timer _) timeout => timeout = INFINITE_TIME
  | .eventSignal (.timer _) reschedule => reschedule
  | .eventDestroy (.timer _) => true
  | _ => false

/-- No other operation is begun. -/
def Machine.HostUse (m : Machine) (label : Label) : Prop :=
  ∀ op ∈ m.begins label, op.ofHost = true

/-- All threads have the default priority but the idle thread, and while that runs nobody else
is ready. -/
structure Kernel.Hosted (lk : Kernel) : Prop where
  priority : ∀ t < lk.nextTid, (lk.threads t).priority =
    if t = idleThread then IDLE_PRIORITY else DEFAULT_PRIORITY
  idle : lk.currentThread = idleThread → ∀ t, (lk.threads t).state ≠ .ready

section Host

variable {ok : Machine → Label → Prop} {objects : Objects} {m m' : Machine} {label : Label}
  {op : Op} {lk lk' : Kernel}

theorem Kernel.Hosted.inPlace (h : lk.Hosted) (hin : lk.InPlace lk') : lk'.Hosted where
  priority t ht := by
    rw [hin.nextTid] at ht
    rw [hin.priority]
    exact h.priority t ht
  idle hc t := by
    rw [hin.currentThread] at hc
    rw [hin.state]
    exact h.idle hc t

theorem Kernel.Hosted.of_topmost (hwf : lk.Wf) (htop : lk.Topmost)
    (hpriority : ∀ t < lk.nextTid, (lk.threads t).priority =
      if t = idleThread then IDLE_PRIORITY else DEFAULT_PRIORITY) : lk.Hosted := by
  refine ⟨hpriority, fun hc t ht => ?_⟩
  have hborn : t < lk.nextTid := Queues.lt_nextTid hwf (by rw [ht]; decide)
  have hrun : (lk.threads idleThread).state = .running :=
    (hwf.running _ (Set.notMem_empty _)).mpr (by rw [hc])
  have hborn' : idleThread < lk.nextTid := Queues.lt_nextTid hwf (by rw [hrun]; decide)
  have hne : t ≠ idleThread := by
    rintro rfl
    rw [hrun] at ht
    cases ht
  have hle := htop t ht
  rw [hc, hpriority t hborn, hpriority _ hborn', if_neg hne, if_pos rfl] at hle
  exact absurd hle (by decide)

theorem threadCreate_priority (lk : Kernel) (priority : Priority) (entry : Entry) :
    ∃ r lk', (perform (.threadCreate priority entry)).run lk = .done r lk' ∧
      lk'.nextTid = lk.nextTid + 1 ∧ lk'.currentThread = lk.currentThread ∧
      ∀ t, (lk'.threads t).priority =
        if t = lk.nextTid then priority else (lk.threads t).priority := by
  refine ⟨_, _, rfl, rfl, rfl, fun t => ?_⟩
  by_cases ht : t = lk.nextTid
  · simp [ht, Kernel.addThread, Kernel.unlock, Kernel.lock]
  · simp [ht, Kernel.addThread, Kernel.unlock, Kernel.lock]

theorem Machine.boot_hosted (objects : Objects) : (Machine.boot objects).kernel.Hosted := by
  have hkernel : (Machine.boot objects).kernel =
      ((threadSetPriority DEFAULT_PRIORITY.val).run (Kernel.idleStart objects)).state := by
    simp only [Machine.boot, lklThreadInit, Section.run_bind, Section.run_modify, Susp.done_bind,
      threadCreateIdle_run]
  obtain ⟨lk, ⟨⟨hnext, hpriority⟩, -⟩, hranks⟩ := (threadSetPriority_reschedules
    (Kernel.idleStart_wf objects) DEFAULT_PRIORITY.val).ranks
  rw [← hkernel] at hranks
  refine ⟨fun t ht => ?_, fun hc => ?_⟩
  · rw [hranks.nextTid, hnext] at ht
    rw [hranks.priority, hpriority]
    have hcases : t = idleThread ∨ t = bootstrapThread :=
      Nat.le_one_iff_eq_zero_or_eq_one.mp (Nat.lt_succ_iff.mp ht)
    rcases hcases with rfl | rfl
    · rfl
    · rfl
  · obtain ⟨threads, runQueue, runQueueBitmap, hrun, -, -⟩ := lklThreadInit_run objects
    simp only [Machine.boot, hrun] at hc
    cases hc

/-- What the idle thread does, and is interrupted by, wakes nobody or comes to
`thread_resched`. -/
theorem Machine.Enters.idles (h : m.Enters label op m' lk) (hidle : m.current = idleThread)
    (hhost : op.ofHost = true) :
    ((perform op).run (lk.begins m.current op)).state.Topmost ∨
      (lk.begins m.current op).InPlace ((perform op).run (lk.begins m.current op)).state := by
  rcases h.comes with ⟨-, hresched⟩ | ⟨hnot, -⟩
  · exact .inl hresched.topmost
  · have hforIdle : op.forIdle = true := by
      by_contra hop
      exact h.notIdle (Bool.eq_false_iff.mpr hop) hidle
    cases op with
    | threadPreempt => exact absurd trivial hnot
    | eventSignal e reschedule =>
      have hreschedule : reschedule = true := by
        cases e with
        | host e => cases hhost
        | timer τ => exact hhost
      subst hreschedule
      obtain ⟨r, lk', hrun, hin⟩ := eventSignal_inPlace h.wf e hnot
      rw [perform, hrun]
      exact .inr hin.toInPlace
    | threadUnblock t err => cases hhost
    | _ => cases hforIdle

theorem Machine.Enters.hosted (h : m.Enters label op m' lk)
    (hrun : Machine.Run ok (.boot objects) m) (hstep : m.step label = some m')
    (hok : ok m label) (hhost : op.ofHost = true)
    (hosted : m.kernel.Hosted) : m'.kernel.Hosted := by
  have hbegun : (lk.begins m.current op).Hosted :=
    hosted.inPlace (h.quiet.inPlace.trans (Kernel.Still.begins lk _ _).toInPlace)
  have hwf : m'.kernel.Wf := (hrun.snoc hok hstep).sound.wf
  by_cases hcreate : ∃ priority entry, op = .threadCreate priority entry
  · obtain ⟨priority, entry, rfl⟩ := hcreate
    obtain ⟨r, lk', hdone, hnext, hcurrent, hpriority⟩ :=
      threadCreate_priority (lk.begins m.current (.threadCreate priority entry)) priority entry
    have hin : lk'.InPlace m'.kernel := by simpa only [hdone, Susp.state] using h.inPlace
    refine Kernel.Hosted.inPlace ⟨fun t ht => ?_, fun hc => ?_⟩ hin
    · have hdefault : priority = DEFAULT_PRIORITY := by simpa [Op.ofHost] using hhost
      have hmade : idleThread < (lk.begins m.current (.threadCreate priority entry)).nextTid :=
        hrun.sound.tracked.made.trans_eq h.quiet.nextTid.symm
      rw [hnext] at ht
      rw [hpriority]
      by_cases hnew : t = (lk.begins m.current (.threadCreate priority entry)).nextTid
      · rw [if_pos hnew, if_neg (hnew ▸ hmade.ne'), hdefault]
      · rw [if_neg hnew]
        exact hbegun.priority t (lt_of_le_of_ne (Nat.lt_succ_iff.mp ht) hnew)
    · exact absurd (h.current.symm.trans (hcurrent.symm.trans hc)) (h.notIdle rfl)
  · have hkeeps : op.keepsRanks = true := by
      cases op with
      | threadCreate priority entry => exact absurd ⟨_, _, rfl⟩ hcreate
      | threadSetPriority priority => cases hhost
      | _ => rfl
    have hranks : (lk.begins m.current op).SameRanks m'.kernel := by
      rcases h.comes with ⟨-, hresched⟩ | ⟨-, r, lk', hdone, hlk'⟩
      · obtain ⟨lk', hlk', hstate⟩ := hresched.ranks
        exact (hlk'.1 hkeeps).trans (hstate.trans h.inPlace.sameRanks)
      · have hin : lk'.InPlace m'.kernel := by simpa only [hdone, Susp.state] using h.inPlace
        exact (hlk'.1 hkeeps).trans hin.sameRanks
    have hpriority : ∀ t < m'.kernel.nextTid, (m'.kernel.threads t).priority =
        if t = idleThread then IDLE_PRIORITY else DEFAULT_PRIORITY := by
      intro t ht
      rw [hranks.nextTid] at ht
      rw [hranks.priority]
      exact hbegun.priority t ht
    by_cases hidle : m.current = idleThread
    · rcases h.idles hidle hhost with htop | hin
      · exact .of_topmost hwf (h.inPlace.topmost htop) hpriority
      · exact hbegun.inPlace (hin.trans h.inPlace)
    · refine ⟨hpriority, fun hc => ?_⟩
      have hswitched : m'.current ≠ m.current := fun hsame => hidle (hsame.symm.trans hc)
      have htop := hrun.topmost hstep (.inr (.inl hswitched))
      exact (Kernel.Hosted.of_topmost hwf htop hpriority).idle hc

theorem Machine.Run.hosted (hrun : Machine.Run Machine.HostUse (.boot objects) m) :
    m.kernel.Hosted := by
  induction hrun with
  | nil => exact Machine.boot_hosted objects
  | @snoc m m' label hrun hok hstep ih =>
    cases hbegins : m.begins label with
    | none => exact ih.inPlace (Machine.step_inPlace hrun.poised.rest hbegins hstep).1
    | some op =>
      obtain ⟨lk, henters⟩ := Machine.step_enters hrun.sound hbegins hstep
      exact henters.hosted hrun hstep hok (hok op hbegins) ih

end Host

instance (m : Machine) (label : Label) : Decidable (m.Yields label) :=
  inferInstanceAs (Decidable (_ ∨ _ ∨ _ ∧ (_ ∨ _)))

instance (m : Machine) (label : Label) : Decidable (m.HostUse label) :=
  inferInstanceAs (Decidable (∀ op ∈ m.begins label, op.ofHost = true))

/-- Going through fixed steps of threads that yield, counting the turns. -/
def Machine.turning (m : Machine) : List Label → Option (Nat × Machine)
  | [] => some (0, m)
  | label :: labels =>
    if m.Yields label then
      (m.step label).bind fun m' =>
        (m'.turning labels).map fun x => ((m.passes label).toNat + x.1, x.2)
    else none

section Order

variable {objects : Objects} {m : Machine}

/-- The threads take turns in the order of the list, each once in a round. -/
structure Machine.RoundRobin (m : Machine) (ring : List Tid) : Prop where
  members : ∀ t, t ∈ ring ↔
    ((m.kernel.threads t).state = .running ∨ (m.kernel.threads t).state = .ready) ∧
      (m.kernel.threads t).priority = (m.kernel.threads m.current).priority
  turn : ∀ k m', m.Turns k m' → ring[k % ring.length]? = some m'.current
  once : ∀ t ∈ ring, ∀ j, ∃! i, i < ring.length ∧ ring[(j + i) % ring.length]? = some t

theorem Machine.Run.roundRobin {ok : Machine → Label → Prop}
    (hrun : Machine.Run ok (.boot objects) m) (htop : m.kernel.Topmost) :
    m.RoundRobin (m.kernel.ring (m.kernel.threads m.current).priority) := by
  have hnodup := hrun.sound.wf.nodup_ring (m.kernel.threads m.current).priority
  refine ⟨hrun.sound.wf.mem_ring rfl, fun k m' hturns => ?_, fun t ht j =>
    exists_unique_turn hnodup ht j⟩
  have hring := (hturns.turned hrun htop).2.ring
  generalize m.kernel.ring (m.kernel.threads m.current).priority = ring at hring
  have hpos : 0 < ring.length := by
    have hlength := congrArg List.length hring
    simp only [Kernel.ring, List.length_cons, List.length_rotate] at hlength
    omega
  have hhead := congrArg List.head? hring
  rw [← List.rotate_mod, List.head?_rotate (Nat.mod_lt k hpos)] at hhead
  exact hhead.symm

theorem Machine.Turns.turning {k j : Nat} {m₁ m' : Machine} {labels : List Label}
    (hturns : m.Turns k m₁) (h : m₁.turning labels = some (j, m')) : m.Turns (k + j) m' := by
  induction labels generalizing k j m₁ with
  | nil =>
    cases h
    exact hturns
  | cons label labels ih =>
    unfold Machine.turning at h
    split at h
    · next hyields =>
      obtain ⟨m₂, hstep, h⟩ := Option.bind_eq_some_iff.mp h
      obtain ⟨⟨i, m₃⟩, hrest, heq⟩ := Option.map_eq_some_iff.mp h
      cases heq
      rw [← Nat.add_assoc]
      exact ih (hturns.snoc hyields hstep) hrest
    · cases h

/-- Scheduling by priority: `thread_resched` takes the first thread of the highest queue; what
comes to it leaves no ready thread above the running one; threads that only yield take turns;
and the host's idle thread runs only while nobody else is ready. -/
theorem run_by_priority (objects : Objects) :
    (∀ lk : Kernel, lk.Placed none ∅ →
      lk.topThread lk.runQueueBitmap = lk.getTopThread ∧ lk.Chooses (threadResched.run lk).state) ∧
    (∀ ok m m' label, Machine.Run ok (.boot objects) m → m.step label = some m' →
      ((∃ op, m.begins label = some op ∧ op.Reschedules m.kernel) ∨
        m'.current ≠ m.current ∨ m.code m.current ≠ .outside) → m'.kernel.Topmost) ∧
    (∀ ok m, Machine.Run ok (.boot objects) m → m.kernel.Topmost →
      m.RoundRobin (m.kernel.ring (m.kernel.threads m.current).priority)) ∧
    ∀ m, Machine.Run Machine.HostUse (.boot objects) m →
      (∀ t < m.kernel.nextTid, (m.kernel.threads t).priority =
        if t = idleThread then IDLE_PRIORITY else DEFAULT_PRIORITY) ∧
      ((m.kernel.threads idleThread).state = .running →
        ∀ t, (m.kernel.threads t).state ≠ .ready) := by
  refine ⟨fun lk h => ⟨lk.topThread_eq, threadResched_chooses h⟩,
    fun ok m m' label hrun hstep h => hrun.topmost hstep h,
    fun ok m hrun htop => hrun.roundRobin htop,
    fun m hrun => ⟨hrun.hosted.priority, fun hidle => hrun.hosted.idle ?_⟩⟩
  have hcurrent := (hrun.sound.wf.running idleThread (Set.notMem_empty _)).mp hidle
  exact Option.some_inj.mp hcurrent

/-- The bootstrap thread makes another, and each of the two yields; or it waits for a token there
is not. -/
theorem run_by_priority_yielding :
    (∃ m m', Machine.Run (fun _ _ => True) (.boot .assorted) m ∧
      m.kernel.ring DEFAULT_PRIORITY = [2, bootstrapThread] ∧ m.Turns 2 m' ∧ m'.current = 2) ∧
    ∃ m, Machine.Run Machine.HostUse (.boot .assorted) m ∧
      (m.kernel.threads idleThread).state = .running ∧
        ∀ t, (m.kernel.threads t).state ≠ .ready := by
  obtain ⟨-, htopmost, hturn, hhost⟩ := run_by_priority .assorted
  constructor
  · have hresult : ((Machine.boot .assorted).after (fun _ _ => True)
        [.call .lklThreadCreate, .run, .run]).bind (fun m₀ => (m₀.step .run).bind fun m =>
        (m.turning [.run, .call (.op .threadYield), .run, .run, .call (.op .threadYield), .run]).map
        fun x => (m₀.begins .run, (m.kernel.threads m.current).priority,
          m.kernel.ring DEFAULT_PRIORITY, x.1)) =
        some (some .threadYield, DEFAULT_PRIORITY, [2, bootstrapThread], 2) := by decide +kernel
    obtain ⟨m₀, hm₀, hresult⟩ := Option.bind_eq_some_iff.mp hresult
    obtain ⟨m, hm, hresult⟩ := Option.bind_eq_some_iff.mp hresult
    obtain ⟨⟨k, m'⟩, hm', hresult⟩ := Option.map_eq_some_iff.mp hresult
    simp only [Prod.mk.injEq] at hresult
    obtain ⟨hbegins, hpriority, hring, rfl⟩ := hresult
    have hrun₀ : Machine.Run (fun _ _ => True) (.boot .assorted) m₀ := (Machine.Run.nil _).after hm₀
    have hrun := hrun₀.snoc trivial hm
    have hturns : m.Turns (0 + 2) m' := Machine.Turns.turning .nil hm'
    have htop := htopmost _ _ _ _ hrun₀ hm (.inl ⟨_, hbegins, trivial⟩)
    have hsecond := (hturn _ m hrun htop).turn _ m' hturns
    rw [hpriority, hring] at hsecond
    exact ⟨m, m', hrun, hring, hturns, (Option.some_inj.mp hsecond).symm⟩
  · have hresult : ((Machine.boot .assorted).after Machine.HostUse
        [.call (.semDown (.host 0)), .run, .run]).map
        (fun m => (m.kernel.threads idleThread).state) = some .running := by decide +kernel
    obtain ⟨m, hm, hidle⟩ := Option.map_eq_some_iff.mp hresult
    have hrun : Machine.Run Machine.HostUse (.boot .assorted) m := (Machine.Run.nil _).after hm
    exact ⟨m, hrun, hidle, (hhost m hrun).2 hidle⟩

end Order

end UefiLkl.Lk
