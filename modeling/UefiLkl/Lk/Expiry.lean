import UefiLkl.Lk.Objects
set_option autoImplicit false

/-!
The timer of a thread is set only while it is in a wait with a timeout, and not yet told that the
time is over.
-/

namespace UefiLkl.Lk
open Coroutine

/-- The timers that are set are those of such waits. -/
def Kernel.Armed (lk : Kernel) : Prop :=
  ∀ t, lk.armed t = true → ∃ op, lk.doing t = some op ∧ op.timed = true

section Changes

variable {c t : Tid} {op : Op} {lk lk' : Kernel}

theorem Kernel.Change.armed (h : Kernel.Change c op lk lk') (ht : lk'.armed t = true) :
    lk.armed t = true ∨ t = c ∧ op.timed = true := by
  cases h with
  | arm b hb =>
    by_cases hc : t = c
    · subst hc
      simp only [Kernel.arm, Function.update_self] at ht
      exact .inr ⟨rfl, hb ht⟩
    · simp only [Kernel.arm, Function.update_of_ne hc] at ht
      exact .inl ht
  | pick =>
    rw [Kernel.getTopThread_eq] at ht
    exact .inl ht
  | switch =>
    rw [Kernel.setUpQuantum_eq] at ht
    exact .inl ht
  | useThread =>
    rw [Kernel.useThread_eq] at ht
    exact .inl ht
  | useEvent =>
    rw [Kernel.useEvent_eq] at ht
    exact .inl ht
  | _ => exact .inl ht

theorem Kernel.Armed.changes (h : lk.Armed) (hdoing : lk.doing c = some op)
    (hchanges : Kernel.Changes c op lk lk') : lk'.Armed := by
  induction hchanges with
  | refl => exact h
  | tail h' hchange ih =>
    intro t ht
    rw [hchange.steady.doing]
    rcases hchange.armed ht with ht | ⟨rfl, htimed⟩
    · exact ih t ht
    · rw [(Kernel.Changes.steady h').doing]
      exact ⟨op, hdoing, htimed⟩

theorem Kernel.Armed.quiet (h : lk.Armed) (hquiet : lk.Quiet lk') : lk'.Armed := by
  intro t ht
  rw [hquiet.doing]
  exact h t (hquiet.armed t ht)

theorem Kernel.Armed.eq_false (h : lk.Armed)
    (ht : ∀ op, lk.doing t = some op → op.timed = false) : lk.armed t = false := by
  rw [← Bool.not_eq_true]
  intro harmed
  obtain ⟨op, hdoing, htimed⟩ := h t harmed
  rw [ht op hdoing] at htimed
  cases htimed

theorem Kernel.Armed.begins (h : lk.Armed) (hdoing : lk.doing c = none) :
    (lk.begins c op).Armed := by
  intro t ht
  obtain ⟨op', hop', htimed⟩ := h t ht
  have hc : t ≠ c := by
    rintro rfl
    rw [hdoing] at hop'
    cases hop'
  exact ⟨op', by simpa [Kernel.begins, Kernel.note, hc] using hop', htimed⟩

theorem Kernel.Armed.ends {b : Bool} {r : Int} {frames : List Frame} (h : lk.Armed)
    (hc : lk.armed c = false) : (lk.ends c op b r frames).Armed := by
  intro t ht
  have hne : t ≠ c := by
    rintro rfl
    rw [show (lk.ends t op b r frames).armed t = lk.armed t from rfl, hc] at ht
    cases ht
  obtain ⟨op', hop', htimed⟩ := h t ht
  exact ⟨op', by simpa [Kernel.ends, Kernel.note, Kernel.setFrames, hne] using hop', htimed⟩

end Changes

/-- The timer of thread `c`, which runs, is not set. -/
def Kernel.Unset (c : Tid) (lk : Kernel) : Prop := lk.currentThread = c ∧ lk.armed c = false

/-- Run by thread `c`, the computation leaves its timer as it was, which is not set, in the end. -/
def Resets (c : Tid) {α : Type} (x : Section Kernel α) : Prop :=
  x.Triple (fun lk => lk.currentThread = c) (fun _ => True) (Kernel.Unset c)
    fun _ => Kernel.Unset c

section Resets

variable {c : Tid} {α β : Type} {q : Wq} {timeout : LkTime}

theorem Resets.bind {x : Section Kernel α} {f : α → Section Kernel β} (hx : Resets c x)
    (hf : ∀ a, Resets c (f a)) : Resets c (x >>= f) :=
  Section.Triple.bind hx hf

theorem Resets.pure (a : α) : Resets c (Pure.pure a) := Section.Triple.pure fun _ h => h

theorem Resets.read (f : Kernel → α) : Resets c (.read f) := Section.Triple.read fun _ h => h

theorem Resets.ite {p : Prop} [Decidable p] {x y : Section Kernel α} (hx : Resets c x)
    (hy : Resets c y) : Resets c (if p then x else y) :=
  Section.Triple.ite hx hy

theorem Resets.modify {f : Kernel → Kernel}
    (hf : ∀ lk, (f lk).currentThread = lk.currentThread ∧ (f lk).armed = lk.armed) :
    Resets c (.modify f) := by
  refine Section.Triple.modify fun lk h => ?_
  obtain ⟨hcurrent, harmed⟩ := hf lk
  exact ⟨hcurrent.trans h.1, (congrFun harmed c).trans h.2⟩

theorem lock_resets : Resets c lockThreads := fun _ h => h

theorem unlock_resets (state : Bool) (a : α) : Resets c (do unlockThreads state; Pure.pure a) :=
  .bind (fun _ h => h) fun _ => .pure a

theorem useThread_resets (t : Tid) : Resets c (.modify fun lk => lk.useThread t) :=
  .modify fun lk => by
    rw [Kernel.useThread_eq]
    exact ⟨rfl, rfl⟩

theorem useEvent_resets (e : EventId) : Resets c (.modify fun lk => lk.useEvent e) :=
  .modify fun lk => by
    rw [Kernel.useEvent_eq]
    exact ⟨rfl, rfl⟩

theorem threadResched_current : threadResched.Triple (fun lk => lk.currentThread = c)
    (fun _ => True) (fun lk => lk.currentThread = c) fun _ lk => lk.currentThread = c := by
  intro lk h
  simp only [threadResched]
  split
  · rw [Kernel.getTopThread_eq]
    exact h
  · exact ⟨trivial, fun _ h' _ => h'⟩

theorem waitQueueBlock_resets (hinf : timeout ≠ INFINITE_TIME) :
    Resets c (waitQueueBlock q timeout) := by
  rintro lk ⟨rfl, hunset⟩
  unfold waitQueueBlock
  simp only [Section.run_bind, getCurrentThread_run, Susp.done_bind, if_pos hinf]
  by_cases htimeout : timeout = 0
  · rw [if_pos htimeout]
    exact ⟨rfl, hunset⟩
  · rw [if_neg htimeout]
    simp only [Section.run_bind, Section.run_modify, Section.run_read, Susp.done_bind, Susp.wp_bind]
    have hc : ((lk.enqueue q lk.currentThread).arm lk.currentThread true).currentThread =
        lk.currentThread := rfl
    refine (threadResched_current _ hc).mono fun b _ lk' hc' => ?_
    exact ⟨hc', Function.update_self _ _ _⟩

theorem threadJoin_resets (t : Tid) (hinf : timeout ≠ INFINITE_TIME) :
    Resets c (threadJoin t timeout) :=
  .bind (.read _) fun _ => .bind lock_resets fun state => .bind (useThread_resets t) fun _ =>
    .bind (.read _) fun _ => .ite (unlock_resets state _) <|
      .bind (.ite (waitQueueBlock_resets hinf) (.pure _)) fun _ =>
        .ite (unlock_resets state _) <| .bind (useThread_resets t) fun _ =>
          .bind (.modify fun _ => ⟨rfl, rfl⟩) fun _ => .bind (.modify fun _ => ⟨rfl, rfl⟩) fun _ =>
            unlock_resets state _

theorem locked_resets {x : Section Kernel α} (hx : Resets c x) : Resets c (locked x) :=
  .bind lock_resets fun state => hx.bind fun a => unlock_resets state a

theorem addCount_resets (s : SemId) (n : Int) : Resets c (addCount s n) :=
  .bind (.modify fun _ => ⟨rfl, rfl⟩) fun _ => .read _

theorem semTimedwait_resets (s : SemId) (hinf : timeout ≠ INFINITE_TIME) :
    Resets c (semTimedwait s timeout) :=
  .bind lock_resets fun state => (addCount_resets s (-1)).bind fun _ =>
    .bind (.ite (waitQueueBlock_resets hinf) (.pure _)) fun _ =>
      .ite ((addCount_resets s 1).bind fun _ => unlock_resets state _) (unlock_resets state _)

theorem mutexAcquire_resets (m : Nat) (hinf : timeout ≠ INFINITE_TIME) :
    Resets c (mutexAcquireTimeout m timeout) :=
  .bind (.read _) fun _ => .bind lock_resets fun state => .bind (.modify fun _ => ⟨rfl, rfl⟩)
    fun _ => .bind (.read _) fun _ => .bind (.ite (waitQueueBlock_resets hinf) (.pure _)) fun _ =>
      .ite (.ite (.bind (.modify fun _ => ⟨rfl, rfl⟩) fun _ => unlock_resets state _)
        (unlock_resets state _))
        (.bind (.modify fun _ => ⟨rfl, rfl⟩) fun _ => unlock_resets state _)

theorem eventWait_resets (e : EventId) (hinf : timeout ≠ INFINITE_TIME) :
    Resets c (eventWaitTimeout e timeout) :=
  .bind lock_resets fun state => .bind (useEvent_resets e) fun _ => .bind (.read _) fun _ =>
    .bind (.ite (.ite (.bind (.modify fun _ => ⟨rfl, rfl⟩) fun _ => .pure _) (.pure _))
      (waitQueueBlock_resets hinf)) fun _ => unlock_resets state _

theorem perform_resets {op : Op} (htimed : op.timed = true) : Resets c (perform op) := by
  cases op with
  | threadJoin t timeout => exact threadJoin_resets t (of_decide_eq_true htimed)
  | waitQueueBlock w timeout =>
    exact locked_resets (waitQueueBlock_resets (of_decide_eq_true htimed))
  | semTimedwait s timeout => exact semTimedwait_resets s (of_decide_eq_true htimed)
  | mutexAcquire m timeout => exact mutexAcquire_resets m (of_decide_eq_true htimed)
  | eventWait e timeout => exact eventWait_resets e (of_decide_eq_true htimed)
  | _ => cases htimed

end Resets

section Runs

variable {ok : Machine → Label → Prop} {m m' : Machine} {op : Op} {lk : Kernel}

theorem Machine.Opens.armed {frames : List Frame} {after : Int → List Frame} (h : m.Opens op lk)
    (hlk : lk.Armed) (hframes : lk.frames m.current = frames) :
    ((perform op).run (lk.begins m.current op)).Wp
      (fun s => Turn m.current op frames s ∧ s.Sound) Kernel.Armed
      (fun b r s => (s.ends m.current op b r (after r)).Armed) true := by
  have hbegun : (lk.begins m.current op).Armed := hlk.begins h.free
  have hturn : Turn m.current op frames (lk.begins m.current op) :=
    ⟨h.current, by simp [Kernel.begins], hframes⟩
  have hwp := (perform_changing m.current op (lk.begins m.current op) h.current).wp_last
    (S := fun s => Turn m.current op frames s ∧ s.Sound) (J := Kernel.Armed)
    (fun s hs => hs.1.current) (fun s s' hs ht hj => hj.changes ht.1.doing hs)
    ⟨hturn, h.begins⟩ hbegun true
  have hlast : ∀ s s₁, Turn m.current op frames s₁ → s₁.Armed →
      Kernel.Changes m.current op s₁ s → s.Armed ∧ s.doing m.current = some op := by
    intro s s₁ ht hj hs
    refine ⟨hj.changes ht.doing hs, ?_⟩
    rw [(Kernel.Changes.steady hs).doing]
    exact ht.doing
  by_cases htimed : op.timed = true
  · have hunset : lk.armed m.current = false :=
      hlk.eq_false fun op hop => by rw [h.free] at hop; cases hop
    have hresets := (perform_resets htimed (lk.begins m.current op) ⟨h.current, hunset⟩).weaken
      fun s (hs : (Turn m.current op frames s ∧ s.Sound) ∧ s.Armed) => hs.1.1.current
    refine ((hwp.and hresets).congr fun s => and_iff_left trivial).mono fun b r s hq => ?_
    obtain ⟨⟨s₁, ⟨ht, -⟩, hj, hs⟩, -, hself⟩ := hq
    exact (hlast s s₁ ht hj hs).1.ends hself
  · refine hwp.mono fun b r s hq => ?_
    obtain ⟨s₁, ⟨ht, -⟩, hj, hs⟩ := hq
    obtain ⟨harmed, hdoing⟩ := hlast s s₁ ht hj hs
    refine harmed.ends (harmed.eq_false fun op' hop' => ?_)
    rw [hdoing, Option.some.injEq] at hop'
    exact hop' ▸ Bool.eq_false_iff.mpr htimed

theorem Machine.Run.armed {objects : Objects} (hrun : Machine.Run ok (.boot objects) m) :
    m.Keeping Kernel.Armed := by
  refine hrun.keeping (Machine.boot_keeping objects fun _ _ _ _ t ht => by cases ht) ?_ ?_
  · intro m label lk _ hm ha
    rcases ha.quiet with hquiet | ⟨e, -, hquiet⟩
    · exact hm.kernel.2.quiet hquiet
    · refine Kernel.Armed.quiet ?_ hquiet
      unfold Kernel.eventUnsignal
      rw [Kernel.useEvent_eq]
      exact hm.kernel.2
  · intro m label lk f stack op next _ hm hg hframes hinstr hbegins
    exact (hm.opens hg hframes hinstr hbegins).armed (hm.kernel.2.quiet hg.quiet) hframes

/-- A thread whose timer is set is in a wait with a timeout, made and alive. -/
theorem Machine.Keeping.armed_waits {t : Tid} (h : m.Keeping Kernel.Armed)
    (ht : m.kernel.armed t = true) : ∃ op, m.kernel.doing t = some op ∧ op.timed = true ∧
      t < m.kernel.nextTid ∧ (m.kernel.threads t).state ≠ .death := by
  obtain ⟨op, hdoing, htimed⟩ := h.kernel.2 t ht
  obtain ⟨hmade, hstate⟩ := h.kernel.1.tracked.alive t op hdoing
  refine ⟨op, hdoing, htimed, hmade, fun hdead => ?_⟩
  have halive := hstate fun r hr => by rw [hr] at htimed; cases htimed
  rw [hdead] at halive
  rcases halive with h | h | h <;> cases h

/-- The thread whose timer calls `wait_queue_timeout_handler`. -/
def Label.expires : Label → Option Tid
  | .expire t => some t
  | _ => none

/-- Whose timer fires waits with a timeout, where it waits. -/
def Machine.Expiring (m : Machine) (label : Label) : Prop :=
  ∀ t ∈ label.expires, ∀ q, t ∈ (m.kernel.wait q).list →
    ∃ op, m.kernel.doing t = some op ∧ op.waitsOn = some q ∧ op.timed = true

theorem Machine.Keeping.expiring {label : Label} (h : m.Keeping Kernel.Armed)
    (hstep : m.step label = some m') : m.Expiring label := by
  intro t ht q hq
  obtain ⟨op', hdoing', hwaits⟩ := h.kernel.1.tracked.queued q t hq
  cases label with
  | expire u =>
    obtain rfl : u = t := Option.some_inj.mp ht
    have harmed : m.kernel.armed u = true := by
      by_contra hunset
      simp only [Machine.step, if_neg hunset] at hstep
      cases hcode : m.code m.current <;> simp [hcode] at hstep
    obtain ⟨op, hdoing, htimed, -⟩ := h.armed_waits harmed
    rw [hdoing, Option.some.injEq] at hdoing'
    exact ⟨op, hdoing, hdoing' ▸ hwaits, htimed⟩
  | _ => cases ht

theorem Machine.Run.expiring {objects : Objects} (hrun : Machine.Run ok (.boot objects) m) :
    Machine.Run (fun m label => ok m label ∧ m.Expiring label) (.boot objects) m := by
  induction hrun with
  | nil => exact .nil _
  | snoc hrun hok hstep ih => exact .snoc ih ⟨hok, hrun.armed.expiring hstep⟩ hstep

end Runs

end UefiLkl.Lk
