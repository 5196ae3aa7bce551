import UefiLkl.Lk.Expiry
import UefiLkl.Lk.Mutexes
set_option autoImplicit false

/-!
Waits that time out, where something drives the timers: what they take from the count they give
back, but only when their thread runs again.
-/

namespace UefiLkl.Lk
open Coroutine

/-- The object is not destroyed, and a thread is taken out of its queue from outside only by
`wait_queue_timeout_handler`, when the timer that the thread set fires. When a timer does, `fires`
says: `timer_initialize`, `timer_set_oneshot` and `timer_cancel` of this port only assert. -/
def Machine.Times (fires : Machine → Tid → Prop) (q : Wq) (m : Machine) (label : Label) : Prop :=
  (∀ t ∈ label.expires, fires m t) ∧
  ∀ op ∈ m.begins label, (op.on m.current = some q → op.counts = true) ∧
    ∀ t ∈ op.unblocks, m.kernel.Waits q t → label = .expire t

def Machine.anyTime (m : Machine) (t : Tid) : Prop := m.kernel.armed t = true

instance (m : Machine) (t : Tid) : Decidable (m.anyTime t) := inferInstanceAs (Decidable (_ = _))

/-- The threads whose wait timed out, and that have not run since. -/
def Kernel.expired (q : Wq) (lk : Kernel) : List Tid :=
  lk.log.foldl (Happening.woken q ERR_TIMED_OUT) []

/-- Where a thread comes to wait, the token it misses is not one that only those still count for
whose wait has timed out. -/
def Machine.Timely (q : Wq) (m : Machine) (label : Label) : Prop :=
  ∀ op ∈ m.begins label, ∀ d ∈ op.down, d.1 = q → d.2 ≠ 0 → m.kernel.tokens q < 1 →
    m.kernel.tokens q + (m.kernel.wait q).list.length + (m.kernel.expired q).length ≤ 0

instance (fires : Machine → Tid → Prop) [∀ m t, Decidable (fires m t)] (q : Wq) (m : Machine)
    (label : Label) : Decidable (m.Times fires q label) :=
  inferInstanceAs (Decidable ((∀ t ∈ label.expires, fires m t) ∧ ∀ op ∈ m.begins label, _ ∧ _))

instance (q : Wq) (m : Machine) (label : Label) : Decidable (m.Timely q label) :=
  inferInstanceAs (Decidable (∀ op ∈ m.begins label, ∀ d ∈ op.down, _))

section Times

variable {n : Int} {q : Wq} {m m' : Machine} {label : Label} {op : Op} {objects : Objects}
  {s x : Nat} {ok : Machine → Label → Prop} {fires : Machine → Tid → Prop}

theorem Op.corrects_of_timed (hq : q.counted = true) (hop : op.waitsOn = some q)
    (htimed : op.timed = true) : op.corrects = true := by
  cases op with
  | semTimedwait | mutexAcquire => rfl
  | semWait => cases htimed
  | threadJoin | waitQueueBlock | eventWait =>
    cases hop
    cases hq
  | _ => cases hop

theorem Machine.begins_expire {t u : Tid} {err : Status}
    (h : m.begins (.expire t) = some (.threadUnblock u err)) : err = ERR_TIMED_OUT := by
  unfold Machine.begins at h
  split at h
  · cases h
    rfl
  · cases h

theorem Machine.Times.expires (h : m.Times fires q label) (hexpiring : m.Expiring label)
    (hq : q.counted = true) (hbegins : m.begins label = some op) :
    (m.kernel.counter q).Expires op := by
  rintro t err rfl ht
  obtain rfl := (h.2 _ hbegins).2 t rfl (.inl ht)
  obtain ⟨op', hop', hwaits, htimed⟩ := hexpiring t rfl q ht
  exact ⟨Machine.begins_expire hbegins, op', hop', Op.corrects_of_timed hq hwaits htimed⟩

theorem Machine.Timely.timely (h : m.Timely q label) (hbegins : m.begins label = some op) :
    (m.kernel.counter q).Timely q op := fun timeout hop htimeout htokens =>
  h op hbegins (q, timeout) hop rfl htimeout htokens

theorem Machine.Run.even (hrun : Machine.Run ok m m') (hq : q.counted = true)
    (hok : ∀ m label, ok m label → m.Times fires q label ∧ m.Expiring label)
    (h : m.Keeping fun lk => (lk.counter q).Even n q) :
    m'.Keeping fun lk => (lk.counter q).Even n q :=
  hrun.counter hq h (fun _ _ he hj => hj.elsewhere he)
    (fun m label op hm hbegins hon => ((hok m label hm).1.2 op hbegins).1 hon)
    (fun m label _ _ hm hbegins hopens hj henters =>
      hj.enters hopens ((hok m label hm).1.expires (hok m label hm).2 hq hbegins) henters)
    fun _ _ _ _ hj hdoing hleaves => hj.leaves hdoing hleaves

/-- Nobody waits for nothing, where all come to wait in time. -/
theorem Machine.Run.fair (hrun : Machine.Run ok m m') (hq : q.counted = true)
    (hok : ∀ m label, ok m label → m.Times fires q label ∧ m.Timely q label ∧ m.Expiring label)
    (h : m.Keeping fun lk => (lk.counter q).Even n q ∧ (lk.counter q).Fair q) :
    m'.Keeping fun lk => (lk.counter q).Even n q ∧ (lk.counter q).Fair q := by
  refine hrun.counter (G := fun v => v.Even n q ∧ v.Fair q) hq h
    (fun _ _ he hj => ⟨hj.1.elsewhere he, hj.2.elsewhere he⟩)
    (fun m label op hm hbegins hon => ((hok m label hm).1.2 op hbegins).1 hon)
    (fun m label op v hm hbegins hopens hj henters => ?_)
    fun _ _ _ _ hj hdoing hleaves =>
      ⟨hj.1.leaves hdoing hleaves, hj.2.leaves hj.1.toTracked hdoing hleaves⟩
  obtain ⟨htimes, htimely, hexpiring⟩ := hok m label hm
  have hexpires := htimes.expires hexpiring hq hbegins
  exact ⟨hj.1.enters hopens hexpires henters,
    hj.2.enters hexpires (htimely.timely hbegins) henters⟩

theorem Machine.boot_even (objects : Objects) (s : Nat) :
    (Machine.boot objects).Keeping fun lk =>
      (lk.counter (.sem (.host s))).Even (objects.sem s) (.sem (.host s)) ∧
        (lk.counter (.sem (.host s))).Fair (.sem (.host s)) :=
  Machine.boot_keeping objects fun _ _ _ _ =>
    ⟨.start (Int.natCast_nonneg _) rfl rfl rfl fun _ => rfl, fun _ => rfl⟩

/-- Whenever the timers fire, the tokens of a semaphore and those that were posted are those that
were got, and what the count says when the threads that wait, and those whose wait has timed out,
are added: so a wait that timed out leaves nothing when its thread has run. If every wait begins in
time, somebody waits only where the count says so. -/
theorem timed_waits_accounted :
    (∀ m, Machine.Run (Machine.Times fires (.sem (.host s))) (.boot objects) m →
      m.kernel.sem (.host s) + (m.kernel.wait (.sem (.host s))).list.length +
          (m.kernel.expired (.sem (.host s))).length +
          m.kernel.log.countP (Happening.gets (.sem (.host s))) =
        objects.sem s + m.kernel.log.countP (Happening.gives (.sem (.host s)))) ∧
    ∀ m, Machine.Run (fun m label => m.Times fires (.sem (.host s)) label ∧
        m.Timely (.sem (.host s)) label) (.boot objects) m →
      ∀ t, (m.kernel.threads t).state = .blocked →
        (m.kernel.threads t).blockingWaitQueue = some (.sem (.host s)) →
        m.kernel.sem (.host s) = -((m.kernel.wait (.sem (.host s))).list.length : Int) -
          (m.kernel.expired (.sem (.host s))).length := by
  refine ⟨fun m hrun => ?_, fun m hrun t hblocked hqueue => ?_⟩
  · have hkeeping := hrun.expiring.even rfl (fun _ _ hok => hok)
      (Machine.boot_keeping objects fun _ _ _ _ =>
        .start (Int.natCast_nonneg (objects.sem s)) rfl rfl rfl fun _ => rfl)
    exact hkeeping.kernel.2.account
  · have hkeeping := hrun.expiring.fair rfl (fun _ _ hok => ⟨hok.1.1, hok.1.2, hok.2⟩)
      (Machine.boot_even objects s)
    obtain ⟨hsound, heven, hfair⟩ := hkeeping.kernel
    have hmem := (hsound.wf.blocked _ t).mpr ⟨Set.notMem_empty t, hblocked, hqueue⟩
    have hbalance : m.kernel.sem (.host s) + (m.kernel.wait (.sem (.host s))).list.length +
        (m.kernel.expired (.sem (.host s))).length = 0 :=
      hfair.balance_eq_zero heven.nonneg hmem
    omega

/-- A thread waits for a token with a timeout, and its time is over before it runs again. -/
theorem timed_waits_accounted_expired : ∃ m : Machine,
    Machine.Run (fun m label => m.Times Machine.anyTime (.sem (.host 0)) label ∧
      m.Timely (.sem (.host 0)) label) (.boot .assorted) m ∧
    m.kernel.expired (.sem (.host 0)) = [2] ∧ m.kernel.sem (.host 0) = -2 ∧
    (m.kernel.wait (.sem (.host 0))).list = [1] ∧
    m.kernel.sem (.host 0) = -((m.kernel.wait (.sem (.host 0))).list.length : Int) -
      (m.kernel.expired (.sem (.host 0))).length := by
  have hresult : ((Machine.boot .assorted).after
      (fun m label => m.Times Machine.anyTime (.sem (.host 0)) label ∧
        m.Timely (.sem (.host 0)) label)
      [.call .lklThreadCreate, .run, .run, .run, .run,
        .call (.op (.semTimedwait (.host 0) 5)), .run, .run, .expire 2,
        .call (.op (.semWait (.host 0))), .run]).map (fun m =>
      (m.kernel.expired (.sem (.host 0)), m.kernel.sem (.host 0),
        (m.kernel.wait (.sem (.host 0))).list, (m.kernel.threads 1).state,
        (m.kernel.threads 1).blockingWaitQueue)) =
      some ([2], -2, [1], .blocked, some (.sem (.host 0))) := by decide +kernel
  obtain ⟨m, hm, hresult⟩ := Option.map_eq_some_iff.mp hresult
  simp only [Prod.mk.injEq] at hresult
  obtain ⟨hexpired, hsem, hlist, hblocked, hqueue⟩ := hresult
  have hrun : Machine.Run (fun m label => m.Times Machine.anyTime (.sem (.host 0)) label ∧
      m.Timely (.sem (.host 0)) label) (.boot .assorted) m := (Machine.Run.nil _).after hm
  exact ⟨m, hrun, hexpired, hsem, hlist, timed_waits_accounted.2 m hrun 1 hblocked hqueue⟩

/-- A wait that begins too late goes on while there is a token: thread 1 waits for the one it posted
itself before the thread whose wait timed out had run, and for the next one as well. -/
theorem late_wait_stranded : ∃ m : Machine,
    Machine.Run (Machine.Times Machine.anyTime (.sem (.host 0))) (.boot .assorted) m ∧
    m.kernel.sem (.host 0) = 1 ∧ m.kernel.expired (.sem (.host 0)) = [] ∧
    (m.kernel.threads 1).state = .blocked ∧
    (m.kernel.threads 1).blockingWaitQueue = some (.sem (.host 0)) := by
  have hresult : ((Machine.boot .assorted).after (Machine.Times Machine.anyTime (.sem (.host 0)))
      [.call .lklThreadCreate, .run, .run, .run, .run,
        .call (.op (.semTimedwait (.host 0) 5)), .run, .run, .expire 2,
        .call (.op (.semPost (.host 0) false)), .run, .call (.op (.semWait (.host 0))), .run, .run,
        .call (.op (.semPost (.host 0) false)), .run]).map (fun m =>
      (m.kernel.sem (.host 0), m.kernel.expired (.sem (.host 0)), (m.kernel.threads 1).state,
        (m.kernel.threads 1).blockingWaitQueue)) =
      some (1, [], .blocked, some (.sem (.host 0))) := by decide +kernel
  obtain ⟨m, hm, hresult⟩ := Option.map_eq_some_iff.mp hresult
  simp only [Prod.mk.injEq] at hresult
  exact ⟨m, (Machine.Run.nil _).after hm, hresult⟩

def Machine.Released (fires : Machine → Tid → Prop) (x : Nat) (m : Machine) (label : Label) :
    Prop :=
  m.Times fires (.mutex x) label ∧
    ∀ op ∈ m.begins label, op = .mutexRelease x → m.current ∈ m.kernel.owners (.mutex x)

instance [∀ m t, Decidable (fires m t)] (x : Nat) (m : Machine) (label : Label) :
    Decidable (m.Released fires x label) :=
  inferInstanceAs (Decidable (_ ∧ _))

theorem Machine.Released.trusts (h : m.Released fires x label) (hexpiring : m.Expiring label)
    (hbegins : m.begins label = some op) :
    (m.kernel.counter (.mutex x)).Trusts (.mutex x) m.current op where
  expires := h.1.expires hexpiring rfl hbegins
  owner hop := by
    refine h.2 op hbegins ?_
    cases op <;> cases hop
    rfl
  waits hop := by
    cases op <;> cases hop

theorem Machine.Run.owned (hrun : Machine.Run ok (.boot objects) m)
    (hok : ∀ m label, ok m label → m.Released fires x label) :
    m.Keeping fun lk => (lk.counter (.mutex x)).Owned (.mutex x) :=
  hrun.expiring.counter rfl
    (Machine.boot_keeping objects fun _ _ _ _ => .start rfl rfl rfl fun _ => rfl)
    (fun _ _ he hj => hj.elsewhere he)
    (fun m label op hm hbegins hon => ((hok m label hm.1).1.2 op hbegins).1 hon)
    (fun m label _ _ hm hbegins hopens hj henters =>
      hj.enters hopens ((hok m label hm.1).trusts hm.2 hbegins) henters)
    fun _ _ _ _ hj hdoing hleaves => hj.leaves hdoing hleaves

/-- Whenever the timers fire, the count of a mutex is the number of the threads that own it or were
handed it, which is at most one, of those that wait for it, and of those whose wait has timed out
and that have not run since. If every wait begins in time, somebody waits only while one owns it or
was handed it. -/
theorem timed_mutex_accounted :
    (∀ m, Machine.Run (Machine.Released fires x) (.boot objects) m →
      (m.kernel.mutex x).count = (m.kernel.owners (.mutex x)).length +
        (m.kernel.handed (.mutex x)).length + (m.kernel.wait (.mutex x)).list.length +
        (m.kernel.expired (.mutex x)).length ∧
      (m.kernel.owners (.mutex x)).length + (m.kernel.handed (.mutex x)).length ≤ 1) ∧
    ∀ m, Machine.Run (fun m label => m.Released fires x label ∧ m.Timely (.mutex x) label)
        (.boot objects) m →
      ∀ t, (m.kernel.threads t).state = .blocked →
        (m.kernel.threads t).blockingWaitQueue = some (.mutex x) →
        ∃ u, u ∈ m.kernel.owners (.mutex x) ∨ u ∈ m.kernel.handed (.mutex x) := by
  refine ⟨fun m hrun => ?_, fun m hrun t hblocked hqueue => ?_⟩
  · have howned := (hrun.owned fun _ _ hok => hok).kernel.2
    have hplace : 1 - (m.kernel.mutex x).count + (m.kernel.wait (.mutex x)).list.length +
        (m.kernel.expired (.mutex x)).length + (m.kernel.owners (.mutex x)).length +
        (m.kernel.handed (.mutex x)).length = 1 := howned.place
    have hnonneg : 0 ≤ 1 - (m.kernel.mutex x).count + (m.kernel.wait (.mutex x)).list.length +
        (m.kernel.expired (.mutex x)).length := howned.nonneg
    constructor <;> omega
  · have howned := (hrun.owned fun _ _ hok => hok.1).kernel.2
    have hkeeping := hrun.expiring.fair rfl (fun _ _ hok => ⟨hok.1.1.1, hok.1.2, hok.2⟩)
      (Machine.boot_keeping objects fun _ _ _ _ =>
        ⟨.start (by decide : (0 : Int) ≤ 1) rfl rfl rfl fun _ => rfl, fun _ => rfl⟩)
    obtain ⟨hsound, -, hfair⟩ := hkeeping.kernel
    have hmem := (hsound.wf.blocked _ t).mpr ⟨Set.notMem_empty t, hblocked, hqueue⟩
    have hzero := hfair.balance_eq_zero howned.nonneg hmem
    have hplace := howned.place
    by_contra hnone
    have howners : (m.kernel.counter (.mutex x)).owners (.mutex x) = [] :=
      List.eq_nil_iff_forall_not_mem.mpr fun u hu => hnone ⟨u, .inl hu⟩
    have hhanded : (m.kernel.counter (.mutex x)).handed (.mutex x) = [] :=
      List.eq_nil_iff_forall_not_mem.mpr fun u hu => hnone ⟨u, .inr hu⟩
    rw [hzero, howners, hhanded] at hplace
    simp at hplace

/-- Thread 1 owns the mutex, the wait of thread 2 has timed out, and thread 3 waits. -/
theorem timed_mutex_accounted_waiting : ∃ m : Machine,
    Machine.Run (fun m label => m.Released Machine.anyTime 1 label ∧ m.Timely (.mutex 1) label)
      (.boot .assorted) m ∧
    m.kernel.expired (.mutex 1) = [2] ∧ (m.kernel.wait (.mutex 1)).list = [3] ∧
    (m.kernel.mutex 1).count = 3 ∧
    ∃ u, u ∈ m.kernel.owners (.mutex 1) ∨ u ∈ m.kernel.handed (.mutex 1) := by
  have hresult : ((Machine.boot .assorted).after
      (fun m label => m.Released Machine.anyTime 1 label ∧ m.Timely (.mutex 1) label)
      [.call (.op (.mutexAcquire 1 INFINITE_TIME)), .run,
        .call .lklThreadCreate, .run, .run, .run, .run,
        .call (.op (.mutexAcquire 1 5)), .run, .run,
        .call .lklThreadCreate, .run, .run, .run, .run,
        .call (.op (.mutexAcquire 1 5)), .run, .run, .expire 2]).map (fun m =>
      (m.kernel.expired (.mutex 1), (m.kernel.wait (.mutex 1)).list, (m.kernel.mutex 1).count,
        (m.kernel.threads 3).state, (m.kernel.threads 3).blockingWaitQueue)) =
      some ([2], [3], 3, .blocked, some (.mutex 1)) := by decide +kernel
  obtain ⟨m, hm, hresult⟩ := Option.map_eq_some_iff.mp hresult
  simp only [Prod.mk.injEq] at hresult
  obtain ⟨hexpired, hlist, hcount, hblocked, hqueue⟩ := hresult
  have hrun : Machine.Run (fun m label => m.Released Machine.anyTime 1 label ∧
      m.Timely (.mutex 1) label) (.boot .assorted) m := (Machine.Run.nil _).after hm
  exact ⟨m, hrun, hexpired, hlist, hcount, timed_mutex_accounted.2 m hrun 3 hblocked hqueue⟩

end Times

end UefiLkl.Lk
