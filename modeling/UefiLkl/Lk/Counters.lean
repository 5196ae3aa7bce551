import UefiLkl.Lk.Priorities
set_option autoImplicit false

/-!
A mutex counts as a semaphore does: what the operations on both do to the count, to the queue and
to the threads that wait.
-/

namespace UefiLkl.Lk
open Coroutine

/-- The count of a semaphore; that of a mutex goes the other way, and starts from one token. -/
def Kernel.tokens (lk : Kernel) : Wq → Int
  | .sem s => lk.sem s
  | .mutex m => 1 - (lk.mutex m).count
  | _ => 0

/-- The operation takes a token, and waits for one as long as that. -/
def Op.down : Op → Option (Wq × LkTime)
  | .semWait s => some (.sem s, INFINITE_TIME)
  | .semTimedwait s timeout => some (.sem s, timeout)
  | .mutexAcquire m timeout => some (.mutex m, timeout)
  | _ => none

/-- The operation gives a token back. -/
def Op.up : Op → Option Wq
  | .semPost s _ => some (.sem s)
  | .mutexRelease m => some (.mutex m)
  | _ => none

/-- Whether a wait that timed out gives back what it took from the count: `sem_wait` does not
look. -/
def Op.corrects : Op → Bool
  | .semTimedwait _ _ | .mutexAcquire _ _ => true
  | _ => false

def Op.correction (op : Op) (r : Status) : Int := if op.corrects ∧ r = ERR_TIMED_OUT then 1 else 0

/-- The part of a kernel that is about the object of a queue. -/
@[ext] structure Counter where
  tokens : Int
  list : List Tid
  log : List Happening
  doing : Tid → Option Op
  ret : Tid → Status

def Kernel.counter (q : Wq) (lk : Kernel) : Counter where
  tokens := lk.tokens q
  list := (lk.wait q).list
  log := lk.log
  doing := lk.doing
  ret t := (lk.threads t).waitQueueBlockRet

namespace Counter

def begins (v : Counter) (c : Tid) (op : Op) : Counter :=
  { v with log := v.log ++ [.call c op], doing := Function.update v.doing c (some op) }

def ends (v : Counter) (c : Tid) (op : Op) (atOnce : Bool) (r : Int) : Counter :=
  { v with log := v.log ++ [.ret c op atOnce r], doing := Function.update v.doing c none }

def add (v : Counter) (k : Int) : Counter := { v with tokens := v.tokens + k }

def block (v : Counter) (q : Wq) (c : Tid) : Counter :=
  { v with
    list := v.list ++ [c]
    log := v.log ++ [.block q c]
    ret := Function.update v.ret c NO_ERROR }

def wake (v : Counter) (q : Wq) (rest : List Tid) (t : Tid) (err : Status) : Counter :=
  { v with
    list := rest
    log := v.log ++ [.wake q t err]
    ret := Function.update v.ret t err }

end Counter

section Views

variable {q : Wq} {lk lk' : Kernel} {c t : Tid} {op : Op}

theorem Kernel.counter_begins : (lk.begins c op).counter q = (lk.counter q).begins c op := by
  cases q <;> rfl

theorem Kernel.counter_ends {b : Bool} {r : Int} {frames : List Frame} :
    (lk.ends c op b r frames).counter q = (lk.counter q).ends c op b r := by
  cases q <;> rfl

theorem Kernel.counter_unlock {state : Bool} : (lk.unlock state).counter q = lk.counter q := by
  cases q <;> rfl

theorem Kernel.counter_dispatched (h : lk.Dispatched lk') : lk'.counter q = lk.counter q := by
  have hret : ∀ t, (lk'.threads t).waitQueueBlockRet = (lk.threads t).waitQueueBlockRet := by
    intro t
    obtain ⟨state, n, ht⟩ := h.threads t
    rw [ht]
  have htokens : lk'.tokens q = lk.tokens q := by
    rw [h.rest]
    cases q <;> rfl
  refine Counter.ext htokens ?_ ?_ ?_ (funext hret)
  all_goals
    rw [h.rest]
    rfl

theorem Kernel.counter_enqueue : (lk.enqueue q c).counter q = (lk.counter q).block q c := by
  refine Counter.ext ?_ ?_ rfl rfl (funext fun t => ?_)
  · cases q <;> rfl
  · simp [Kernel.counter, Kernel.enqueue, Kernel.note, Kernel.setThread, Kernel.setWait,
      Counter.block]
  · by_cases ht : t = c
    · subst ht
      simp [Kernel.counter, Kernel.enqueue, Kernel.note, Counter.block]
    · simp [Kernel.counter, Kernel.enqueue, Kernel.note, Kernel.setThread, Kernel.setWait,
        Counter.block, ht]

theorem Kernel.counter_dequeue {rest : List Tid} {err : Status} :
    (lk.dequeue q rest t err).counter q = (lk.counter q).wake q rest t err := by
  refine Counter.ext ?_ ?_ rfl rfl (funext fun u => ?_)
  · cases q <;> rfl
  · simp [Kernel.counter, Kernel.dequeue, Kernel.note, Kernel.setThread, Kernel.setWait,
      Counter.wake]
  · by_cases hu : u = t
    · subst hu
      simp [Kernel.counter, Kernel.dequeue, Kernel.note, Counter.wake]
    · simp [Kernel.counter, Kernel.dequeue, Kernel.note, Kernel.setThread, Kernel.setWait,
        Counter.wake, hu]

end Views

def Kernel.setSem (lk : Kernel) (s : SemId) (k : Int) : Kernel :=
  { lk with sem := Function.update lk.sem s k }

@[simp] theorem addCount_run (s : SemId) (k : Int) (lk : Kernel) :
    (addCount s k).run lk = .done (lk.sem s + k) (lk.setSem s (lk.sem s + k)) := by
  simp [addCount, Kernel.setSem]

section Operations

variable {T J : Kernel → Prop} {Q : Bool → Int → Kernel → Prop} {q : Wq} {lk lk' : Kernel} {op : Op}
  {timeout : LkTime}

theorem Kernel.counter_setSem {s : SemId} {k : Int} :
    (lk.setSem s (lk.sem s + k)).counter (.sem s) = (lk.counter (.sem s)).add k := by
  refine Counter.ext ?_ rfl rfl rfl rfl
  simp [Kernel.counter, Kernel.tokens, Kernel.setSem, Counter.add]

theorem Kernel.counter_setMutex {m : Nat} {f : Mutex → Mutex} {k : Int}
    (hf : (f (lk.mutex m)).count = (lk.mutex m).count - k) :
    (lk.setMutex m f).counter (.mutex m) = (lk.counter (.mutex m)).add k := by
  refine Counter.ext ?_ rfl rfl rfl rfl
  simp [Kernel.counter, Kernel.tokens, Kernel.setMutex, Counter.add, hf]
  omega

theorem Counter.add_zero (v : Counter) : v.add 0 = v := by
  refine Counter.ext ?_ rfl rfl rfl rfl
  simp [Counter.add]

theorem Counter.add_add (v : Counter) (k n : Int) : (v.add k).add n = v.add (k + n) := by
  refine Counter.ext ?_ rfl rfl rfl rfl
  simp [Counter.add, Int.add_assoc]

theorem waitQueueBlock_counter {b : Bool} (h : lk.Wf) (hidle : lk.currentThread ≠ idleThread)
    (hq : ∀ u, q ≠ .retcode u) (hzero : timeout = 0 → Q b ERR_TIMED_OUT lk)
    (hblock : timeout ≠ 0 → ∀ lk', lk'.counter q = (lk.counter q).block q lk.currentThread → J lk')
    (hback : timeout ≠ 0 → ∀ lk' lk'', T lk' → J lk' → lk''.counter q = lk'.counter q →
      Q false ((lk'.counter q).ret lk.currentThread) lk'') :
    ((waitQueueBlock q timeout).run lk).Wp T J Q b := by
  by_cases htimeout : timeout = 0
  · unfold waitQueueBlock
    simp only [Section.run_bind, getCurrentThread_run, Susp.done_bind, if_pos htimeout]
    exact hzero htimeout
  · refine waitQueueBlock_wp h hidle (fun u hu => absurd hu (hq u)) htimeout (fun lk' hd => ?_)
      fun lk' lk'' ht hj hd => ?_
    · exact hblock htimeout lk' ((Kernel.counter_dispatched hd).trans Kernel.counter_enqueue)
    · exact hback htimeout lk' lk'' ht hj (Kernel.counter_dispatched hd)

/-- What is to be shown of an operation that takes a token: at once, or after a wait; a wait that
timed out gives back what it took from the count, when its thread runs again. -/
structure Kernel.Downs (lk : Kernel) (op : Op) (q : Wq) (timeout : LkTime) (T J : Kernel → Prop)
    (Q : Bool → Int → Kernel → Prop) : Prop where
  take : 1 ≤ (lk.counter q).tokens → ∀ lk', lk'.counter q = (lk.counter q).add (-1) →
    Q true NO_ERROR lk'
  zero : (lk.counter q).tokens < 1 → timeout = 0 → ∀ lk', lk'.counter q = lk.counter q →
    Q true ERR_TIMED_OUT lk'
  block : (lk.counter q).tokens < 1 → timeout ≠ 0 → ∀ lk',
    lk'.counter q = ((lk.counter q).add (-1)).block q lk.currentThread → J lk'
  back : (lk.counter q).tokens < 1 → timeout ≠ 0 → ∀ lk' lk'', T lk' → J lk' →
    lk''.counter q = (lk'.counter q).add (op.correction ((lk'.counter q).ret lk.currentThread)) →
    Q false ((lk'.counter q).ret lk.currentThread) lk''

theorem semWait_wp {s : SemId} (h : lk.Wf) (hidle : lk.currentThread ≠ idleThread)
    (hdown : lk.Downs (.semWait s) (.sem s) INFINITE_TIME T J Q) :
    ((semWait s).run lk).Wp T J Q true := by
  have hlock : lk.lock.sem s = lk.sem s := rfl
  have hcount : lk.sem s + -1 < 0 ↔ lk.sem s < 1 := by omega
  have hadd : (lk.lock.setSem s (lk.sem s + -1)).counter (.sem s) =
      (lk.counter (.sem s)).add (-1) := Kernel.counter_setSem
  simp only [semWait, Section.run_bind, lockThreads_run, addCount_run, Susp.done_bind,
    Section.run_ite, Susp.wp_bind, unlockThreads_run, Section.run_pure, Susp.wp_done, hlock,
    hcount]
  by_cases hn : lk.sem s < 1
  · rw [if_pos hn]
    have hwf : (lk.lock.setSem s (lk.sem s + -1)).Wf := h
    refine waitQueueBlock_counter hwf hidle (by simp) (fun hz => absurd hz (by decide))
      (fun hne lk' hb => ?_) fun hne lk' lk'' ht hj hb => ?_
    · rw [hadd] at hb
      exact hdown.block hn hne lk' hb
    · refine hdown.back hn hne lk' _ ht hj ?_
      rw [Kernel.counter_unlock, hb]
      exact (Counter.add_zero _).symm
  · rw [if_neg hn]
    refine hdown.take (not_lt.mp hn) _ ?_
    exact Kernel.counter_unlock.trans hadd

theorem semTimedwait_wp {s : SemId} (h : lk.Wf) (hidle : lk.currentThread ≠ idleThread)
    (hdown : lk.Downs (.semTimedwait s timeout) (.sem s) timeout T J Q) :
    ((semTimedwait s timeout).run lk).Wp T J Q true := by
  have hlock : lk.lock.sem s = lk.sem s := rfl
  have hcount : lk.sem s + -1 < 0 ↔ lk.sem s < 1 := by omega
  have hadd : (lk.lock.setSem s (lk.sem s + -1)).counter (.sem s) =
      (lk.counter (.sem s)).add (-1) := Kernel.counter_setSem
  simp only [semTimedwait, Section.run_bind, lockThreads_run, addCount_run, Susp.done_bind,
    Section.run_ite, Susp.wp_bind, unlockThreads_run, Section.run_pure, hlock, hcount]
  by_cases hn : lk.sem s < 1
  · have hend : ∀ (b state : Bool) (r : Int) (lk' : Kernel),
        (∀ lk'' : Kernel, lk''.counter (.sem s) = (lk'.counter (.sem s)).add
          ((Op.semTimedwait s timeout).correction r) → Q b r lk'') →
        Susp.Wp T J Q b (if lk.sem s < 1 ∧ r = ERR_TIMED_OUT then
          .done r ((lk'.setSem s (lk'.sem s + 1)).unlock state) else
            .done r (lk'.unlock state)) := by
      intro b state r lk' hQ
      by_cases hr : r = ERR_TIMED_OUT
      · rw [if_pos ⟨hn, hr⟩]
        refine hQ _ ?_
        rw [Kernel.counter_unlock, Kernel.counter_setSem, Op.correction, if_pos ⟨rfl, hr⟩]
      · rw [if_neg fun h => hr h.2]
        refine hQ _ ?_
        rw [Kernel.counter_unlock, Op.correction, if_neg fun h => hr h.2, Counter.add_zero]
    have hwf : (lk.lock.setSem s (lk.sem s + -1)).Wf := h
    rw [if_pos hn]
    refine waitQueueBlock_counter hwf hidle (by simp)
      (fun hz => hend true _ _ _ fun lk'' he => hdown.zero hn hz lk'' ?_)
      (fun hne lk' hb => hdown.block hn hne lk' ?_)
      fun hne lk' lk'' ht hj hb => hend false _ _ _ fun lk₁ he =>
        hdown.back hn hne lk' lk₁ ht hj ?_
    · rw [he, hadd, Counter.add_add]
      exact Counter.add_zero _
    · rwa [hadd] at hb
    · rw [he, hb]
      rfl
  · rw [if_neg hn]
    simp only [hn, false_and, if_false]
    refine hdown.take (not_lt.mp hn) _ ?_
    exact Kernel.counter_unlock.trans hadd

theorem mutexAcquire_wp {m : Nat} (h : lk.Wf) (hidle : lk.currentThread ≠ idleThread)
    (hdown : lk.Downs (.mutexAcquire m timeout) (.mutex m) timeout T J Q) :
    ((mutexAcquireTimeout m timeout).run lk).Wp T J Q true := by
  have hadd : (lk.lock.setMutex m fun mutex =>
      { mutex with count := mutex.count + 1 }).counter (.mutex m) =
      (lk.counter (.mutex m)).add (-1) := Kernel.counter_setMutex (by simp)
  have hcount : ((lk.lock.setMutex m fun mutex =>
      { mutex with count := mutex.count + 1 }).mutex m).count > 1 ↔
      (lk.counter (.mutex m)).tokens < 1 := by
    simp only [Kernel.setMutex, Function.update_self, Kernel.counter, Kernel.tokens, Kernel.lock]
    omega
  have hend : ∀ (b state : Bool) (r : Int) (lk' : Kernel),
      (∀ lk'' : Kernel, lk''.counter (.mutex m) = (lk'.counter (.mutex m)).add
        ((Op.mutexAcquire m timeout).correction r) → Q b r lk'') →
      Susp.Wp T J Q b (if r < NO_ERROR then if r = ERR_TIMED_OUT then
        .done r ((lk'.setMutex m fun mutex => { mutex with count := mutex.count - 1 }).unlock state)
          else .done r (lk'.unlock state)
        else .done r ((lk'.setMutex m fun mutex =>
          { mutex with holder := some lk.currentThread }).unlock state)) := by
    intro b state r lk' hQ
    by_cases hr : r = ERR_TIMED_OUT
    · rw [if_pos (by rw [hr]; decide), if_pos hr]
      refine hQ _ ?_
      rw [Kernel.counter_unlock, Kernel.counter_setMutex (k := 1) rfl, Op.correction,
        if_pos ⟨rfl, hr⟩]
    · have hzero : (Op.mutexAcquire m timeout).correction r = 0 := if_neg fun h => hr h.2
      rw [if_neg hr]
      split
      · refine hQ _ ?_
        rw [Kernel.counter_unlock, hzero, Counter.add_zero]
      · refine hQ _ ?_
        rw [Kernel.counter_unlock, hzero]
        exact Kernel.counter_setMutex (k := 0) (by simp)
  simp only [mutexAcquireTimeout, Section.run_bind, getCurrentThread_run, lockThreads_run,
    Section.run_modify, Section.run_read, Susp.done_bind, Section.run_ite, Susp.wp_bind,
    unlockThreads_run, Section.run_pure, hcount]
  by_cases hn : (lk.counter (.mutex m)).tokens < 1
  · rw [if_pos hn]
    have hwf : (lk.lock.setMutex m fun mutex => { mutex with count := mutex.count + 1 }).Wf := h
    refine waitQueueBlock_counter hwf hidle (by simp)
      (fun hz => hend true _ _ _ fun lk'' he => hdown.zero hn hz lk'' ?_)
      (fun hne lk' hb => hdown.block hn hne lk' ?_)
      fun hne lk' lk'' ht hj hb => hend false _ _ _ fun lk₁ he =>
        hdown.back hn hne lk' lk₁ ht hj ?_
    · rw [he, hadd, Counter.add_add]
      exact Counter.add_zero _
    · rwa [hadd] at hb
    · rw [he, hb]
      rfl
  · rw [if_neg hn]
    refine hend true _ _ _ fun lk'' he => hdown.take (not_lt.mp hn) lk'' ?_
    rw [he, hadd]
    exact Counter.add_zero _

theorem down_wp (hop : op.down = some (q, timeout)) (h : lk.Wf)
    (hidle : lk.currentThread ≠ idleThread) (hdown : lk.Downs op q timeout T J Q) :
    ((perform op).run lk).Wp T J Q true := by
  cases op with
  | semWait s =>
    cases hop
    exact semWait_wp h hidle hdown
  | semTimedwait s timeout =>
    cases hop
    exact semTimedwait_wp h hidle hdown
  | mutexAcquire m timeout =>
    cases hop
    exact mutexAcquire_wp h hidle hdown
  | _ => cases hop

/-- What is to be shown of an operation that gives a token: it hands it to the first that waits,
if the count says that someone does. -/
structure Kernel.Ups (lk : Kernel) (q : Wq) (T J : Kernel → Prop) (Q : Bool → Int → Kernel → Prop) :
    Prop where
  keep : 0 ≤ (lk.counter q).tokens ∨ (lk.counter q).list = [] → ∀ r lk',
    lk'.counter q = (lk.counter q).add 1 → Q true r lk'
  hand : (lk.counter q).tokens < 0 → ∀ t rest, (lk.counter q).list = t :: rest → ∀ lk',
    lk'.counter q = ((lk.counter q).add 1).wake q rest t NO_ERROR → J lk' ∧ ∀ r, Q true r lk'
  back : ∀ r lk' lk'', T lk' → J lk' → lk''.counter q = lk'.counter q → Q false r lk''

theorem waitQueueWakeOne_counter {b reschedule : Bool} {err : Status} (h : lk.Wf)
    (hnil : (lk.counter q).list = [] → Q b 0 lk)
    (hwake : ∀ t rest, (lk.counter q).list = t :: rest → ∀ lk',
      lk'.counter q = (lk.counter q).wake q rest t err → J lk' ∧ Q b 1 lk')
    (hback : ∀ lk', T lk' → J lk' → Q false 1 lk') :
    ((waitQueueWakeOne q reschedule err).run lk).Wp T J Q b := by
  have hdequeue : ∀ t rest lk', (lk.wait q).list = t :: rest →
      (lk.dequeue q rest t err).Dispatched lk' → J lk' ∧ Q b 1 lk' := fun t rest lk' hlist hd =>
    hwake t rest hlist lk' ((Kernel.counter_dispatched hd).trans Kernel.counter_dequeue)
  exact waitQueueWakeOne_wp h hnil (fun t rest lk' hlist hd => (hdequeue t rest lk' hlist hd).1)
    (fun t rest lk' hlist hd => (hdequeue t rest lk' hlist hd).2) fun _ => hback

theorem semPost_wp {s : SemId} {resched : Bool} (h : lk.Wf) (hup : lk.Ups (.sem s) T J Q) :
    ((semPost s resched).run lk).Wp T J Q true := by
  have hlock : lk.lock.sem s = lk.sem s := rfl
  have hcount : lk.sem s + 1 ≤ 0 ↔ lk.sem s < 0 := by omega
  have hadd : (lk.lock.setSem s (lk.sem s + 1)).counter (.sem s) =
      (lk.counter (.sem s)).add 1 := Kernel.counter_setSem
  simp only [semPost, Section.run_bind, lockThreads_run, addCount_run, Susp.done_bind,
    Section.run_ite, Susp.wp_bind, unlockThreads_run, Section.run_pure, Susp.wp_done, hlock, hcount]
  by_cases hn : lk.sem s < 0
  · have hwf : (lk.lock.setSem s (lk.sem s + 1)).Wf := h
    rw [if_pos hn]
    refine waitQueueWakeOne_counter hwf (fun hnil => ?_) (fun t rest hlist lk' hw => ?_)
      fun lk' ht hj => hup.back _ lk' _ ht hj Kernel.counter_unlock
    · rw [hadd] at hnil
      exact hup.keep (.inr hnil) _ _ (Kernel.counter_unlock.trans hadd)
    · rw [hadd] at hlist hw
      refine ⟨(hup.hand hn t rest hlist lk' hw).1, ?_⟩
      exact (hup.hand hn t rest hlist _ (Kernel.counter_unlock.trans hw)).2 _
  · rw [if_neg hn]
    exact hup.keep (.inl (not_lt.mp hn)) _ _ (Kernel.counter_unlock.trans hadd)

theorem mutexRelease_wp {m : Nat} (h : lk.Wf) (hup : lk.Ups (.mutex m) T J Q) :
    ((mutexRelease m).run lk).Wp T J Q true := by
  have hadd : (lk.lock.setMutex m fun mutex =>
      { mutex with holder := none, count := mutex.count - 1 }).counter (.mutex m) =
      (lk.counter (.mutex m)).add 1 := Kernel.counter_setMutex rfl
  have hcount : ((lk.lock.setMutex m fun mutex =>
      { mutex with holder := none, count := mutex.count - 1 }).mutex m).count ≥ 1 ↔
      (lk.counter (.mutex m)).tokens < 0 := by
    simp only [Kernel.setMutex, Function.update_self, Kernel.counter, Kernel.tokens, Kernel.lock]
    omega
  simp only [mutexRelease, Section.run_bind, lockThreads_run, Section.run_modify,
    Section.run_read, Susp.done_bind, Section.run_ite, unlockThreads_run, Section.run_pure, hcount]
  by_cases hn : (lk.counter (.mutex m)).tokens < 0
  · have hwf : (lk.lock.setMutex m fun mutex =>
        { mutex with holder := none, count := mutex.count - 1 }).Wf := h
    rw [if_pos hn, Susp.wp_bind]
    refine waitQueueWakeOne_counter hwf (fun hnil => ?_) (fun t rest hlist lk' hw => ?_)
      fun lk' ht hj => hup.back _ lk' _ ht hj Kernel.counter_unlock
    · rw [hadd] at hnil
      exact hup.keep (.inr hnil) _ _ (Kernel.counter_unlock.trans hadd)
    · rw [hadd] at hlist hw
      refine ⟨(hup.hand hn t rest hlist lk' hw).1, ?_⟩
      exact (hup.hand hn t rest hlist _ (Kernel.counter_unlock.trans hw)).2 _
  · rw [if_neg hn]
    exact hup.keep (.inl (not_lt.mp hn)) _ _ (Kernel.counter_unlock.trans hadd)

theorem up_wp (hop : op.up = some q) (h : lk.Wf) (hup : lk.Ups q T J Q) :
    ((perform op).run lk).Wp T J Q true := by
  cases op with
  | semPost s resched =>
    cases hop
    exact semPost_wp h hup
  | mutexRelease m =>
    cases hop
    exact mutexRelease_wp h hup
  | _ => cases hop

theorem semTrywait_wp {s : SemId}
    (htake : 1 ≤ (lk.counter (.sem s)).tokens → ∀ lk',
      lk'.counter (.sem s) = (lk.counter (.sem s)).add (-1) → Q true NO_ERROR lk')
    (hnone : (lk.counter (.sem s)).tokens < 1 → ∀ lk',
      lk'.counter (.sem s) = lk.counter (.sem s) → Q true ERR_NOT_READY lk') :
    ((perform (.semTrywait s)).run lk).Wp T J Q true := by
  have hlock : lk.lock.sem s = lk.sem s := rfl
  have hcount : lk.sem s ≤ 0 ↔ lk.sem s < 1 := by omega
  have hadd : (lk.lock.setSem s (lk.sem s + -1)).counter (.sem s) =
      (lk.counter (.sem s)).add (-1) := Kernel.counter_setSem
  simp only [perform, semTrywait, Section.run_bind, lockThreads_run, Section.run_read,
    Susp.done_bind, Section.run_ite, hlock, addCount_run, unlockThreads_run, Section.run_pure,
    hcount]
  by_cases hn : lk.sem s < 1
  · rw [if_pos hn]
    exact hnone hn _ Kernel.counter_unlock
  · rw [if_neg hn]
    exact htake (not_lt.mp hn) _ (Kernel.counter_unlock.trans hadd)

theorem threadUnblock_wp {t : Tid} {err : Status} (hblocked : (lk.threads t).state = .blocked)
    (hqueue : (lk.threads t).blockingWaitQueue = some q)
    (hQ : ∀ lk', lk'.counter q = (lk.counter q).wake q ((lk.counter q).list.erase t) t err →
      Q true NO_ERROR lk') :
    ((perform (.threadUnblock t err)).run lk).Wp T J Q true := by
  obtain ⟨faults, huse⟩ : ∃ faults, lk.lock.useThread t = { lk.lock with faults := faults } :=
    ⟨_, Kernel.useThread_eq _ _⟩
  have hthread : lk.lock.threads t = lk.threads t := rfl
  simp only [perform, locked, threadUnblockFromWaitQueue, Section.run_bind, lockThreads_run,
    Section.run_modify, Section.run_read, Susp.done_bind, Section.run_ite, huse, hthread, hblocked,
    hqueue]
  refine hQ _ ?_
  have hdequeue : (Kernel.dequeue { lk.lock with faults := faults } q ((lk.wait q).list.erase t) t
      err).counter q = (lk.counter q).wake q ((lk.counter q).list.erase t) t err :=
    Kernel.counter_dequeue
  exact Kernel.counter_unlock.trans hdequeue

end Operations

namespace Counter

def count (p : Happening → Bool) (v : Counter) : Nat := v.log.countP p

/-- The threads something happened to, in this order. -/
def pick (f : Happening → Option Tid) (v : Counter) : List Tid := v.log.filterMap f

/-- The threads that what happened has left in a place. -/
def fold (f : List Tid → Happening → List Tid) (v : Counter) : List Tid := v.log.foldl f []

section History

variable {p : Happening → Bool} {f : Happening → Option Tid}
  {g : List Tid → Happening → List Tid} {q : Wq} {v : Counter} {c t : Tid} {op : Op} {b : Bool}
  {r : Int} {k : Int} {rest : List Tid} {err : Status} {lk lk' : Kernel}

@[simp] theorem count_begins : (v.begins c op).count p = v.count p + (p (.call c op)).toNat := by
  cases hp : p (.call c op) <;> simp [count, begins, hp]

@[simp] theorem count_ends : (v.ends c op b r).count p = v.count p + (p (.ret c op b r)).toNat := by
  cases hp : p (.ret c op b r) <;> simp [count, ends, hp]

@[simp] theorem count_add : (v.add k).count p = v.count p := rfl

@[simp] theorem count_block : (v.block q c).count p = v.count p + (p (.block q c)).toNat := by
  cases hp : p (.block q c) <;> simp [count, block, hp]

@[simp] theorem count_wake :
    (v.wake q rest t err).count p = v.count p + (p (.wake q t err)).toNat := by
  cases hp : p (.wake q t err) <;> simp [count, wake, hp]

@[simp] theorem pick_begins : (v.begins c op).pick f = v.pick f ++ (f (.call c op)).toList := by
  cases hf : f (.call c op) <;> simp [pick, begins, hf]

@[simp] theorem pick_ends : (v.ends c op b r).pick f = v.pick f ++ (f (.ret c op b r)).toList := by
  cases hf : f (.ret c op b r) <;> simp [pick, ends, hf]

@[simp] theorem pick_add : (v.add k).pick f = v.pick f := rfl

@[simp] theorem pick_block : (v.block q c).pick f = v.pick f ++ (f (.block q c)).toList := by
  cases hf : f (.block q c) <;> simp [pick, block, hf]

@[simp] theorem pick_wake :
    (v.wake q rest t err).pick f = v.pick f ++ (f (.wake q t err)).toList := by
  cases hf : f (.wake q t err) <;> simp [pick, wake, hf]

@[simp] theorem fold_begins : (v.begins c op).fold g = g (v.fold g) (.call c op) := by
  simp [fold, begins]

@[simp] theorem fold_ends : (v.ends c op b r).fold g = g (v.fold g) (.ret c op b r) := by
  simp [fold, ends]

@[simp] theorem fold_add : (v.add k).fold g = v.fold g := rfl

@[simp] theorem fold_block : (v.block q c).fold g = g (v.fold g) (.block q c) := by
  simp [fold, block]

@[simp] theorem fold_wake : (v.wake q rest t err).fold g = g (v.fold g) (.wake q t err) := by
  simp [fold, wake]

/-! Who is on the queue. -/

@[simp] theorem list_begins : (v.begins c op).list = v.list := rfl

@[simp] theorem list_ends : (v.ends c op b r).list = v.list := rfl

@[simp] theorem list_add : (v.add k).list = v.list := rfl

@[simp] theorem list_block : (v.block q c).list = v.list ++ [c] := rfl

@[simp] theorem list_wake : (v.wake q rest t err).list = rest := rfl

/-! What happens to other objects is not in it. -/

theorem count_elsewhere (he : Kernel.Elsewhere q lk lk') (hp : ∀ h, p h = true → h.concerns q) :
    (lk'.counter q).count p = (lk.counter q).count p := by
  obtain ⟨l, hl, hcon⟩ := he.log
  have hnone : l.countP p = 0 := List.countP_eq_zero.mpr fun x hx hpx => hcon x hx (hp x hpx)
  simp [count, Kernel.counter, hl, List.countP_append, hnone]

theorem pick_elsewhere (he : Kernel.Elsewhere q lk lk')
    (hf : ∀ h t, f h = some t → h.concerns q) :
    (lk'.counter q).pick f = (lk.counter q).pick f := by
  obtain ⟨l, hl, hcon⟩ := he.log
  have hnone : l.filterMap f = [] := List.filterMap_eq_nil_iff.mpr fun x hx =>
    Option.eq_none_iff_forall_ne_some.mpr fun t ht => hcon x hx (hf x t ht)
  simp [pick, Kernel.counter, hl, List.filterMap_append, hnone]

theorem fold_elsewhere (he : Kernel.Elsewhere q lk lk')
    (hg : ∀ h : Happening, ¬ h.concerns q → ∀ threads, g threads h = threads) :
    (lk'.counter q).fold g = (lk.counter q).fold g := by
  obtain ⟨l, hl, hcon⟩ := he.log
  have hfold : ∀ threads, l.foldl g threads = threads := fun threads =>
    (List.foldl_ext _ (fun threads _ => threads) threads fun threads x hx =>
      hg x (hcon x hx) threads).trans (List.foldl_fixed l)
  simp only [fold, Kernel.counter, hl, List.foldl_append, hfold]

end History

end Counter

/-- The threads that were woken with this result, and have not run since. -/
def Happening.woken (q : Wq) (err : Status) (threads : List Tid) : Happening → List Tid
  | .wake q' t err' => if q' = q ∧ err' = err then threads ++ [t] else threads
  | .ret t op atOnce _ => if op.waitsOn = some q ∧ atOnce = false then threads.erase t else threads
  | _ => threads

def Counter.woken (v : Counter) (q : Wq) (err : Status) : List Tid :=
  v.fold (Happening.woken q err)

/-- A thread that is in a wait for the object is on its queue, or was woken. -/
structure Counter.Tracked (q : Wq) (v : Counter) : Prop where
  inside : ∀ t op, v.doing t = some op → op.waitsOn = some q →
    t ∈ v.list ∨ t ∈ v.woken q (v.ret t)
  woken : ∀ err, ∀ t ∈ v.woken q err, t ∉ v.list ∧ v.ret t = err ∧
    ∃ op, v.doing t = some op ∧ op.waitsOn = some q ∧ (err = ERR_TIMED_OUT → op.corrects = true)
  once : ∀ err, (v.woken q err).Nodup

section Tracked

variable {q : Wq} {v : Counter} {c t : Tid} {op : Op} {err : Status} {lk lk' : Kernel}

@[simp] theorem Counter.woken_begins : (v.begins c op).woken q err = v.woken q err :=
  Counter.fold_begins

@[simp] theorem Counter.woken_add (k : Int) : (v.add k).woken q err = v.woken q err := rfl

@[simp] theorem Counter.woken_block : (v.block q c).woken q err = v.woken q err :=
  Counter.fold_block

theorem Counter.woken_wake (rest : List Tid) (err' : Status) :
    (v.wake q rest t err').woken q err =
      if err' = err then v.woken q err ++ [t] else v.woken q err := by
  simp [Counter.woken, Happening.woken]

theorem Counter.woken_ends {b : Bool} {r : Int} : (v.ends c op b r).woken q err =
    if op.waitsOn = some q ∧ b = false then (v.woken q err).erase c else v.woken q err :=
  Counter.fold_ends

theorem Happening.woken_of_not_concerns (h : Happening) (hc : ¬ h.concerns q)
    (threads : List Tid) : h.woken q err threads = threads := by
  cases h with
  | ret u op b r =>
    refine if_neg fun hw => hc ?_
    exact Op.on_of_waitsOn hw.1 u
  | wake q' u err' =>
    refine if_neg fun hw => hc ?_
    simp [Happening.concerns, Happening.queue, hw.1]
  | _ => rfl

theorem Counter.woken_elsewhere (h : Kernel.Elsewhere q lk lk') :
    (lk'.counter q).woken q err = (lk.counter q).woken q err :=
  Counter.fold_elsewhere h Happening.woken_of_not_concerns

theorem Counter.Tracked.elsewhere (he : Kernel.Elsewhere q lk lk')
    (h : (lk.counter q).Tracked q) : (lk'.counter q).Tracked q := by
  have hlist : (lk'.counter q).list = (lk.counter q).list := congrArg WaitQueue.list he.wait
  have hdoing : ∀ t op, op.waitsOn = some q →
      ((lk'.counter q).doing t = some op ↔ (lk.counter q).doing t = some op) :=
    fun t op hop => he.doing t op (Op.on_of_waitsOn hop t)
  have hret : ∀ t op, (lk.counter q).doing t = some op → op.waitsOn = some q →
      (lk'.counter q).ret t = (lk.counter q).ret t := fun t op ht hop =>
    he.ret t op ht (Op.on_of_waitsOn hop t)
  refine ⟨fun t op ht hop => ?_, fun err t ht => ?_, fun err => ?_⟩
  · have ht' := (hdoing t op hop).mp ht
    rw [hlist, Counter.woken_elsewhere he, hret t op ht' hop]
    exact h.inside t op ht' hop
  · rw [Counter.woken_elsewhere he] at ht
    obtain ⟨hnot, herr, op, hop, hq, hcorrects⟩ := h.woken err t ht
    rw [hlist, hret t op hop hq]
    exact ⟨hnot, herr, op, (hdoing t op hq).mpr hop, hq, hcorrects⟩
  · rw [Counter.woken_elsewhere he]
    exact h.once err

theorem Counter.Tracked.begins (h : v.Tracked q) (hdoing : v.doing c = none)
    (hop : op.waitsOn ≠ some q) : (v.begins c op).Tracked q := by
  refine ⟨fun t op' ht hq => ?_, fun err t ht => ?_, fun err => ?_⟩
  · have hc : t ≠ c := by
      rintro rfl
      simp only [Counter.begins, Function.update_self, Option.some.injEq] at ht
      exact hop (ht ▸ hq)
    rw [Counter.woken_begins]
    exact h.inside t op' (by simpa [Counter.begins, hc] using ht) hq
  · rw [Counter.woken_begins] at ht
    obtain ⟨hnot, herr, op', hop', hq, hcorrects⟩ := h.woken err t ht
    have hc : t ≠ c := by
      rintro rfl
      rw [hdoing] at hop'
      cases hop'
    exact ⟨hnot, herr, op', by simpa [Counter.begins, hc] using hop', hq, hcorrects⟩
  · rw [Counter.woken_begins]
    exact h.once err

theorem Counter.Tracked.add (h : v.Tracked q) (k : Int) : (v.add k).Tracked q :=
  ⟨h.inside, h.woken, h.once⟩

theorem Counter.Tracked.ends {b : Bool} {r : Int} (h : v.Tracked q) (hdoing : v.doing c = some op)
    (hop : op.waitsOn ≠ some q) : (v.ends c op b r).Tracked q := by
  have hwoken : ∀ err, (v.ends c op b r).woken q err = v.woken q err := fun err =>
    Counter.woken_ends.trans (if_neg fun hw => hop hw.1)
  refine ⟨fun t op' ht hq => ?_, fun err t ht => ?_, fun err => ?_⟩
  · have hc : t ≠ c := by
      rintro rfl
      simp [Counter.ends] at ht
    rw [hwoken]
    exact h.inside t op' (by simpa [Counter.ends, hc] using ht) hq
  · rw [hwoken] at ht
    obtain ⟨hnot, herr, op', hop', hq, hcorrects⟩ := h.woken err t ht
    have hc : t ≠ c := by
      rintro rfl
      rw [hdoing] at hop'
      cases hop'
      exact hop hq
    exact ⟨hnot, herr, op', by simpa [Counter.ends, hc] using hop', hq, hcorrects⟩
  · rw [hwoken]
    exact h.once err

theorem Counter.Tracked.passes {r : Int} (h : v.Tracked q) (hdoing : v.doing c = none) :
    ((v.begins c op).ends c op true r).Tracked q := by
  have hwoken : ∀ err, ((v.begins c op).ends c op true r).woken q err = v.woken q err := fun err =>
    (Counter.woken_ends.trans (if_neg (by simp))).trans Counter.woken_begins
  have hsame : ((v.begins c op).ends c op true r).doing = v.doing := by
    simp only [Counter.begins, Counter.ends, Function.update_idem]
    rw [← hdoing, Function.update_eq_self]
  refine ⟨fun t op' ht hq => ?_, fun err t ht => ?_, fun err => ?_⟩
  · rw [hsame] at ht
    rw [hwoken]
    exact h.inside t op' ht hq
  · rw [hwoken] at ht
    rw [hsame]
    exact h.woken err t ht
  · rw [hwoken]
    exact h.once err

theorem Counter.Tracked.block (h : v.Tracked q) (hdoing : v.doing c = none) :
    ((v.begins c op).block q c).Tracked q := by
  refine ⟨fun t op' ht hq => ?_, fun err t ht => ?_, fun err => ?_⟩
  · by_cases hc : t = c
    · exact .inl (by simp [Counter.block, hc])
    · have ht' : v.doing t = some op' := by simpa [Counter.block, Counter.begins, hc] using ht
      have hret : ((v.begins c op).block q c).ret t = v.ret t := Function.update_of_ne hc _ _
      rw [hret, Counter.woken_block, Counter.woken_begins]
      exact (h.inside t op' ht' hq).imp (List.mem_append_left _) id
  · rw [Counter.woken_block, Counter.woken_begins] at ht
    obtain ⟨hnot, herr, op', hop', hq, hcorrects⟩ := h.woken err t ht
    have hc : t ≠ c := by
      rintro rfl
      rw [hdoing] at hop'
      cases hop'
    refine ⟨?_, ?_, op', ?_, hq, hcorrects⟩
    · simpa [Counter.block, Counter.begins, hc] using hnot
    · simpa [Counter.block, Counter.begins, hc] using herr
    · simpa [Counter.block, Counter.begins, hc] using hop'
  · rw [Counter.woken_block, Counter.woken_begins]
    exact h.once err

theorem Counter.Tracked.wake (h : v.Tracked q) (ht : t ∈ v.list) (hnodup : v.list.Nodup)
    (hdoing : ∃ op, v.doing t = some op ∧ op.waitsOn = some q ∧
      (err = ERR_TIMED_OUT → op.corrects = true)) :
    (v.wake q (v.list.erase t) t err).Tracked q := by
  have hmem : ∀ u, u ∈ v.list.erase t ↔ u ≠ t ∧ u ∈ v.list := fun u => hnodup.mem_erase_iff
  have hret : ∀ u, u ≠ t → (v.wake q (v.list.erase t) t err).ret u = v.ret u := fun u hu =>
    Function.update_of_ne hu _ _
  have hself : (v.wake q (v.list.erase t) t err).ret t = err := Function.update_self _ _ _
  refine ⟨fun u op hu hq => ?_, fun err' u hu => ?_, fun err' => ?_⟩
  · by_cases hut : u = t
    · subst hut
      rw [hself, Counter.woken_wake, if_pos rfl]
      exact .inr (by simp)
    · rw [hret u hut, Counter.woken_wake]
      refine (h.inside u op hu hq).imp (fun hl => (hmem u).mpr ⟨hut, hl⟩) fun hw => ?_
      split
      · exact List.mem_append_left _ hw
      · exact hw
  · rw [Counter.woken_wake] at hu
    have hcases : u ∈ v.woken q err' ∨ err = err' ∧ u = t := by
      split at hu
      · next heq => exact (List.mem_append.mp hu).imp id fun hl => ⟨heq, List.mem_singleton.mp hl⟩
      · exact .inl hu
    rcases hcases with hu | ⟨rfl, rfl⟩
    · obtain ⟨hnot, herr, op, hop, hq, hcorrects⟩ := h.woken err' u hu
      have hut : u ≠ t := by
        rintro rfl
        exact hnot ht
      exact ⟨fun hl => hnot ((hmem u).mp hl).2, (hret u hut).trans herr, op, hop, hq, hcorrects⟩
    · exact ⟨fun hl => ((hmem u).mp hl).1 rfl, hself, hdoing⟩
  · rw [Counter.woken_wake]
    split
    · refine (h.once err').append (List.nodup_singleton t) ?_
      simp only [List.disjoint_singleton]
      exact fun hw => (h.woken err' t hw).1 ht
    · exact h.once err'

theorem Counter.Tracked.returns {r : Int} (h : v.Tracked q) (hop : op.waitsOn = some q) :
    (v.ends c op false r).Tracked q := by
  have hwoken : ∀ err, (v.ends c op false r).woken q err = (v.woken q err).erase c := fun err =>
    Counter.woken_ends.trans (if_pos ⟨hop, rfl⟩)
  have hmem : ∀ err u, u ∈ (v.woken q err).erase c ↔ u ≠ c ∧ u ∈ v.woken q err := fun err u =>
    (h.once err).mem_erase_iff
  refine ⟨fun t op' ht hq => ?_, fun err t ht => ?_, fun err => ?_⟩
  · have hc : t ≠ c := by
      rintro rfl
      simp [Counter.ends] at ht
    rw [hwoken]
    refine (h.inside t op' (by simpa [Counter.ends, hc] using ht) hq).imp id fun hw => ?_
    exact (hmem _ t).mpr ⟨hc, hw⟩
  · rw [hwoken] at ht
    obtain ⟨hc, hw⟩ := (hmem err t).mp ht
    obtain ⟨hnot, herr, op', hop', hrest⟩ := h.woken err t hw
    exact ⟨hnot, herr, op', by simpa [Counter.ends, hc] using hop', hrest⟩
  · rw [hwoken]
    exact (h.once err).erase c

end Tracked

/-- The operation takes a token if there is one. -/
def Op.tries : Op → Option Wq
  | .semTrywait s => some (.sem s)
  | _ => none

/-- What the operation makes of the object, up to its end or to a switch. -/
inductive Counter.Enters (q : Wq) (c : Tid) (op : Op) (v : Counter) : Counter → Prop where
  | take (timeout : LkTime) (hop : op.down = some (q, timeout)) (htokens : 1 ≤ v.tokens) :
    Enters q c op v (((v.begins c op).add (-1)).ends c op true NO_ERROR)
  | zero (hop : op.down = some (q, 0)) :
    Enters q c op v ((v.begins c op).ends c op true ERR_TIMED_OUT)
  | block (timeout : LkTime) (hop : op.down = some (q, timeout)) (htimeout : timeout ≠ 0)
    (htokens : v.tokens < 1) : Enters q c op v (((v.begins c op).add (-1)).block q c)
  | keep (hop : op.up = some q) (htokens : 0 ≤ v.tokens ∨ v.list = []) (r : Int) :
    Enters q c op v (((v.begins c op).add 1).ends c op true r)
  | hand (hop : op.up = some q) (htokens : v.tokens < 0) (t : Tid) (rest : List Tid)
    (hlist : v.list = t :: rest) : Enters q c op v (((v.begins c op).add 1).wake q rest t NO_ERROR)
  | tryTake (hop : op.tries = some q) (htokens : 1 ≤ v.tokens) :
    Enters q c op v (((v.begins c op).add (-1)).ends c op true NO_ERROR)
  | tryNone (hop : op.tries = some q) :
    Enters q c op v ((v.begins c op).ends c op true ERR_NOT_READY)
  | unblock (t : Tid) (err : Status) (hop : op = .threadUnblock t err) (ht : t ∈ v.list) :
    Enters q c op v (((v.begins c op).wake q (v.list.erase t) t err).ends c op true NO_ERROR)

/-- What it makes of it when its thread goes on. A wait that timed out gives back what it took from
the count. -/
inductive Counter.Leaves (q : Wq) (c : Tid) (op : Op) (v : Counter) : Counter → Prop where
  | back (hop : op.waitsOn = some q) (hc : c ∉ v.list) :
    Leaves q c op v ((v.add (op.correction (v.ret c))).ends c op false (v.ret c))
  | done (hop : op.up = some q) (b : Bool) (r : Int) : Leaves q c op v (v.ends c op b r)

/-- A thread begins an operation; who is on the queue is in a wait for the object. -/
structure Counter.Opens (q : Wq) (c : Tid) (v : Counter) : Prop where
  free : v.doing c = none
  nodup : v.list.Nodup
  queued : ∀ t ∈ v.list, ∃ op, v.doing t = some op ∧ op.waitsOn = some q

section Rule

variable {G : Counter → Prop} {ok : Machine → Label → Prop} {q : Wq} {m m' : Machine}
  {label : Label} {lk : Kernel} {op : Op} {timeout : LkTime} {frames : List Frame}
  {after : Int → List Frame}

theorem Op.waitsOn_of_down (hop : op.down = some (q, timeout)) : op.waitsOn = some q := by
  cases op <;> cases hop <;> rfl

theorem Op.forIdle_of_down (hop : op.down = some (q, timeout)) : op.forIdle = false := by
  cases op <;> cases hop <;> rfl

theorem Op.waitsOn_of_up (hop : op.up = some q) : op.waitsOn = none := by
  cases op <;> cases hop <;> rfl

theorem Op.on_of_up (hop : op.up = some q) (c : Tid) : op.on c = some q := by
  cases op <;> cases hop <;> rfl

theorem Op.on_of_tries (hop : op.tries = some q) (c : Tid) : op.on c = some q := by
  cases op <;> cases hop
  rfl

/-! An operation does one thing with a token. -/

theorem Op.up_of_down (hop : op.down = some (q, timeout)) : op.up ≠ some q := by
  cases op <;> cases hop <;> exact nofun

theorem Op.tries_of_down (hop : op.down = some (q, timeout)) : op.tries ≠ some q := by
  cases op <;> cases hop <;> exact nofun

theorem Op.tries_of_up (hop : op.up = some q) : op.tries ≠ some q := by
  cases op <;> cases hop <;> exact nofun

theorem Op.up_of_tries (hop : op.tries = some q) : op.up ≠ some q := by
  cases op <;> cases hop
  exact nofun

def Wq.counted : Wq → Bool
  | .sem _ | .mutex _ => true
  | _ => false

def Op.counts (op : Op) : Bool := op.down.isSome || op.up.isSome || op.tries.isSome

theorem Op.counts_cases {c : Tid} (hon : op.on c = some q) (hcounts : op.counts = true) :
    (∃ timeout, op.down = some (q, timeout)) ∨ op.up = some q ∨ op.tries = some q := by
  cases op with
  | semWait s | semTimedwait s timeout | mutexAcquire m timeout =>
    cases hon
    exact .inl ⟨_, rfl⟩
  | semPost s resched | mutexRelease m =>
    cases hon
    exact .inr (.inl rfl)
  | semTrywait s =>
    cases hon
    exact .inr (.inr rfl)
  | _ => cases hcounts

theorem Machine.Opens.counter (h : m.Opens op lk) : lk.counter q = m.kernel.counter q := by
  refine Counter.ext ?_ ?_ h.log h.quiet.doing (funext fun t => ?_)
  · cases q <;> simp only [Kernel.counter, Kernel.tokens, h.quiet.sem, h.quiet.mutex]
  · exact congrArg WaitQueue.list (congrFun h.quiet.wait q)
  · obtain ⟨n, hn⟩ := h.quiet.threads t
    simp only [Kernel.counter, hn]

theorem Machine.Opens.counter_opens (h : m.Opens op lk) :
    (lk.counter q).Opens q m.current where
  free := h.free
  nodup := h.sound.wf.waitOnce q
  queued t ht := h.sound.tracked.queued q t ht

theorem Machine.Opens.down (h : m.Opens op lk) (hop : op.down = some (q, timeout))
    (henters : ∀ v, Counter.Enters q m.current op (lk.counter q) v → G v)
    (hleaves : ∀ v v', G v → v.doing m.current = some op → Counter.Leaves q m.current op v v' →
      G v') :
    ((perform op).run (lk.begins m.current op)).Wp
      (fun s => Turn m.current op frames s ∧ s.Sound) (fun lk => G (lk.counter q))
      (fun b r lk' => G ((lk'.ends m.current op b r (after r)).counter q)) true := by
  have hc : (lk.begins m.current op).currentThread = m.current := h.current
  refine down_wp hop h.begins.wf (by rw [hc]; exact h.notIdle (Op.forIdle_of_down hop)) ?_
  constructor
  all_goals simp only [hc, Kernel.counter_begins, Kernel.counter_ends]
  · intro htokens lk' hlk'
    rw [hlk']
    exact henters _ (.take timeout hop htokens)
  · rintro - rfl lk' hlk'
    rw [hlk']
    exact henters _ (.zero hop)
  · intro htokens htimeout lk' hlk'
    rw [hlk']
    exact henters _ (.block timeout hop htimeout htokens)
  · rintro - - lk' lk'' ⟨hturn, hsound⟩ hj hlk''
    rw [hlk'']
    refine hleaves _ _ hj hturn.doing (.back (Op.waitsOn_of_down hop) fun hmem => ?_)
    exact hsound.wf.run_ne_of_blocked hmem hturn.current

theorem Machine.Opens.up (h : m.Opens op lk) (hop : op.up = some q)
    (henters : ∀ v, Counter.Enters q m.current op (lk.counter q) v → G v)
    (hleaves : ∀ v v', G v → v.doing m.current = some op → Counter.Leaves q m.current op v v' →
      G v') :
    ((perform op).run (lk.begins m.current op)).Wp
      (fun s => Turn m.current op frames s ∧ s.Sound) (fun lk => G (lk.counter q))
      (fun b r lk' => G ((lk'.ends m.current op b r (after r)).counter q)) true := by
  refine up_wp hop h.begins.wf ?_
  constructor
  all_goals simp only [Kernel.counter_begins, Kernel.counter_ends]
  · intro (htokens : 0 ≤ (lk.counter q).tokens ∨ (lk.counter q).list = []) r lk' hlk'
    rw [hlk']
    exact henters _ (.keep hop htokens r)
  · intro (htokens : (lk.counter q).tokens < 0) t rest (hlist : (lk.counter q).list = t :: rest)
      lk' hlk'
    rw [hlk']
    have hwake := henters _ (.hand hop htokens t rest hlist)
    refine ⟨hwake, fun r => hleaves _ _ hwake ?_ (.done hop true r)⟩
    simp [Counter.begins, Counter.add, Counter.wake]
  · rintro r lk' lk'' ⟨hturn, -⟩ hj hlk''
    rw [hlk'']
    exact hleaves _ _ hj hturn.doing (.done hop false r)

theorem Machine.Opens.tries (h : m.Opens op lk) (hop : op.tries = some q)
    (henters : ∀ v, Counter.Enters q m.current op (lk.counter q) v → G v) :
    ((perform op).run (lk.begins m.current op)).Wp
      (fun s => Turn m.current op frames s ∧ s.Sound) (fun lk => G (lk.counter q))
      (fun b r lk' => G ((lk'.ends m.current op b r (after r)).counter q)) true := by
  cases op with
  | semTrywait s =>
    cases hop
    refine semTrywait_wp (fun htokens lk' hlk' => ?_) fun _ lk' hlk' => ?_
    · rw [Kernel.counter_begins] at htokens hlk'
      rw [Kernel.counter_ends, hlk']
      exact henters _ (.tryTake rfl htokens)
    · rw [Kernel.counter_begins] at hlk'
      rw [Kernel.counter_ends, hlk']
      exact henters _ (.tryNone rfl)
  | _ => cases hop

theorem Machine.Opens.unblock {t : Tid} {err : Status} (h : m.Opens (.threadUnblock t err) lk)
    (hwaits : lk.Waits q t)
    (henters : ∀ v, Counter.Enters q m.current (.threadUnblock t err) (lk.counter q) v → G v) :
    ((perform (.threadUnblock t err)).run (lk.begins m.current (.threadUnblock t err))).Wp
      (fun s => Turn m.current (.threadUnblock t err) frames s ∧ s.Sound)
      (fun lk => G (lk.counter q))
      (fun b r lk' => G ((lk'.ends m.current (.threadUnblock t err) b r (after r)).counter q))
      true := by
  have hblocked : t ∈ (lk.wait q).list ∧ (lk.threads t).state = .blocked ∧
      (lk.threads t).blockingWaitQueue = some q := by
    rcases hwaits with hmem | hstate
    · exact ⟨hmem, ((h.sound.wf.blocked q t).mp hmem).2⟩
    · exact ⟨(h.sound.wf.blocked q t).mpr ⟨Set.notMem_empty t, hstate⟩, hstate⟩
  obtain ⟨hmem, hstate, hqueue⟩ := hblocked
  refine threadUnblock_wp hstate hqueue fun lk' hlk' => ?_
  rw [Kernel.counter_begins] at hlk'
  rw [Kernel.counter_ends, hlk']
  exact henters _ (.unblock t err rfl hmem)

/-- What holds of an object that counts goes on to hold if taking a token, giving one and leaving
the queue keep it. -/
theorem Machine.Run.counter (hrun : Machine.Run ok m m') (hq : q.counted = true)
    (h : m.Keeping fun lk => G (lk.counter q))
    (hG : ∀ lk lk', Kernel.Elsewhere q lk lk' → G (lk.counter q) → G (lk'.counter q))
    (hcounts : ∀ m label op, ok m label → m.begins label = some op →
      op.on m.current = some q → op.counts = true)
    (henters : ∀ m label op v, ok m label → m.begins label = some op →
      (m.kernel.counter q).Opens q m.current → G (m.kernel.counter q) →
      Counter.Enters q m.current op (m.kernel.counter q) v → G v)
    (hleaves : ∀ c op v v', G v → v.doing c = some op → Counter.Leaves q c op v v' → G v') :
    m'.Keeping fun lk => G (lk.counter q) := by
  refine hrun.queue h (by rintro t rfl; cases hq) hG (by rintro m label e - rfl; cases hq) ?_
  intro m label lk op frames after hok hbegins hon hopens hlk
  have heq := hopens.counter (q := q)
  have henters' : ∀ v, Counter.Enters q m.current op (lk.counter q) v → G v := by
    have hat := hopens.counter_opens (q := q)
    rw [heq] at hat hlk ⊢
    exact fun v hv => henters m label op v hok hbegins hat hlk hv
  rcases hon with hon | ⟨t, err, rfl, hw⟩
  · rcases Op.counts_cases hon (hcounts m label op hok hbegins hon) with ⟨timeout, hop⟩ | hop | hop
    · exact hopens.down hop henters' fun v v' => hleaves _ op v v'
    · exact hopens.up hop henters' fun v v' => hleaves _ op v v'
    · exact hopens.tries hop henters'
  · exact hopens.unblock hw henters'

/-- A wait that is begun takes a token, gives up at once, or puts its thread on the queue. -/
theorem Machine.step_down {J : Kernel → Prop} (h : m.Keeping J)
    (hop : op.down = some (q, timeout)) (hbegins : m.begins label = some op)
    (hstep : m.step label = some m') :
    Counter.Enters q m.current op (m.kernel.counter q) (m'.kernel.counter q) := by
  obtain ⟨lk, f, stack, next, hground, -, hframes, hinstr, rfl⟩ :=
    Machine.step_ground hbegins hstep
  have hopens := h.opens hground hframes hinstr hbegins
  have hwp : ((perform op).run (lk.begins m.current op)).Wp
      (fun s => Turn m.current op [] s ∧ s.Sound)
      (fun s => Counter.Enters q m.current op (lk.counter q) (s.counter q))
      (fun b r s => Counter.Enters q m.current op (lk.counter q)
        ((s.ends m.current op b r (next r ++ stack)).counter q)) true := by
    refine hopens.down hop (fun v hv => hv) fun v v' hv hdoing hleaves => ?_
    cases hleaves with
    | done hop' => exact absurd hop' (Op.up_of_down hop)
    | back hop' hc =>
      cases hv with
      | block => simp [Counter.block] at hc
      | keep hop' => exact absurd hop' (Op.up_of_down hop)
      | hand hop' => exact absurd hop' (Op.up_of_down hop)
      | _ => simp [Counter.ends] at hdoing
  rw [← hopens.counter]
  rcases m.settle_wp m.current op _ hwp with hj | ⟨r, s, hq, heq⟩
  · exact hj
  · rw [heq]
    exact hq

end Rule

end UefiLkl.Lk
