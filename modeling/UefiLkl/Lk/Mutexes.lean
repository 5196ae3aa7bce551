import UefiLkl.Lk.Events
import UefiLkl.Lk.Semaphores
set_option autoImplicit false

/-!
A mutex is with one thread at a time: one that owns it, or one that it was handed to.
-/

namespace UefiLkl.Lk
open Coroutine

/-- The threads that have got the token and have not begun to give it back. -/
def Happening.owners (q : Wq) (threads : List Tid) : Happening → List Tid
  | .ret t op _ r => if op.waitsOn = some q ∧ r = NO_ERROR then threads ++ [t] else threads
  | .call t op => if op.up = some q then threads.erase t else threads
  | _ => threads

def Counter.owners (v : Counter) (q : Wq) : List Tid := v.fold (Happening.owners q)

/-- What was got and not given back is with the threads that own it or were handed it. -/
structure Counter.Owned (q : Wq) (v : Counter) : Prop extends v.Even 1 q where
  held : v.gets q = v.gives q + (v.owners q).length + (v.handed q).length

/-- Only an owner gives the token back, and nobody takes it with `sem_trywait`. -/
structure Counter.Trusts (q : Wq) (c : Tid) (op : Op) (v : Counter) : Prop where
  expires : v.Expires op
  owner : op.up = some q → c ∈ v.owners q
  waits : op.tries ≠ some q

section Owned

variable {q : Wq} {v v' : Counter} {c t : Tid} {op : Op} {err : Status} {r : Int} {b : Bool}
  {lk lk' : Kernel} {rest : List Tid}

theorem Happening.owners_of_not_concerns (h : Happening) (hc : ¬ h.concerns q)
    (threads : List Tid) : h.owners q threads = threads := by
  cases h with
  | ret u op b r => exact if_neg fun hw => hc (Op.on_of_waitsOn hw.1 u)
  | call u op => exact if_neg fun hup => hc (Op.on_of_up hup u)
  | _ => rfl

theorem Counter.owners_elsewhere (h : Kernel.Elsewhere q lk lk') :
    (lk'.counter q).owners q = (lk.counter q).owners q :=
  Counter.fold_elsewhere h Happening.owners_of_not_concerns

theorem Counter.Owned.elsewhere (he : Kernel.Elsewhere q lk lk') (h : (lk.counter q).Owned q) :
    (lk'.counter q).Owned q := by
  obtain ⟨hgets, hgives⟩ := Counter.counts_elsewhere he
  refine ⟨h.toEven.elsewhere he, ?_⟩
  rw [hgets, hgives, Counter.owners_elsewhere he, Counter.handed, Counter.woken_elsewhere he]
  exact h.held

theorem Counter.Owned.place (h : v.Owned q) :
    v.balance q + (v.owners q).length + (v.handed q).length = 1 := by
  have haccount := h.account
  have hheld := h.held
  omega

theorem Counter.Owned.enters (h : v.Owned q) (hopens : v.Opens q c) (htrusts : v.Trusts q c op)
    (henters : Counter.Enters q c op v v') : v'.Owned q := by
  refine ⟨h.toEven.enters hopens htrusts.expires henters, ?_⟩
  have hheld := h.held
  simp only [Counter.gets, Counter.gives, Counter.owners, Counter.handed, Counter.woken]
    at hheld ⊢
  cases henters with
  | take timeout hop htokens =>
    have hup := Op.up_of_down hop
    simp [Happening.gets, Happening.gives, Happening.owners, Happening.woken,
      Op.waitsOn_of_down hop, hup]
    omega
  | zero hop =>
    have hup := Op.up_of_down hop
    simpa [Happening.gets, Happening.gives, Happening.owners, Happening.woken, hup, ERR_TIMED_OUT,
      NO_ERROR] using hheld
  | block timeout hop htimeout htokens =>
    have hup := Op.up_of_down hop
    simpa [Happening.gets, Happening.gives, Happening.owners, Happening.woken, hup] using hheld
  | keep hop htokens r =>
    have hmem : c ∈ v.fold (Happening.owners q) := htrusts.owner hop
    have hlen := List.length_pos_of_mem hmem
    simp [Happening.gets, Happening.gives, Happening.owners, Happening.woken,
      Op.waitsOn_of_up hop, htrusts.waits, hop, List.length_erase_of_mem hmem]
    omega
  | hand hop htokens t rest hlist =>
    have hmem : c ∈ v.fold (Happening.owners q) := htrusts.owner hop
    have hlen := List.length_pos_of_mem hmem
    simp [Happening.gets, Happening.gives, Happening.owners, Happening.woken, hop,
      List.length_erase_of_mem hmem]
    omega
  | tryTake hop => exact absurd hop htrusts.waits
  | tryNone hop => exact absurd hop htrusts.waits
  | unblock t err hop ht =>
    subst hop
    obtain ⟨rfl, -⟩ := htrusts.expires t err rfl ht
    simpa [Happening.gets, Happening.gives, Happening.owners, Happening.woken, Op.waitsOn,
      Op.tries, Op.up, ERR_TIMED_OUT, NO_ERROR] using hheld

theorem Counter.Owned.leaves (h : v.Owned q) (hdoing : v.doing c = some op)
    (hleaves : Counter.Leaves q c op v v') : v'.Owned q := by
  refine ⟨h.toEven.leaves hdoing hleaves, ?_⟩
  have hheld := h.held
  simp only [Counter.gets, Counter.gives, Counter.owners, Counter.handed, Counter.woken]
    at hheld ⊢
  cases hleaves with
  | back hop hc =>
    have hwoken : c ∈ v.woken q (v.ret c) := (h.inside c op hdoing hop).resolve_left hc
    by_cases herr : v.ret c = NO_ERROR
    · have hmem : c ∈ v.fold (Happening.woken q NO_ERROR) := by
        rw [herr] at hwoken
        exact hwoken
      have hlen := List.length_pos_of_mem hmem
      simp [Happening.gets, Happening.gives, Happening.owners, Happening.woken, hop, herr,
        List.length_erase_of_mem hmem]
      omega
    · have hnot : c ∉ v.fold (Happening.woken q NO_ERROR) := fun hmem =>
        herr (h.woken _ c hmem).2.1
      simpa [Happening.gets, Happening.gives, Happening.owners, Happening.woken, hop, herr,
        List.erase_of_not_mem hnot] using hheld
  | done hop b r =>
    have htries := Op.tries_of_up hop
    simpa [Happening.gets, Happening.gives, Happening.owners, Happening.woken,
      Op.waitsOn_of_up hop, htries] using hheld

theorem Counter.Owned.start (htokens : v.tokens = 1) (hlist : v.list = []) (hlog : v.log = [])
    (hdoing : ∀ t, v.doing t = none) : v.Owned q := by
  refine ⟨.start (by decide) htokens hlist hlog hdoing, ?_⟩
  simp [Counter.gets, Counter.gives, Counter.owners, Counter.handed, Counter.woken, Counter.count,
    Counter.fold, hlog]

end Owned

def Happening.obtains (q : Wq) : Happening → Option Tid
  | .ret t op atOnce _ => if op.waitsOn = some q ∧ atOnce = false then some t else none
  | _ => none

def Happening.locks (q : Wq) (t : Tid) : Happening → Bool
  | .ret u op _ r => u = t ∧ op.waitsOn = some q ∧ r = NO_ERROR
  | _ => false

def Happening.unlocks (q : Wq) (t : Tid) : Happening → Bool
  | .call u op => u = t ∧ op.up = some q
  | _ => false

def Counter.obtained (v : Counter) (q : Wq) : List Tid := v.pick (Happening.obtains q)

def Counter.locks (v : Counter) (q : Wq) (t : Tid) : Nat := v.count (Happening.locks q t)

def Counter.unlocks (v : Counter) (q : Wq) (t : Tid) : Nat := v.count (Happening.unlocks q t)

/-- Nobody gives up waiting; who came first goes on first; a thread owns the token as often as it
has got it and not given it back, and one that owns it does not wait unless such waits are made. -/
structure Counter.Orderly (nested : Bool) (q : Wq) (v : Counter) : Prop extends v.Owned q where
  fair : v.Fair q
  patient : v.woken q ERR_TIMED_OUT = []
  order : v.came q = v.obtained q ++ v.handed q ++ v.list
  depth : ∀ t, v.locks q t = v.unlocks q t + (v.owners q).count t
  apart : nested = false → ∀ t ∈ v.owners q, t ∉ v.list

/-- The token is given back by an owner, and waited for without a timeout. -/
structure Counter.Behaves (nested : Bool) (q : Wq) (c : Tid) (op : Op) (v : Counter) : Prop where
  owner : op.up = some q → c ∈ v.owners q
  waits : op.tries ≠ some q
  stays : ∀ t err, op = .threadUnblock t err → t ∉ v.list
  apart : nested = false → op.down.isSome → op.waitsOn = some q → c ∉ v.owners q

section Orderly

variable {nested : Bool} {q : Wq} {v v' : Counter} {c t u : Tid} {op : Op} {err : Status} {r : Int}
  {b : Bool} {lk lk' : Kernel} {rest : List Tid}

theorem Happening.concerns_of_obtains (h : Happening) (t : Tid) (ht : h.obtains q = some t) :
    h.concerns q := by
  cases h with
  | ret u op b r =>
    by_cases hw : op.waitsOn = some q ∧ b = false
    · exact Op.on_of_waitsOn hw.1 u
    · simp [Happening.obtains, hw] at ht
  | _ => cases ht

theorem Happening.concerns_of_locks (h : Happening) (hl : h.locks q t = true) : h.concerns q := by
  cases h with
  | ret u op b r => exact Op.on_of_waitsOn (of_decide_eq_true hl).2.1 u
  | _ => cases hl

theorem Happening.concerns_of_unlocks (h : Happening) (hl : h.unlocks q t = true) :
    h.concerns q := by
  cases h with
  | call u op => exact Op.on_of_up (of_decide_eq_true hl).2 u
  | _ => cases hl

theorem Counter.Orderly.elsewhere (he : Kernel.Elsewhere q lk lk')
    (h : (lk.counter q).Orderly nested q) : (lk'.counter q).Orderly nested q := by
  have hlist : (lk'.counter q).list = (lk.counter q).list := congrArg WaitQueue.list he.wait
  refine ⟨h.toOwned.elsewhere he, h.fair.elsewhere he, ?_, ?_, fun t => ?_, ?_⟩
  · rw [Counter.woken_elsewhere he]
    exact h.patient
  · rw [Counter.handed, Counter.woken_elsewhere he, hlist, Counter.came, Counter.obtained,
      Counter.pick_elsewhere he fun h t => h.concerns_of_blocks,
      Counter.pick_elsewhere he Happening.concerns_of_obtains]
    exact h.order
  · rw [Counter.locks, Counter.unlocks, Counter.count_elsewhere he Happening.concerns_of_locks,
      Counter.count_elsewhere he Happening.concerns_of_unlocks, Counter.owners_elsewhere he]
    exact h.depth t
  · rw [Counter.owners_elsewhere he, hlist]
    exact h.apart

theorem Counter.Behaves.trusts (hb : v.Behaves nested q c op) : v.Trusts q c op where
  expires t err hop ht := absurd ht (hb.stays t err hop)
  owner := hb.owner
  waits := hb.waits

theorem Counter.Orderly.toPatient (h : v.Orderly nested q) : v.Patient 1 q :=
  ⟨h.toEven, h.fair, h.patient⟩

theorem Counter.Owned.handed_nil (h : v.Owned q) (hc : c ∈ v.owners q) : v.handed q = [] := by
  have hplace := h.place
  have hnonneg := h.nonneg
  have hlen := List.length_pos_of_mem hc
  exact List.length_eq_zero_iff.mp (by omega)

theorem Counter.Owned.handed_eq (h : v.Owned q) (hc : c ∈ v.handed q) :
    v.handed q = [c] ∧ v.owners q = [] := by
  have hplace := h.place
  have hnonneg := h.nonneg
  have hlen := List.length_pos_of_mem hc
  obtain ⟨u, hu⟩ := List.length_eq_one_iff.mp (show (v.handed q).length = 1 by omega)
  rw [hu, List.mem_singleton] at hc
  rw [hu, hc]
  exact ⟨rfl, List.length_eq_zero_iff.mp (by omega)⟩

theorem Counter.Orderly.depth_enters (h : v.Orderly nested q) (hb : v.Behaves nested q c op)
    (henters : Counter.Enters q c op v v') (t : Tid) :
    v'.locks q t = v'.unlocks q t + (v'.owners q).count t := by
  have hdepth := h.depth t
  simp only [Counter.locks, Counter.unlocks, Counter.owners] at hdepth ⊢
  cases henters with
  | take timeout hop htokens =>
    have hup := Op.up_of_down hop
    by_cases ht : c = t
    · simp [Happening.locks, Happening.unlocks, Happening.owners, Op.waitsOn_of_down hop, hup, ht]
      omega
    · simpa [Happening.locks, Happening.unlocks, Happening.owners, Op.waitsOn_of_down hop, hup,
        ht] using hdepth
  | zero hop =>
    have hup := Op.up_of_down hop
    simpa [Happening.locks, Happening.unlocks, Happening.owners, hup, ERR_TIMED_OUT,
      NO_ERROR] using hdepth
  | block timeout hop htimeout htokens =>
    have hup := Op.up_of_down hop
    simpa [Happening.locks, Happening.unlocks, Happening.owners, hup] using hdepth
  | keep hop htokens r =>
    have hmem : c ∈ v.fold (Happening.owners q) := hb.owner hop
    by_cases ht : c = t
    · subst ht
      have hpos := List.count_pos_iff.mpr hmem
      simp [Happening.locks, Happening.unlocks, Happening.owners, Op.waitsOn_of_up hop, hop]
      omega
    · simpa [Happening.locks, Happening.unlocks, Happening.owners, Op.waitsOn_of_up hop, hop, ht,
        List.count_erase_of_ne (Ne.symm ht)] using hdepth
  | hand hop htokens u rest hlist =>
    have hmem : c ∈ v.fold (Happening.owners q) := hb.owner hop
    by_cases ht : c = t
    · subst ht
      have hpos := List.count_pos_iff.mpr hmem
      simp [Happening.locks, Happening.unlocks, Happening.owners, hop]
      omega
    · simpa [Happening.locks, Happening.unlocks, Happening.owners, hop, ht,
        List.count_erase_of_ne (Ne.symm ht)] using hdepth
  | tryTake hop => exact absurd hop hb.waits
  | tryNone hop => exact absurd hop hb.waits
  | unblock u err hop hu => exact absurd hu (hb.stays u err hop)

theorem Counter.Orderly.enters (h : v.Orderly nested q) (hopens : v.Opens q c)
    (hb : v.Behaves nested q c op) (henters : Counter.Enters q c op v v') :
    v'.Orderly nested q := by
  have hpatient := h.toPatient.enters hopens hb.stays henters
  refine ⟨h.toOwned.enters hopens hb.trusts henters, hpatient.fair, hpatient.patient, ?_,
    h.depth_enters hb henters, fun hnested t ht => ?_⟩
  · have horder := h.order
    simp only [Counter.came, Counter.obtained, Counter.handed, Counter.woken] at horder ⊢
    cases henters with
    | block timeout hop htimeout htokens =>
      simp [Happening.blocks, Happening.obtains, Happening.woken, horder]
    | hand hop htokens u rest hlist =>
      -- the thread that gives the token owned it: it was handed to nobody else
      have hhanded : v.fold (Happening.woken q NO_ERROR) = [] :=
        h.toOwned.handed_nil (hb.owner hop)
      rw [hhanded, hlist] at horder
      simpa [Happening.blocks, Happening.obtains, Happening.woken, hhanded] using horder
    | unblock u err hop hu => exact absurd hu (hb.stays u err hop)
    | _ => simpa [Happening.blocks, Happening.obtains, Happening.woken] using horder
  · have hapart := h.apart hnested
    simp only [Counter.owners] at hapart ht
    cases henters with
    | take timeout hop htokens => simp [h.fair (Counter.balance_pos htokens)]
    | zero hop =>
      have hup := Op.up_of_down hop
      refine hapart t ?_
      simpa [Happening.owners, hup, ERR_TIMED_OUT, NO_ERROR] using ht
    | block timeout hop htimeout htokens =>
      have hup := Op.up_of_down hop
      have hold : t ∈ v.fold (Happening.owners q) := by simpa [Happening.owners, hup] using ht
      have hc : t ≠ c := by
        rintro rfl
        exact hb.apart hnested (by simp [hop]) (Op.waitsOn_of_down hop) hold
      simpa [hc] using hapart t hold
    | keep hop htokens r => simp [h.fair.alone htokens]
    | hand hop htokens u rest hlist =>
      have hold : t ∈ v.fold (Happening.owners q) :=
        List.mem_of_mem_erase (by simpa [Happening.owners, hop] using ht)
      have hnot := hapart t hold
      rw [hlist] at hnot
      exact fun hmem => hnot (List.mem_cons_of_mem u hmem)
    | tryTake hop => exact absurd hop hb.waits
    | tryNone hop => exact absurd hop hb.waits
    | unblock u err hop hu => exact absurd hu (hb.stays u err hop)

/-- A thread that goes on was handed the token, and is the only one. -/
theorem Counter.Orderly.returns (h : v.Orderly nested q) (hdoing : v.doing c = some op)
    (hop : op.waitsOn = some q) (hc : c ∉ v.list) :
    v.ret c = NO_ERROR ∧ v.handed q = [c] ∧ v.owners q = [] := by
  obtain ⟨hret, hhanded⟩ := h.toPatient.returns hdoing hop hc
  exact ⟨hret, h.toOwned.handed_eq hhanded⟩

theorem Counter.Orderly.leaves (h : v.Orderly nested q) (hdoing : v.doing c = some op)
    (hleaves : Counter.Leaves q c op v v') : v'.Orderly nested q := by
  have hpatient := h.toPatient.leaves hdoing hleaves
  have horder := h.order
  refine ⟨h.toOwned.leaves hdoing hleaves, hpatient.fair, hpatient.patient, ?_, fun t => ?_,
    fun hnested t ht => ?_⟩
  · cases hleaves with
    | back hop hc =>
      obtain ⟨-, hhanded, -⟩ := h.returns hdoing hop hc
      rw [hhanded] at horder
      simp only [Counter.handed, Counter.woken] at hhanded
      simp only [Counter.came, Counter.obtained, Counter.handed, Counter.woken] at horder ⊢
      simp [Happening.blocks, Happening.obtains, Happening.woken, hop, hhanded, horder]
    | done hop b r =>
      simp only [Counter.came, Counter.obtained, Counter.handed, Counter.woken] at horder ⊢
      simpa [Happening.blocks, Happening.obtains, Happening.woken, Op.waitsOn_of_up hop] using
        horder
  · have hdepth := h.depth t
    cases hleaves with
    | back hop hc =>
      obtain ⟨hret, -, -⟩ := h.returns hdoing hop hc
      simp only [Counter.locks, Counter.unlocks, Counter.owners] at hdepth ⊢
      by_cases htc : c = t
      · subst htc
        simp [Happening.locks, Happening.unlocks, Happening.owners, hop, hret]
        omega
      · simpa [Happening.locks, Happening.unlocks, Happening.owners, hop, hret, htc] using hdepth
    | done hop b r =>
      simp only [Counter.locks, Counter.unlocks, Counter.owners] at hdepth ⊢
      simpa [Happening.locks, Happening.unlocks, Happening.owners, Op.waitsOn_of_up hop] using
        hdepth
  · cases hleaves with
    | back hop hc =>
      obtain ⟨hret, -, howners⟩ := h.returns hdoing hop hc
      simp only [Counter.owners] at howners ht
      have htc : t = c := by
        simpa [Happening.owners, hop, hret, howners] using ht
      rw [htc]
      exact hc
    | done hop b r =>
      refine h.apart hnested t ?_
      simp only [Counter.owners] at ht ⊢
      simpa [Happening.owners, Op.waitsOn_of_up hop] using ht

theorem Counter.Orderly.start (htokens : v.tokens = 1) (hlist : v.list = []) (hlog : v.log = [])
    (hdoing : ∀ t, v.doing t = none) : v.Orderly nested q := by
  refine ⟨.start htokens hlist hlog hdoing, fun _ => hlist, ?_, ?_, fun t => ?_,
    fun _ t ht => ?_⟩
  · simp [Counter.woken, Counter.fold, hlog]
  · simp [Counter.came, Counter.obtained, Counter.handed, Counter.woken, Counter.pick,
      Counter.fold, hlog, hlist]
  · simp [Counter.locks, Counter.unlocks, Counter.owners, Counter.count, Counter.fold, hlog]
  · simp [Counter.owners, Counter.fold, hlog] at ht

end Orderly

/-- A recursive mutex is one of lk, another is a semaphore with one token. -/
def lockQueue (recursive : Bool) (x : Nat) : Wq := if recursive then .mutex x else .sem (.mutex x)

/-- What `mutex_lock` comes to. -/
def lockOp (recursive : Bool) (x : Nat) : Op :=
  if recursive then .mutexAcquire x INFINITE_TIME else .semWait (.mutex x)

def unlockOp (recursive : Bool) (x : Nat) : Op :=
  if recursive then .mutexRelease x else .semPost (.mutex x) true

/-- The threads whose last `mutex_lock` has returned, and that have not begun `mutex_unlock`
since. -/
def Kernel.owners (q : Wq) (lk : Kernel) : List Tid := lk.log.foldl (Happening.owners q) []

/-- The mutex is used through `mutex_lock` and `mutex_unlock`, which is called by an owner; an
owner does not lock it again unless such calls are nested. -/
def Machine.Locks (nested recursive : Bool) (x : Nat) (m : Machine) (label : Label) : Prop :=
  (∀ op ∈ m.begins label, op.on m.current = some (lockQueue recursive x) →
    op = lockOp recursive x ∧
      (nested = false → m.current ∉ m.kernel.owners (lockQueue recursive x)) ∨
    op = unlockOp recursive x ∧ m.current ∈ m.kernel.owners (lockQueue recursive x)) ∧
  m.Minds (lockQueue recursive x) label

instance (nested recursive : Bool) (x : Nat) (m : Machine) (label : Label) :
    Decidable (m.Locks nested recursive x label) :=
  inferInstanceAs (Decidable (_ ∧ _))

section Host

variable {nested recursive : Bool} {x : Nat} {m m' : Machine} {label : Label} {op : Op}
  {objects : Objects}

theorem lockOp_down : (lockOp recursive x).down = some (lockQueue recursive x, INFINITE_TIME) := by
  cases recursive <;> rfl

theorem unlockOp_up : (unlockOp recursive x).up = some (lockQueue recursive x) := by
  cases recursive <;> rfl

theorem lockQueue_counted : (lockQueue recursive x).counted = true := by
  cases recursive <;> rfl

/-- `mutex_lock` goes on with its operation; that of a mutex that is not recursive is in
`sem_down`. -/
theorem Machine.step_mutexLock {stack : List Frame} (hcode : m.code m.current = .outside)
    (hframes : m.kernel.frames m.current = .mutexLock x :: stack) (hstep : m.step .run = some m') :
    (m.kernel.recursive x = true →
      m'.kernel.frames m.current = .op (lockOp true x) :: stack) ∧
    (m.kernel.recursive x = false → m'.kernel.frames m.current = .semDown (.mutex x) :: stack ∧
      (Frame.semDownWait (.mutex x)).op? = some (lockOp false x)) := by
  simp only [Machine.step, hcode, Machine.exec, hframes, Frame.instr, Option.some.injEq] at hstep
  subst hstep
  refine ⟨fun hrecursive => ?_, fun hrecursive => ⟨?_, rfl⟩⟩ <;>
    simp [Machine.aside, Kernel.setFrames, lockOp, hrecursive]

/-- `mutex_unlock` goes on with the operation. -/
theorem Machine.step_mutexUnlock {stack : List Frame} (hcode : m.code m.current = .outside)
    (hframes : m.kernel.frames m.current = .mutexUnlock x :: stack)
    (hstep : m.step .run = some m') :
    m'.kernel.frames m.current = .op (unlockOp (m.kernel.recursive x) x) :: stack := by
  simp only [Machine.step, hcode, Machine.exec, hframes, Frame.instr, Option.some.injEq] at hstep
  subst hstep
  cases hrecursive : m.kernel.recursive x <;>
    simp [Machine.aside, Kernel.setFrames, unlockOp]

theorem Machine.Locks.counts (h : m.Locks nested recursive x label)
    (hbegins : m.begins label = some op) (hon : op.on m.current = some (lockQueue recursive x)) :
    op.counts = true := by
  rcases h.1 op hbegins hon with ⟨rfl, -⟩ | ⟨rfl, -⟩
  · simp [Op.counts, lockOp_down]
  · simp [Op.counts, unlockOp_up]

theorem Machine.Locks.behaves (h : m.Locks nested recursive x label)
    (hbegins : m.begins label = some op) :
    (m.kernel.counter (lockQueue recursive x)).Behaves nested (lockQueue recursive x) m.current
      op where
  owner hop := by
    rcases h.1 op hbegins (Op.on_of_up hop _) with ⟨rfl, -⟩ | ⟨-, howner⟩
    · exact absurd hop (Op.up_of_down lockOp_down)
    · exact howner
  waits hop := by
    rcases h.1 op hbegins (Op.on_of_tries hop _) with ⟨rfl, -⟩ | ⟨rfl, -⟩
    · exact Op.tries_of_down lockOp_down hop
    · exact Op.tries_of_up unlockOp_up hop
  stays t err hop ht := h.2 op hbegins t (by rw [hop]; rfl) (.inl ht)
  apart hnested hdown hop := by
    rcases h.1 op hbegins (Op.on_of_waitsOn hop _) with ⟨-, hnot⟩ | ⟨rfl, -⟩
    · exact hnot hnested
    · rw [Op.waitsOn_of_up unlockOp_up] at hop
      cases hop

theorem Machine.Run.orderly (hrun : Machine.Run (Machine.Locks nested recursive x) m m')
    (h : m.Keeping fun lk => (lk.counter (lockQueue recursive x)).Orderly nested
      (lockQueue recursive x)) :
    m'.Keeping fun lk => (lk.counter (lockQueue recursive x)).Orderly nested
      (lockQueue recursive x) :=
  hrun.counter lockQueue_counted h (fun _ _ he hj => hj.elsewhere he)
    (fun _ _ _ hok hbegins hon => hok.counts hbegins hon)
    (fun _ _ _ _ hok hbegins hopens hj henters => hj.enters hopens (hok.behaves hbegins) henters)
    fun _ _ _ _ hj hdoing hleaves => hj.leaves hdoing hleaves

theorem Machine.boot_orderly (objects : Objects) (nested recursive : Bool) (x : Nat) :
    (Machine.boot objects).Keeping fun lk => (lk.counter (lockQueue recursive x)).Orderly nested
      (lockQueue recursive x) :=
  Machine.boot_keeping objects fun _ _ _ _ => by
    cases recursive <;> exact .start rfl rfl rfl fun _ => rfl

/-- A thread that was woken is ready, or has just been switched to. -/
theorem Machine.Keeping.woken_ready {J : Kernel → Prop} {q : Wq} {u : Tid} {err : Status}
    (h : m.Keeping J) (hqueued : m.kernel.Queued) (htracked : (m.kernel.counter q).Tracked q)
    (hu : u ∈ (m.kernel.counter q).woken q err) : (m.kernel.threads u).state = .ready ∨
      u = m.current ∧ ∃ k, m.code u = .inside k := by
  have hsound := h.kernel.1
  obtain ⟨hnot, -, op, hdoing, hop, -⟩ := htracked.woken err u hu
  have hdoing' : m.kernel.doing u = some op := hdoing
  have hexit : ∀ r, op ≠ .threadExit r := by
    rintro r rfl
    cases hop
  rcases (hsound.tracked.alive u op hdoing').2 hexit with hready | hrunning | hblocked
  · exact .inl hready
  · refine .inr ⟨?_, ?_⟩
    · exact (Option.some_inj.mp ((hsound.wf.running u (Set.notMem_empty u)).mp hrunning)).symm
    · cases hcode : m.code u with
      | fresh =>
        rw [(h.fresh u hcode).1] at hdoing'
        cases hdoing'
      | outside =>
        rw [h.outside u hcode] at hdoing'
        cases hdoing'
      | inside k => exact ⟨k, rfl⟩
  · -- a thread that is blocked is on the queue of the operation it is in
    obtain ⟨q', hqueue⟩ := hqueued u hblocked
    have hmem := (hsound.wf.blocked q' u).mpr ⟨Set.notMem_empty u, hblocked, hqueue⟩
    obtain ⟨op', hdoing'', hop'⟩ := hsound.tracked.queued q' u hmem
    rw [hdoing'] at hdoing''
    cases hdoing''
    rw [hop] at hop'
    cases hop'
    exact absurd hmem hnot

/-- One thread has the mutex: it owns it or was handed it. Who is blocked is behind another one;
who came to wait first goes on first; a thread owns the mutex as long as it has called
`mutex_unlock` less often than `mutex_lock`; and where nobody has it, it is free. The next
`mutex_lock` returns at once if it is free, and is put behind the others if it is not. -/
structure Machine.Excludes (recursive : Bool) (x : Nat) (m : Machine) : Prop where
  single : (m.kernel.owners (lockQueue recursive x)).length +
    (m.kernel.handed (lockQueue recursive x)).length ≤ 1
  behind : ∀ t, (m.kernel.threads t).state = .blocked →
    (m.kernel.threads t).blockingWaitQueue = some (lockQueue recursive x) →
    ∃ u, u ≠ t ∧ (u ∈ m.kernel.owners (lockQueue recursive x) ∨
      u ∈ m.kernel.handed (lockQueue recursive x) ∧ ((m.kernel.threads u).state = .ready ∨
        u = m.current ∧ ∃ k, m.code u = .inside k))
  order : m.kernel.log.filterMap (Happening.blocks (lockQueue recursive x)) =
    m.kernel.log.filterMap (Happening.obtains (lockQueue recursive x)) ++
      m.kernel.handed (lockQueue recursive x) ++ (m.kernel.wait (lockQueue recursive x)).list
  depth : ∀ t, m.kernel.log.countP (Happening.locks (lockQueue recursive x) t) =
    m.kernel.log.countP (Happening.unlocks (lockQueue recursive x) t) +
      (m.kernel.owners (lockQueue recursive x)).count t
  free : m.kernel.owners (lockQueue recursive x) = [] →
    m.kernel.handed (lockQueue recursive x) = [] →
    m.kernel.tokens (lockQueue recursive x) = 1 ∧ (m.kernel.wait (lockQueue recursive x)).list = []
  next : ∀ label m', m.begins label = some (lockOp recursive x) → m.step label = some m' →
    m.kernel.owners (lockQueue recursive x) = [] ∧ m.kernel.handed (lockQueue recursive x) = [] ∧
      (m.kernel.wait (lockQueue recursive x)).list = [] ∧
      m'.kernel.owners (lockQueue recursive x) = [m.current] ∨
    m'.kernel.owners (lockQueue recursive x) = m.kernel.owners (lockQueue recursive x) ∧
      (m'.kernel.wait (lockQueue recursive x)).list =
        (m.kernel.wait (lockQueue recursive x)).list ++ [m.current]

theorem Counter.Orderly.lock {q : Wq} {v v' : Counter} {c : Tid} {timeout : LkTime}
    (h : v.Orderly nested q) (hop : op.down = some (q, timeout)) (htimeout : timeout ≠ 0)
    (henters : Counter.Enters q c op v v') :
    v.owners q = [] ∧ v.handed q = [] ∧ v.list = [] ∧ v'.owners q = [c] ∨
      v'.owners q = v.owners q ∧ v'.list = v.list ++ [c] := by
  have hup := Op.up_of_down hop
  have htries := Op.tries_of_down hop
  cases henters with
  | take timeout' hop' htokens =>
    have hpos := Counter.balance_pos (q := q) htokens
    have hplace := h.place
    have howners : v.owners q = [] := List.length_eq_zero_iff.mp (by omega)
    refine .inl ⟨howners, List.length_eq_zero_iff.mp (by omega), h.fair hpos, ?_⟩
    simp only [Counter.owners] at howners ⊢
    simp [Happening.owners, hup, Op.waitsOn_of_down hop, howners]
  | zero hop' =>
    rw [hop] at hop'
    cases hop'
    exact absurd rfl htimeout
  | block =>
    refine .inr ⟨?_, rfl⟩
    simp [Counter.owners, Happening.owners, hup]
  | keep hop' => exact absurd hop' hup
  | hand hop' => exact absurd hop' hup
  | tryTake hop' => exact absurd hop' htries
  | tryNone hop' => exact absurd hop' htries
  | unblock t err hop' =>
    subst hop'
    cases hop

theorem Counter.Orderly.behind {q : Wq} {v : Counter} {t : Tid} (h : v.Orderly false q)
    (ht : t ∈ v.list) : ∃ u, u ≠ t ∧ (u ∈ v.owners q ∨ u ∈ v.handed q) := by
  have hplace := h.place
  have hzero := h.fair.balance_eq_zero h.nonneg ht
  by_cases howners : v.owners q = []
  · obtain ⟨u, hu⟩ : ∃ u, u ∈ v.handed q := List.exists_mem_of_ne_nil _ fun hnil => by
      rw [howners, hnil, hzero] at hplace
      simp at hplace
    refine ⟨u, ?_, .inr hu⟩
    rintro rfl
    exact (h.woken NO_ERROR u hu).1 ht
  · obtain ⟨u, hu⟩ := List.exists_mem_of_ne_nil _ howners
    refine ⟨u, ?_, .inl hu⟩
    rintro rfl
    exact h.apart rfl u hu ht

theorem Counter.Orderly.unowned {q : Wq} {v : Counter} (h : v.Orderly nested q)
    (howners : v.owners q = []) (hhanded : v.handed q = []) : v.tokens = 1 ∧ v.list = [] := by
  have hplace := h.place
  rw [howners, hhanded] at hplace
  have hbalance : v.balance q = 1 := by simpa using hplace
  have hlist := h.fair (by omega)
  rw [Counter.balance, hlist, h.patient] at hbalance
  exact ⟨by simpa using hbalance, hlist⟩

/-- Host mutexes of both kinds exclude: in every run in which each thread locks the mutex once
before unlocking it, and only the owner unlocks. -/
theorem mutex_excludes (hrun : Machine.Run (Machine.Locks false (objects.recursive x) x)
    (.boot objects) m) : m.Excludes (objects.recursive x) x := by
  have hkeeping := hrun.orderly (Machine.boot_orderly objects false (objects.recursive x) x)
  obtain ⟨hsound, horderly⟩ := hkeeping.kernel
  refine ⟨?_, fun t hblocked hqueue => ?_, horderly.order, horderly.depth,
    fun howners hhanded => horderly.unowned howners hhanded, fun label m' hbegins hstep => ?_⟩
  · have hplace := horderly.place
    have hnonneg := horderly.nonneg
    have hle : ((m.kernel.counter (lockQueue (objects.recursive x) x)).owners
        (lockQueue (objects.recursive x) x)).length + ((m.kernel.counter
          (lockQueue (objects.recursive x) x)).handed
            (lockQueue (objects.recursive x) x)).length ≤ 1 := by omega
    exact hle
  · have hmem := (hsound.wf.blocked _ t).mpr ⟨Set.notMem_empty t, hblocked, hqueue⟩
    obtain ⟨u, hne, hu⟩ := horderly.behind hmem
    exact ⟨u, hne, hu.imp id fun hhanded =>
      ⟨hhanded, hkeeping.woken_ready hrun.queued.kernel.2 horderly.toTracked hhanded⟩⟩
  · exact horderly.lock lockOp_down (by decide)
      (Machine.step_down hkeeping lockOp_down hbegins hstep)

/-- Thread 1 owns the mutex, of either kind, and thread 2 waits for it. -/
theorem mutex_excludes_waiting :
    (∃ m : Machine, Machine.Run (Machine.Locks false false 0) (.boot .assorted) m ∧
      (m.kernel.wait (lockQueue false 0)).list = [2] ∧
      m.kernel.owners (lockQueue false 0) = [1] ∧ m.Excludes false 0) ∧
    ∃ m : Machine, Machine.Run (Machine.Locks false true 1) (.boot .assorted) m ∧
      (m.kernel.wait (lockQueue true 1)).list = [2] ∧
      m.kernel.owners (lockQueue true 1) = [1] ∧ m.Excludes true 1 := by
  constructor
  · have hresult : ((Machine.boot .assorted).after (Machine.Locks false false 0)
        [.call (.mutexLock 0), .run, .run, .run, .call .lklThreadCreate, .run, .run, .run, .run,
          .call (.mutexLock 0), .run, .run, .run, .call (.op .threadYield), .run, .run, .run]).map
        (fun m => ((m.kernel.wait (lockQueue false 0)).list, m.kernel.owners (lockQueue false 0))) =
        some ([2], [1]) := by decide +kernel
    obtain ⟨m, hm, hresult⟩ := Option.map_eq_some_iff.mp hresult
    obtain ⟨hlist, howners⟩ := Prod.mk.inj hresult
    have hrun : Machine.Run (Machine.Locks false (Objects.assorted.recursive 0) 0)
        (.boot .assorted) m := (Machine.Run.nil _).after hm
    exact ⟨m, hrun, hlist, howners, mutex_excludes hrun⟩
  · have hresult : ((Machine.boot .assorted).after (Machine.Locks false true 1)
        [.call (.mutexLock 1), .run, .run, .call .lklThreadCreate, .run, .run, .run, .run,
          .call (.mutexLock 1), .run, .run]).map
        (fun m => ((m.kernel.wait (lockQueue true 1)).list, m.kernel.owners (lockQueue true 1))) =
        some ([2], [1]) := by decide +kernel
    obtain ⟨m, hm, hresult⟩ := Option.map_eq_some_iff.mp hresult
    obtain ⟨hlist, howners⟩ := Prod.mk.inj hresult
    have hrun : Machine.Run (Machine.Locks false (Objects.assorted.recursive 1) 1)
        (.boot .assorted) m := (Machine.Run.nil _).after hm
    exact ⟨m, hrun, hlist, howners, mutex_excludes hrun⟩

end Host

/-- The thread came to wait while it owned the token. -/
def Counter.Relocked (q : Wq) (t : Tid) (v : Counter) : Prop :=
  ∃ l l', v.log = l ++ .block q t :: l' ∧ t ∈ l.foldl (Happening.owners q) []

/-- Who waits for itself goes on to, and nobody else gets the token. -/
structure Counter.Lost (q : Wq) (v : Counter) : Prop extends v.Orderly true q where
  stuck : ∀ t, v.Relocked q t → v.owners q = [t] ∧ t ∈ v.list

section Again

variable {q : Wq} {v v' : Counter} {c t : Tid} {op : Op} {lk lk' : Kernel}
  {log l : List Happening}

theorem Counter.Relocked.split (h : v'.Relocked q t) (hlog : v'.log = v.log ++ l) :
    v.Relocked q t ∨ ∃ s r, l = s ++ .block q t :: r ∧
      t ∈ (v.log ++ s).foldl (Happening.owners q) [] := by
  obtain ⟨l₁, l₂, hsplit, hmem⟩ := h
  rw [hlog] at hsplit
  rcases List.append_eq_append_iff.mp hsplit with ⟨s, rfl, hl⟩ | ⟨r, hv, hr⟩
  · exact .inr ⟨s, l₂, hl, hmem⟩
  · cases r with
    | nil =>
      rw [List.append_nil] at hv
      exact .inr ⟨[], l₂, hr.symm, by rwa [List.append_nil, hv]⟩
    | cons x r =>
      obtain ⟨rfl, -⟩ := List.cons.inj hr
      exact .inl ⟨l₁, r, hv, hmem⟩

theorem Counter.Relocked.later (h : v.Relocked q t) (hlog : v'.log = v.log ++ l) :
    v'.Relocked q t := by
  obtain ⟨l₁, l₂, hsplit, hmem⟩ := h
  exact ⟨l₁, l₂ ++ l, by rw [hlog, hsplit, List.append_assoc, List.cons_append], hmem⟩

theorem Counter.Relocked.before (h : v'.Relocked q t) (l : List Happening)
    (hlog : v'.log = v.log ++ l) (hl : .block q t ∉ l) : v.Relocked q t := by
  rcases h.split hlog with hold | ⟨s, r, rfl, -⟩
  · exact hold
  · exact absurd (by simp) hl

theorem Counter.Lost.elsewhere (he : Kernel.Elsewhere q lk lk') (h : (lk.counter q).Lost q) :
    (lk'.counter q).Lost q := by
  have hlist : (lk'.counter q).list = (lk.counter q).list := congrArg WaitQueue.list he.wait
  refine ⟨h.toOrderly.elsewhere he, fun t ht => ?_⟩
  obtain ⟨l, hl, hcon⟩ := he.log
  rw [Counter.owners_elsewhere he, hlist]
  exact h.stuck t (ht.before (v := lk.counter q) l hl fun hmem => hcon _ hmem rfl)

/-- A thread that owns the token and waits for it is in the way of all that could help it. -/
theorem Counter.Orderly.stuck_enters (h : v.Orderly true q) (hopens : v.Opens q c)
    (hb : v.Behaves true q c op) (henters : Counter.Enters q c op v v')
    (ht : v.owners q = [t] ∧ t ∈ v.list) : v'.owners q = [t] ∧ t ∈ v'.list := by
  obtain ⟨howners, hmem⟩ := ht
  have hup : op.up ≠ some q := by
    intro hup
    -- the owner is in a wait, and begins nothing
    have hc := hb.owner hup
    rw [howners, List.mem_singleton] at hc
    subst hc
    obtain ⟨op', hdoing, -⟩ := hopens.queued c hmem
    rw [hopens.free] at hdoing
    cases hdoing
  simp only [Counter.owners] at howners ⊢
  cases henters with
  | take timeout hop htokens =>
    rw [h.fair (Counter.balance_pos htokens)] at hmem
    cases hmem
  | zero hop =>
    simpa [Happening.owners, hup, howners, ERR_TIMED_OUT, NO_ERROR] using hmem
  | block timeout hop htimeout htokens =>
    simp [Happening.owners, hup, howners, hmem]
  | keep hop => exact absurd hop hup
  | hand hop => exact absurd hop hup
  | tryTake hop => exact absurd hop hb.waits
  | tryNone hop => exact absurd hop hb.waits
  | unblock u err hop hu => exact absurd hu (hb.stays u err hop)

theorem Counter.Orderly.stuck_leaves (h : v.Orderly true q) (hdoing : v.doing c = some op)
    (hleaves : Counter.Leaves q c op v v') (ht : v.owners q = [t] ∧ t ∈ v.list) :
    v'.owners q = [t] ∧ t ∈ v'.list := by
  obtain ⟨howners, hmem⟩ := ht
  cases hleaves with
  | back hop hc =>
    rw [(h.returns hdoing hop hc).2.2] at howners
    cases howners
  | done hop b r =>
    simp only [Counter.owners] at howners ⊢
    simpa [Happening.owners, Op.waitsOn_of_up hop, howners] using hmem

theorem Counter.Enters.relocked (henters : Counter.Enters q c op v v') (h : v'.Relocked q t) :
    v.Relocked q t ∨ t ∈ v.owners q ∧ t ∈ v'.list ∧ v'.owners q = v.owners q := by
  have hdone : ∀ r k, (((v.begins c op).add k).ends c op true r).log =
      v.log ++ [.call c op, .ret c op true r] := by simp [Counter.ends, Counter.add, Counter.begins]
  cases henters with
  | take | keep | tryTake => exact .inl (h.before _ (hdone _ _) (by simp))
  | zero | tryNone => exact .inl (h.before _ (hdone _ 0) (by simp))
  | hand hop htokens u rest hlist =>
    exact .inl (h.before [.call c op, .wake q u NO_ERROR]
      (by simp [Counter.wake, Counter.add, Counter.begins]) (by simp))
  | unblock u err hop hu =>
    exact .inl (h.before [.call c op, .wake q u err, .ret c op true NO_ERROR]
      (by simp [Counter.ends, Counter.wake, Counter.begins]) (by simp))
  | block timeout hop htimeout htokens =>
    have hup := Op.up_of_down hop
    have hcall : ((v.begins c op).add (-1)).log = v.log ++ [.call c op] := rfl
    rcases h.split (v := (v.begins c op).add (-1)) (l := [.block q c]) rfl with
      hbegun | ⟨s, r, hl, hmem⟩
    · exact .inl (hbegun.before _ hcall (by simp))
    · cases s with
      | nil =>
        obtain ⟨hblock, -⟩ := List.cons.inj hl
        obtain ⟨-, rfl⟩ := Happening.block.inj hblock
        refine .inr ⟨?_, by simp, by simp [Counter.owners, Happening.owners, hup]⟩
        simpa [hcall, Counter.owners, Counter.fold, Happening.owners, hup] using hmem
      | cons x s =>
        obtain ⟨-, hl⟩ := List.cons.inj hl
        cases s <;> cases hl

theorem Counter.Lost.enters (h : v.Lost q) (hopens : v.Opens q c) (hb : v.Behaves true q c op)
    (henters : Counter.Enters q c op v v') : v'.Lost q := by
  refine ⟨h.toOrderly.enters hopens hb henters, fun t ht => ?_⟩
  rcases henters.relocked ht with hold | ⟨howner, hmem, hsame⟩
  · exact h.toOrderly.stuck_enters hopens hb henters (h.stuck t hold)
  · have hplace := h.place
    have hnonneg := h.nonneg
    have hlen := List.length_pos_of_mem howner
    obtain ⟨u, hu⟩ := List.length_eq_one_iff.mp (show (v.owners q).length = 1 by omega)
    rw [hu, List.mem_singleton] at howner
    rw [hsame, hu, howner]
    exact ⟨rfl, howner ▸ hmem⟩

theorem Counter.Lost.leaves (h : v.Lost q) (hdoing : v.doing c = some op)
    (hleaves : Counter.Leaves q c op v v') : v'.Lost q := by
  refine ⟨h.toOrderly.leaves hdoing hleaves, fun t ht => ?_⟩
  refine h.toOrderly.stuck_leaves hdoing hleaves (h.stuck t ?_)
  cases hleaves with
  | back => exact ht.before [.ret c op false (v.ret c)] rfl (by simp)
  | done hop b r => exact ht.before [.ret c op b r] rfl (by simp)

/-- An owner that wants the token again waits for itself. -/
theorem Counter.Owned.again {timeout : LkTime} (h : v.Owned q) (hc : c ∈ v.owners q)
    (hop : op.down = some (q, timeout)) (htimeout : timeout ≠ 0)
    (henters : Counter.Enters q c op v v') : v'.Relocked q c := by
  have hup := Op.up_of_down hop
  have htries := Op.tries_of_down hop
  have hlen := List.length_pos_of_mem hc
  have hplace := h.place
  cases henters with
  | take timeout' _ htokens =>
    have hpos := Counter.balance_pos (q := q) htokens
    omega
  | zero hop' =>
    rw [hop] at hop'
    cases hop'
    exact absurd rfl htimeout
  | block =>
    refine ⟨v.log ++ [.call c op], [], by simp [Counter.block, Counter.add, Counter.begins], ?_⟩
    simpa [Counter.owners, Counter.fold, Happening.owners, hup] using hc
  | keep hop' => exact absurd hop' hup
  | hand hop' => exact absurd hop' hup
  | tryTake hop' => exact absurd hop' htries
  | tryNone hop' => exact absurd hop' htries
  | unblock t err hop' =>
    subst hop'
    cases hop

variable {recursive : Bool} {x : Nat} {m m' m'' : Machine} {label : Label} {objects : Objects}

theorem Machine.Run.lost (hrun : Machine.Run (Machine.Locks true recursive x) (.boot objects) m) :
    m.Keeping fun lk => (lk.counter (lockQueue recursive x)).Lost (lockQueue recursive x) := by
  refine hrun.counter lockQueue_counted (Machine.boot_keeping objects fun _ _ _ _ => ?_)
    (fun _ _ he hj => hj.elsewhere he) (fun _ _ _ hok hbegins hon => hok.counts hbegins hon)
    (fun _ _ _ _ hok hbegins hopens hj henters => hj.enters hopens (hok.behaves hbegins) henters)
    fun _ _ _ _ hj hdoing hleaves => hj.leaves hdoing hleaves
  refine ⟨by cases recursive <;> exact .start rfl rfl rfl fun _ => rfl, fun t ht => ?_⟩
  obtain ⟨l, l', hlog, -⟩ := ht
  exact absurd hlog.symm (by simp [Kernel.counter, Kernel.idleStart, Kernel.start])

theorem Machine.locks_lockOp (hbegins : m.begins label = some (lockOp recursive x)) :
    m.Locks true recursive x label := by
  refine ⟨fun op hop _ => ?_, fun op hop t ht => ?_⟩
  · rw [hbegins] at hop
    cases hop
    exact .inl ⟨rfl, nofun⟩
  · rw [hbegins] at hop
    cases hop
    cases recursive <;> cases ht

/-- A host mutex of either kind is not recursive: a thread that locks it while it owns it waits for
itself, in every state from then on, and nobody else comes to own it. -/
theorem relock_waits_forever
    (hrun : Machine.Run (Machine.Locks true (objects.recursive x) x) (.boot objects) m)
    (hbegins : m.begins label = some (lockOp (objects.recursive x) x))
    (howner : m.current ∈ m.kernel.owners (lockQueue (objects.recursive x) x))
    (hstep : m.step label = some m')
    (hrun' : Machine.Run (Machine.Locks true (objects.recursive x) x) m' m'') :
    m''.kernel.owners (lockQueue (objects.recursive x) x) = [m.current] ∧
    (m''.kernel.threads m.current).state = .blocked ∧
    (m''.kernel.threads m.current).blockingWaitQueue =
      some (lockQueue (objects.recursive x) x) := by
  have hall := hrun.snoc (Machine.locks_lockOp hbegins) hstep
  have hkeeping := hrun.lost
  have hrelocked := hkeeping.kernel.2.toOwned.again howner lockOp_down (by decide)
    (Machine.step_down hkeeping lockOp_down hbegins hstep)
  obtain ⟨l, hl⟩ := hall.log hrun'
  have hlater : (m''.kernel.counter (lockQueue (objects.recursive x) x)).Relocked
      (lockQueue (objects.recursive x) x) m.current := hrelocked.later hl.symm
  obtain ⟨hsound, hlost⟩ := (hall.trans hrun').lost.kernel
  obtain ⟨howners, hmem⟩ := hlost.stuck m.current hlater
  exact ⟨howners, ((hsound.wf.blocked _ _).mp hmem).2⟩

/-- The bootstrap thread locks a recursive mutex twice, and another thread goes on. -/
theorem relock_waits_forever_twice : ∃ m m'' : Machine,
    Machine.Run (Machine.Locks true true 1) (.boot .assorted) m ∧
    m''.current ≠ m.current ∧ m''.kernel.owners (lockQueue true 1) = [m.current] ∧
    (m''.kernel.threads m.current).state = .blocked := by
  have hresult : ((Machine.boot .assorted).after (Machine.Locks true true 1)
      [.call .lklThreadCreate, .run, .run, .run, .run, .call (.op .threadYield), .run, .run,
        .call (.mutexLock 1), .run, .run, .call (.mutexLock 1), .run]).bind (fun m =>
      (m.step .run).bind fun m' => (m'.after (Machine.Locks true true 1) [.run]).map fun m'' =>
        (m.begins .run, m.kernel.owners (lockQueue true 1), m.current, m''.current)) =
      some (some (lockOp true 1), [1], 1, 2) := by decide +kernel
  obtain ⟨m, hm, hresult⟩ := Option.bind_eq_some_iff.mp hresult
  obtain ⟨m', hstep, hresult⟩ := Option.bind_eq_some_iff.mp hresult
  obtain ⟨m'', hm'', hresult⟩ := Option.map_eq_some_iff.mp hresult
  simp only [Prod.mk.injEq] at hresult
  obtain ⟨hbegins, howners, hcurrent, hcurrent'⟩ := hresult
  have hrun : Machine.Run (Machine.Locks true (Objects.assorted.recursive 1) 1)
      (.boot .assorted) m := (Machine.Run.nil _).after hm
  have howner : m.current ∈ m.kernel.owners (lockQueue (Objects.assorted.recursive 1) 1) := by
    rw [hcurrent]
    exact howners ▸ List.mem_singleton_self 1
  obtain ⟨hlast, hblocked, -⟩ := relock_waits_forever hrun hbegins howner hstep
    ((Machine.Run.nil _).after hm'')
  exact ⟨m, m'', hrun, by rw [hcurrent, hcurrent']; decide, hlast, hblocked⟩

end Again

end UefiLkl.Lk
