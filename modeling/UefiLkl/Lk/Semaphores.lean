import UefiLkl.Lk.Balance
set_option autoImplicit false

/-!
The tokens of a semaphore: none is lost, and none is handed out twice.
-/

namespace UefiLkl.Lk
open Coroutine

def Happening.granted (q : Wq) : Happening → Bool
  | .ret _ op _ r => (op.waitsOn = some q ∨ op.tries = some q) ∧ r = NO_ERROR
  | _ => false

def Happening.failed (q : Wq) : Happening → Bool
  | .ret _ op _ r => op.waitsOn = some q ∧ r ≠ NO_ERROR
  | _ => false

def Counter.granted (v : Counter) (q : Wq) : Nat := v.count (Happening.granted q)

def Counter.failed (v : Counter) (q : Wq) : Nat := v.count (Happening.failed q)

/-- Every token that was got is with a wait that returned or is to return, no wait fails, and who
came first is handed one first. -/
structure Counter.Conserved (n : Int) (q : Wq) (v : Counter) : Prop extends v.Patient n q where
  returned : v.gets q = v.granted q + (v.handed q).length
  never : v.failed q = 0
  order : v.came q = v.pick (Happening.wakes q) ++ v.list

section Conserved

variable {n : Int} {q : Wq} {v v' : Counter} {c : Tid} {op : Op} {lk lk' : Kernel}

theorem Happening.concerns_of_granted (h : Happening) (hg : h.granted q = true) :
    h.concerns q := by
  cases h with
  | ret u op b r =>
    obtain ⟨hop | hop, -⟩ := of_decide_eq_true hg
    · exact Op.on_of_waitsOn hop u
    · exact Op.on_of_tries hop u
  | _ => cases hg

theorem Happening.concerns_of_failed (h : Happening) (hf : h.failed q = true) : h.concerns q := by
  cases h with
  | ret u op b r => exact Op.on_of_waitsOn (of_decide_eq_true hf).1 u
  | _ => cases hf

theorem Counter.Conserved.elsewhere (he : Kernel.Elsewhere q lk lk')
    (h : (lk.counter q).Conserved n q) : (lk'.counter q).Conserved n q := by
  have hlist : (lk'.counter q).list = (lk.counter q).list := congrArg WaitQueue.list he.wait
  refine ⟨h.toPatient.elsewhere he, ?_, ?_, ?_⟩
  · rw [(Counter.counts_elsewhere he).1, Counter.granted, Counter.handed,
      Counter.woken_elsewhere he, Counter.count_elsewhere he Happening.concerns_of_granted]
    exact h.returned
  · rw [Counter.failed, Counter.count_elsewhere he Happening.concerns_of_failed]
    exact h.never
  · rw [Counter.came, Counter.pick_elsewhere he fun h t => h.concerns_of_blocks,
      Counter.pick_elsewhere he fun h t => h.concerns_of_wakes, hlist]
    exact h.order

theorem Counter.Conserved.enters (h : v.Conserved n q) (hopens : v.Opens q c)
    (hstays : ∀ t err, op = .threadUnblock t err → t ∉ v.list)
    (hlong : ∀ timeout, op.down = some (q, timeout) → timeout ≠ 0)
    (henters : Counter.Enters q c op v v') : v'.Conserved n q := by
  have hreturned := h.returned
  have hnever := h.never
  have horder := h.order
  refine ⟨h.toPatient.enters hopens hstays henters, ?_, ?_, ?_⟩
  · simp only [Counter.gets, Counter.granted, Counter.handed, Counter.woken] at hreturned ⊢
    cases henters with
    | take timeout hop htokens =>
      simp [Happening.gets, Happening.granted, Happening.woken, Op.waitsOn_of_down hop]
      omega
    | zero hop => exact absurd rfl (hlong 0 hop)
    | block timeout hop htimeout htokens =>
      simpa [Happening.gets, Happening.granted, Happening.woken] using hreturned
    | keep hop htokens r =>
      have htries := Op.tries_of_up hop
      simpa [Happening.gets, Happening.granted, Happening.woken, Op.waitsOn_of_up hop, htries] using
        hreturned
    | hand hop htokens t rest hlist =>
      simp [Happening.gets, Happening.granted, Happening.woken]
      omega
    | tryTake hop htokens =>
      simp [Happening.gets, Happening.granted, Happening.woken, hop]
      omega
    | tryNone hop =>
      simpa [Happening.gets, Happening.granted, Happening.woken, ERR_NOT_READY, NO_ERROR] using
        hreturned
    | unblock t err hop ht => exact absurd ht (hstays t err hop)
  · simp only [Counter.failed] at hnever ⊢
    cases henters with
    | zero hop => exact absurd rfl (hlong 0 hop)
    | keep hop htokens r => simpa [Happening.failed, Op.waitsOn_of_up hop] using hnever
    | tryNone hop =>
      cases op <;> cases hop
      simpa [Happening.failed, Op.waitsOn] using hnever
    | unblock t err hop ht => exact absurd ht (hstays t err hop)
    | _ => simpa [Happening.failed] using hnever
  · simp only [Counter.came] at horder ⊢
    cases henters with
    | zero hop => exact absurd rfl (hlong 0 hop)
    | block timeout hop htimeout htokens =>
      simp [Happening.blocks, Happening.wakes, horder]
    | hand hop htokens t rest hlist =>
      simpa [Happening.blocks, Happening.wakes, hlist] using horder
    | unblock t err hop ht => exact absurd ht (hstays t err hop)
    | _ => simpa [Happening.blocks, Happening.wakes] using horder

theorem Counter.Conserved.leaves (h : v.Conserved n q) (hdoing : v.doing c = some op)
    (hleaves : Counter.Leaves q c op v v') : v'.Conserved n q := by
  have hreturned := h.returned
  have hnever := h.never
  have horder := h.order
  refine ⟨h.toPatient.leaves hdoing hleaves, ?_, ?_, ?_⟩
  · cases hleaves with
    | back hop hc =>
      obtain ⟨hret, hhanded⟩ := h.toPatient.returns hdoing hop hc
      have hlen := List.length_pos_of_mem hhanded
      simp only [Counter.gets, Counter.granted, Counter.handed, Counter.woken]
        at hreturned hhanded hlen ⊢
      simp [Happening.gets, Happening.granted, Happening.woken, hop, hret,
        List.length_erase_of_mem hhanded]
      omega
    | done hop b r =>
      have htries := Op.tries_of_up hop
      simp only [Counter.gets, Counter.granted, Counter.handed, Counter.woken] at hreturned ⊢
      simpa [Happening.gets, Happening.granted, Happening.woken, Op.waitsOn_of_up hop, htries] using
        hreturned
  · simp only [Counter.failed] at hnever ⊢
    cases hleaves with
    | back hop hc =>
      obtain ⟨hret, -⟩ := h.toPatient.returns hdoing hop hc
      simpa [Happening.failed, hret] using hnever
    | done hop b r => simpa [Happening.failed, Op.waitsOn_of_up hop] using hnever
  · simp only [Counter.came] at horder ⊢
    cases hleaves with
    | back => simpa [Happening.blocks, Happening.wakes] using horder
    | done => simpa [Happening.blocks, Happening.wakes] using horder

theorem Counter.Conserved.start (hn : 0 ≤ n) (htokens : v.tokens = n) (hlist : v.list = [])
    (hlog : v.log = []) (hdoing : ∀ t, v.doing t = none) : v.Conserved n q := by
  refine ⟨.start hn htokens hlist hlog hdoing, ?_, ?_, ?_⟩
  · simp [Counter.gets, Counter.granted, Counter.handed, Counter.woken, Counter.count,
      Counter.fold, hlog]
  · simp [Counter.failed, Counter.count, hlog]
  · simp [Counter.came, Counter.pick, hlog, hlist]

end Conserved

def Op.usesSem : Op → Bool
  | .semPost _ _ | .semWait _ | .semTrywait _ => true
  | _ => false

/-- The semaphore is posted and waited for, without a timeout, and is not destroyed. -/
def Machine.SemOnly (s : SemId) (m : Machine) (label : Label) : Prop :=
  (∀ op ∈ m.begins label, op.on m.current = some (.sem s) → op.usesSem = true) ∧
    m.Minds (.sem s) label

instance (s : SemId) (m : Machine) (label : Label) : Decidable (m.SemOnly s label) :=
  inferInstanceAs (Decidable (_ ∧ _))

section Runs

variable {n : Int} {s : SemId} {m m' : Machine} {label : Label} {op : Op}

theorem Op.counts_of_usesSem (h : op.usesSem = true) : op.counts = true := by
  cases op <;> first | rfl | cases h

theorem Machine.SemOnly.long {timeout : LkTime} (h : m.SemOnly s label)
    (hbegins : m.begins label = some op) (hop : op.down = some (.sem s, timeout)) :
    timeout ≠ 0 := by
  have huses := h.1 op hbegins (Op.on_of_waitsOn (Op.waitsOn_of_down hop) _)
  cases op with
  | semWait s' =>
    cases hop
    decide
  | semPost | semTrywait => cases hop
  | _ => cases huses

theorem Machine.Run.conserved (hrun : Machine.Run (Machine.SemOnly s) m m')
    (h : m.Keeping fun lk => (lk.counter (.sem s)).Conserved n (.sem s)) :
    m'.Keeping fun lk => (lk.counter (.sem s)).Conserved n (.sem s) :=
  hrun.counter rfl h (fun _ _ he hj => hj.elsewhere he)
    (fun _ _ op hok hbegins hon => Op.counts_of_usesSem (hok.1 op hbegins hon))
    (fun _ _ _ _ hok hbegins hopens hj henters => hj.enters hopens
      (fun t _ hop ht => hok.2 _ hbegins t (by rw [hop]; rfl) (.inl ht))
      (fun _ => hok.long hbegins) henters)
    fun _ _ _ _ hj hdoing hleaves => hj.leaves hdoing hleaves

theorem Machine.boot_conserved (objects : Objects) (s : Nat) :
    (Machine.boot objects).Keeping fun lk =>
      (lk.counter (.sem (.host s))).Conserved (objects.sem s) (.sem (.host s)) :=
  Machine.boot_keeping objects fun _ _ _ _ =>
    .start (Int.natCast_nonneg _) rfl rfl rfl fun _ => rfl

end Runs

def Kernel.posted (q : Wq) (lk : Kernel) : Nat := lk.log.countP (Happening.gives q)

def Kernel.got (q : Wq) (lk : Kernel) : Nat := lk.log.countP (Happening.gets q)

def Kernel.granted (q : Wq) (lk : Kernel) : Nat := lk.log.countP (Happening.granted q)

/-- Where a thread is in `sem_down`. -/
def Frame.downs (s : SemId) : Frame → Bool
  | .semDown s' | .semDownWait s' => s' = s
  | _ => false

section Host

variable {J : Kernel → Prop} {q : Wq} {s : SemId} {m m' : Machine} {f : Frame} {stack : List Frame}
  {l : List Happening}

theorem Happening.countP_gives (hl : ∀ x ∈ l, x.queue ≠ none) :
    l.countP (Happening.gives q) = 0 := by
  refine List.countP_eq_zero.mpr fun x hx hg => hl x hx ?_
  cases x with
  | call => rfl
  | _ => cases hg

theorem Happening.countP_granted (hl : ∀ x ∈ l, x.queue ≠ none) :
    l.countP (Happening.granted q) = 0 := by
  refine List.countP_eq_zero.mpr fun x hx hg => hl x hx ?_
  cases x with
  | ret => rfl
  | _ => cases hg

/-- `sem_up` posts once, where it begins, and is left when that has returned. -/
theorem Machine.Keeping.step_semUp {s : Nat} (h : m.Keeping J)
    (hframes : m.kernel.frames m.current = .semUp s :: stack) (hstep : m.step .run = some m') :
    (m'.kernel.frames m.current = .semUp s :: stack ∨ m'.kernel.frames m.current = stack) ∧
    (m.code m.current = .outside →
      m'.kernel.posted (.sem (.host s)) = m.kernel.posted (.sem (.host s)) + 1) ∧
    (m.code m.current ≠ .outside →
      m'.kernel.posted (.sem (.host s)) = m.kernel.posted (.sem (.host s))) := by
  obtain ⟨l, hl, hsegment⟩ := h.segment hframes rfl hstep
  have hposted : m'.kernel.posted (.sem (.host s)) = m.kernel.posted (.sem (.host s)) +
      ((m.begins .run).toList.map (Happening.call m.current)).countP
        (Happening.gives (.sem (.host s))) := by
    have hnone := Happening.countP_gives (q := .sem (.host s)) hl
    cases hsegment with
    | on _ hlog => simp [Kernel.posted, hlog, List.countP_append, hnone]
    | back b r _ hlog =>
      simp [Kernel.posted, hlog, List.countP_append, hnone, Happening.gives]
  refine ⟨?_, fun hcode => ?_, fun hcode => ?_⟩
  · cases hsegment with
    | on hframes' => exact .inl hframes'
    | back b r hframes' => exact .inr hframes'
  · have hbegins : m.begins .run = some (.semPost (.host s) true) := by
      simp [Machine.begins, hcode, hframes, Frame.op?, Frame.instr]
    rw [hposted, hbegins]
    simp [Happening.gives, Op.up]
  · have hbegins : m.begins .run = none := by
      unfold Machine.begins
      cases hc : m.code m.current with
      | outside => exact absurd hc hcode
      | _ => rfl
    rw [hposted, hbegins]
    rfl

/-- `sem_down` is gone on with until a wait was granted, and left then. -/
theorem Machine.Keeping.step_semDown (h : m.Keeping J)
    (hframes : m.kernel.frames m.current = f :: stack) (hf : f.downs s = true)
    (hstep : m.step .run = some m')
    (hnever : m'.kernel.log.countP (Happening.failed (.sem s)) = 0) :
    (∃ f', m'.kernel.frames m.current = f' :: stack ∧ f'.downs s = true) ∧
      m'.kernel.granted (.sem s) = m.kernel.granted (.sem s) ∨
    m'.kernel.frames m.current = stack ∧
      m'.kernel.granted (.sem s) = m.kernel.granted (.sem s) + 1 := by
  have hcalls : ∀ ops : List Op, (ops.map (Happening.call m.current)).countP
      (Happening.granted (.sem s)) = 0 := fun ops => List.countP_eq_zero.mpr fun x hx hg => by
    obtain ⟨op, -, rfl⟩ := List.mem_map.mp hx
    cases hg
  cases f with
  | semDown s' =>
    obtain rfl : s' = s := of_decide_eq_true hf
    obtain ⟨l, hl, hsegment⟩ := h.segment hframes rfl hstep
    have hnone := Happening.countP_granted (q := .sem s') hl
    refine .inl ?_
    cases hsegment with
    | on hframes' hlog =>
      exact ⟨⟨_, hframes', hf⟩, by simp [Kernel.granted, hlog, List.countP_append, hnone, hcalls]⟩
    | back b r hframes' hlog =>
      refine ⟨⟨.semDownWait s', hframes', hf⟩, ?_⟩
      simp [Kernel.granted, hlog, List.countP_append, hnone, hcalls, Happening.granted, Op.waitsOn,
        Op.tries]
  | semDownWait s' =>
    obtain rfl : s' = s := of_decide_eq_true hf
    obtain ⟨l, hl, hsegment⟩ := h.segment hframes rfl hstep
    have hnone := Happening.countP_granted (q := .sem s') hl
    cases hsegment with
    | on hframes' hlog =>
      exact .inl ⟨⟨_, hframes', hf⟩,
        by simp [Kernel.granted, hlog, List.countP_append, hnone, hcalls]⟩
    | back b r hframes' hlog =>
      have hr : r = NO_ERROR := by
        by_contra hne
        refine absurd (List.countP_eq_zero.mp hnever (.ret m.current (.semWait s') b r) ?_) ?_
        · rw [hlog]
          simp
        · simp [Happening.failed, Op.waitsOn, hne]
      subst hr
      refine .inr ⟨hframes', ?_⟩
      simp [Kernel.granted, hlog, List.countP_append, hnone, hcalls, Happening.granted, Op.waitsOn]
  | _ => cases hf

/-- As many threads wait as tokens are missing. Every token that was there or was posted is left or
was got, and every one that was got is with a wait that returned or with a thread that was handed it
and has not run since. Nobody waits while there is a token, and who waited first is handed one
first. A thread in `sem_up` posts once, and one in `sem_down` leaves it with a token. -/
structure Machine.Conserves (n s : Nat) (m : Machine) : Prop where
  waiting : ((m.kernel.wait (.sem (.host s))).list.length : Int) =
    max 0 (-(m.kernel.sem (.host s)))
  tokens : (n : Int) + m.kernel.posted (.sem (.host s)) =
    m.kernel.got (.sem (.host s)) + max 0 (m.kernel.sem (.host s))
  granted : m.kernel.got (.sem (.host s)) =
    m.kernel.granted (.sem (.host s)) + (m.kernel.handed (.sem (.host s))).length
  idle : 0 < m.kernel.sem (.host s) → ∀ t, (m.kernel.threads t).state = .blocked →
    (m.kernel.threads t).blockingWaitQueue ≠ some (.sem (.host s))
  order : m.kernel.log.filterMap (Happening.blocks (.sem (.host s))) =
    m.kernel.log.filterMap (Happening.wakes (.sem (.host s))) ++
      (m.kernel.wait (.sem (.host s))).list
  up : ∀ stack m', m.kernel.frames m.current = .semUp s :: stack → m.step .run = some m' →
    (m'.kernel.frames m.current = .semUp s :: stack ∨ m'.kernel.frames m.current = stack) ∧
    (m.code m.current = .outside →
      m'.kernel.posted (.sem (.host s)) = m.kernel.posted (.sem (.host s)) + 1) ∧
    (m.code m.current ≠ .outside →
      m'.kernel.posted (.sem (.host s)) = m.kernel.posted (.sem (.host s)))
  down : ∀ f stack m', m.kernel.frames m.current = f :: stack → f.downs (.host s) = true →
    m.step .run = some m' →
    (∃ f', m'.kernel.frames m.current = f' :: stack ∧ f'.downs (.host s) = true) ∧
      m'.kernel.granted (.sem (.host s)) = m.kernel.granted (.sem (.host s)) ∨
    m'.kernel.frames m.current = stack ∧
      m'.kernel.granted (.sem (.host s)) = m.kernel.granted (.sem (.host s)) + 1

theorem Counter.Patient.tokens_eq {n : Int} {v : Counter} (h : v.Patient n q) :
    (v.list.length : Int) = max 0 (-v.tokens) ∧ v.balance q = max 0 v.tokens := by
  have hbalance := h.balance_eq
  have hnonneg := h.nonneg
  by_cases hpos : 0 < v.balance q
  · rw [h.fair hpos, List.length_nil] at hbalance ⊢
    omega
  · omega

theorem Machine.SemOnly.down (hframes : m.kernel.frames m.current = f :: stack)
    (hf : f.downs s = true) : m.SemOnly s .run := by
  have hop : ∀ op ∈ m.begins .run, op = .threadYield ∨ op = .semWait s := by
    intro op hop
    rw [Machine.begins] at hop
    split at hop
    · rw [hframes] at hop
      cases f with
      | semDown s' => exact .inl (Option.some_inj.mp hop).symm
      | semDownWait s' =>
        obtain rfl : s' = s := of_decide_eq_true hf
        exact .inr (Option.some_inj.mp hop).symm
      | _ => cases hf
    · cases hop
  constructor
  · intro op hbegins hon
    rcases hop op hbegins with rfl | rfl
    · cases hon
    · rfl
  · intro op hbegins t ht
    rcases hop op hbegins with rfl | rfl <;> cases ht

/-- The semaphores of the host conserve their tokens. -/
theorem semaphore_conserves {objects : Objects} {s : Nat}
    (hrun : Machine.Run (Machine.SemOnly (.host s)) (.boot objects) m) :
    m.Conserves (objects.sem s) s := by
  have hkeeping := hrun.conserved (Machine.boot_conserved objects s)
  obtain ⟨hsound, hconserved⟩ := hkeeping.kernel
  obtain ⟨hwaiting, hbalance⟩ := hconserved.toPatient.tokens_eq
  refine ⟨hwaiting, ?_, ?_, fun hpos t hblocked hqueue => ?_, hconserved.order,
    fun stack m' hframes hstep => hkeeping.step_semUp hframes hstep,
    fun f stack m' hframes hf hstep => ?_⟩
  · have haccount := hconserved.account
    rw [hbalance] at haccount
    exact haccount.symm.trans (Int.add_comm _ _)
  · have hreturned := hconserved.returned
    rw [Counter.gets] at hreturned
    exact_mod_cast hreturned
  · have hmem := (hsound.wf.blocked _ t).mpr ⟨Set.notMem_empty t, hblocked, hqueue⟩
    have hlen := List.length_pos_of_mem hmem
    have hcount : ((m.kernel.wait (.sem (.host s))).list.length : Int) =
      max 0 (-(m.kernel.sem (.host s))) := hwaiting
    omega
  · have hnext := (Machine.Run.snoc hrun (Machine.SemOnly.down hframes hf) hstep).conserved
      (Machine.boot_conserved objects s)
    exact hkeeping.step_semDown hframes hf hstep hnext.kernel.2.never

/-- Thread 2 waits for a token, thread 1 posts one, and thread 2 goes on with it. -/
def postingRun : List Label :=
  waitingRun ++ [.run, .call (.semUp 0), .run, .run]

theorem semaphore_conserves_posted : ∃ m,
    Machine.Run (Machine.SemOnly (.host 0)) (.boot .assorted) m ∧
    m.kernel.posted (.sem (.host 0)) = 1 ∧ m.kernel.granted (.sem (.host 0)) = 1 ∧
    m.kernel.log.filterMap (Happening.wakes (.sem (.host 0))) = [2] ∧ m.Conserves 0 0 := by
  have hresult : ((Machine.boot .assorted).after (Machine.SemOnly (.host 0)) postingRun).map
      (fun m => (m.kernel.posted (.sem (.host 0)), m.kernel.granted (.sem (.host 0)),
        m.kernel.log.filterMap (Happening.wakes (.sem (.host 0))))) = some (1, 1, [2]) := by
    decide +kernel
  obtain ⟨m, hm, hresult⟩ := Option.map_eq_some_iff.mp hresult
  simp only [Prod.mk.injEq] at hresult
  have hrun : Machine.Run (Machine.SemOnly (.host 0)) (.boot .assorted) m :=
    (Machine.Run.nil _).after hm
  exact ⟨m, hrun, hresult.1, hresult.2.1, hresult.2.2, semaphore_conserves hrun⟩

end Host

end UefiLkl.Lk
