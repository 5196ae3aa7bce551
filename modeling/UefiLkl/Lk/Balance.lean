import UefiLkl.Lk.Counters
set_option autoImplicit false

/-!
The balance of an object that counts: what it was given and has not handed on, and what those whose
wait timed out are still to give back.
-/

namespace UefiLkl.Lk
open Coroutine

/-- The tokens there are once those that timed out have given back what they took from the count,
and as if nobody waited. -/
def Counter.balance (v : Counter) (q : Wq) : Int :=
  v.tokens + v.list.length + (v.woken q ERR_TIMED_OUT).length

/-- A token was got: at once, or handed to a thread that waited. -/
def Happening.gets (q : Wq) : Happening → Bool
  | .ret _ op atOnce r => (op.waitsOn = some q ∨ op.tries = some q) ∧ atOnce ∧ r = NO_ERROR
  | .wake q' _ err => q' = q ∧ err = NO_ERROR
  | _ => false

def Happening.gives (q : Wq) : Happening → Bool
  | .call _ op => op.up = some q
  | _ => false

def Counter.gets (v : Counter) (q : Wq) : Int := v.count (Happening.gets q)

def Counter.gives (v : Counter) (q : Wq) : Int := v.count (Happening.gives q)

section Balance

variable {q : Wq} {v : Counter} {c t : Tid} {op : Op} {err : Status} {r : Int} {b : Bool}
  {lk lk' : Kernel} {rest : List Tid}

theorem Counter.balance_begins : (v.begins c op).balance q = v.balance q := by
  simp only [Counter.balance, Counter.woken_begins]
  rfl

theorem Counter.balance_add (k : Int) : (v.add k).balance q = v.balance q + k := by
  simp only [Counter.balance, Counter.woken_add]
  simp only [Counter.add]
  omega

theorem Counter.balance_block : (v.block q c).balance q = v.balance q + 1 := by
  simp only [Counter.balance, Counter.woken_block]
  simp [Counter.block]
  omega

theorem Counter.balance_wake (hrest : v.list.length = rest.length + 1) :
    (v.wake q rest t err).balance q =
      v.balance q - 1 + if err = ERR_TIMED_OUT then 1 else 0 := by
  simp only [Counter.balance, Counter.woken_wake]
  simp only [Counter.wake, hrest]
  split
  · rw [List.length_append, List.length_singleton]
    omega
  · omega

theorem Counter.balance_ends (hop : ¬ (op.waitsOn = some q ∧ b = false)) :
    (v.ends c op b r).balance q = v.balance q := by
  simp only [Counter.balance, Counter.woken_ends, if_neg hop]
  rfl

theorem Counter.balance_returns (h : v.Tracked q) (hop : op.waitsOn = some q)
    (hc : c ∈ v.woken q err) : (v.ends c op false r).balance q =
      v.balance q - if err = ERR_TIMED_OUT then 1 else 0 := by
  simp only [Counter.balance, Counter.woken_ends, hop, and_self, if_true]
  by_cases herr : err = ERR_TIMED_OUT
  · rw [herr] at hc
    have hlen := List.length_pos_of_mem hc
    rw [List.length_erase_of_mem hc, if_pos herr]
    simp only [Counter.ends]
    omega
  · have hnot : c ∉ v.woken q ERR_TIMED_OUT := fun hw =>
      herr ((h.woken _ c hc).2.1.symm.trans (h.woken _ c hw).2.1)
    rw [List.erase_of_not_mem hnot, if_neg herr]
    simp [Counter.ends]

theorem Kernel.Elsewhere.tokens (he : Kernel.Elsewhere q lk lk') : lk'.tokens q = lk.tokens q := by
  cases q with
  | sem s => exact he.sem s rfl
  | mutex m => simp only [Kernel.tokens, he.mutex m rfl]
  | _ => rfl

theorem Counter.balance_elsewhere (he : Kernel.Elsewhere q lk lk') :
    (lk'.counter q).balance q = (lk.counter q).balance q := by
  have hlist : (lk'.counter q).list = (lk.counter q).list := congrArg WaitQueue.list he.wait
  unfold Counter.balance
  rw [Counter.woken_elsewhere he, hlist]
  exact congrArg (fun n : Int => n + _ + _) he.tokens

theorem Happening.concerns_of_gets (h : Happening) (hg : h.gets q = true) : h.concerns q := by
  cases h with
  | ret u op b r =>
    obtain ⟨hop | hop, -⟩ := of_decide_eq_true hg
    · exact Op.on_of_waitsOn hop u
    · exact Op.on_of_tries hop u
  | wake q' u err => exact congrArg some (of_decide_eq_true hg).1
  | _ => cases hg

theorem Happening.concerns_of_gives (h : Happening) (hg : h.gives q = true) : h.concerns q := by
  cases h with
  | call u op => exact Op.on_of_up (of_decide_eq_true hg) u
  | _ => cases hg

theorem Counter.counts_elsewhere (he : Kernel.Elsewhere q lk lk') :
    (lk'.counter q).gets q = (lk.counter q).gets q ∧
      (lk'.counter q).gives q = (lk.counter q).gives q :=
  ⟨congrArg Nat.cast (Counter.count_elsewhere he Happening.concerns_of_gets),
    congrArg Nat.cast (Counter.count_elsewhere he Happening.concerns_of_gives)⟩

end Balance

/-- Of `n` tokens and those given since, what was not got is left. -/
structure Counter.Even (n : Int) (q : Wq) (v : Counter) : Prop extends v.Tracked q where
  account : v.balance q + v.gets q = n + v.gives q
  nonneg : 0 ≤ v.balance q
  results : ∀ err, v.woken q err ≠ [] → err = NO_ERROR ∨ err = ERR_TIMED_OUT

/-- Nobody waits while there is a token, not even one that is still to be given back. -/
def Counter.Fair (q : Wq) (v : Counter) : Prop := 0 < v.balance q → v.list = []

/-- Who is taken out of the queue from outside waits with a timeout, which is over. -/
def Counter.Expires (op : Op) (v : Counter) : Prop :=
  ∀ t err, op = .threadUnblock t err → t ∈ v.list → err = ERR_TIMED_OUT ∧
    ∃ op', v.doing t = some op' ∧ op'.corrects = true

/-- A wait begins only where there is no token, not even one that is still to be given back. -/
def Counter.Timely (q : Wq) (op : Op) (v : Counter) : Prop :=
  ∀ timeout, op.down = some (q, timeout) → timeout ≠ 0 → v.tokens < 1 → v.balance q ≤ 0

section Even

variable {n : Int} {q : Wq} {v v' : Counter} {c t : Tid} {op : Op} {err : Status} {r : Int}
  {lk lk' : Kernel} {rest : List Tid}

/-! How each of them changes the balance. -/

theorem Counter.balance_passes (k : Int) :
    (((v.begins c op).add k).ends c op true r).balance q = v.balance q + k := by
  rw [Counter.balance_ends (by simp), Counter.balance_add, Counter.balance_begins]

theorem Counter.balance_waits : (((v.begins c op).add (-1)).block q c).balance q = v.balance q := by
  rw [Counter.balance_block, Counter.balance_add, Counter.balance_begins]
  omega

theorem Counter.balance_hands (hlist : v.list = t :: rest) :
    (((v.begins c op).add 1).wake q rest t NO_ERROR).balance q = v.balance q := by
  have hlen : ((v.begins c op).add 1).list.length = rest.length + 1 := congrArg List.length hlist
  rw [Counter.balance_wake hlen, Counter.balance_add, Counter.balance_begins,
    if_neg (by decide : NO_ERROR ≠ ERR_TIMED_OUT)]
  omega

theorem Counter.balance_expires (ht : t ∈ v.list) :
    (((v.begins c op).wake q (v.list.erase t) t ERR_TIMED_OUT).ends c op true r).balance q =
      v.balance q := by
  have hlen : (v.begins c op).list.length = (v.list.erase t).length + 1 := by
    have hpos := List.length_pos_of_mem ht
    rw [Counter.list_begins, List.length_erase_of_mem ht]
    omega
  rw [Counter.balance_ends (by simp), Counter.balance_wake hlen, Counter.balance_begins,
    if_pos rfl]
  omega

theorem Counter.Tracked.balance_back (h : v.Tracked q) (hdoing : v.doing c = some op)
    (hop : op.waitsOn = some q) (hc : c ∉ v.list) :
    ((v.add (op.correction (v.ret c))).ends c op false (v.ret c)).balance q = v.balance q := by
  have hwoken : c ∈ v.woken q (v.ret c) := (h.inside c op hdoing hop).resolve_left hc
  obtain ⟨-, -, op', hop', -, hcorrects⟩ := h.woken _ c hwoken
  rw [hdoing] at hop'
  cases hop'
  rw [Counter.balance_returns (h.add _) hop hwoken, Counter.balance_add, Op.correction]
  by_cases herr : v.ret c = ERR_TIMED_OUT
  · rw [if_pos ⟨hcorrects herr, herr⟩, if_pos herr]
    omega
  · rw [if_neg fun hr => herr hr.2, if_neg herr]
    omega

theorem Counter.balance_done {b : Bool} (hop : op.up = some q) :
    (v.ends c op b r).balance q = v.balance q := by
  refine Counter.balance_ends fun hw => ?_
  rw [Op.waitsOn_of_up hop] at hw
  cases hw.1

theorem Counter.Even.elsewhere (he : Kernel.Elsewhere q lk lk') (h : (lk.counter q).Even n q) :
    (lk'.counter q).Even n q := by
  obtain ⟨hgets, hgives⟩ := Counter.counts_elsewhere he
  refine ⟨h.toTracked.elsewhere he, ?_, ?_, fun err => ?_⟩
  · rw [Counter.balance_elsewhere he, hgets, hgives]
    exact h.account
  · rw [Counter.balance_elsewhere he]
    exact h.nonneg
  · rw [Counter.woken_elsewhere he]
    exact h.results err

theorem Counter.Even.passes (h : v.Even n q) (hdoing : v.doing c = none) (k : Int)
    (hk : k + ((Happening.ret c op true r).gets q).toNat = ((Happening.call c op).gives q).toNat)
    (hnonneg : 0 ≤ v.balance q + k) : (((v.begins c op).add k).ends c op true r).Even n q := by
  refine ⟨(h.toTracked.passes hdoing).add k, ?_, ?_, fun err => ?_⟩
  · have haccount := h.account
    rw [Counter.balance_passes]
    simp only [Counter.gets, Counter.gives, Counter.count_ends, Counter.count_add,
      Counter.count_begins] at haccount ⊢
    simp only [Happening.gets, Happening.gives, Bool.toNat_false] at hk ⊢
    push_cast
    omega
  · rwa [Counter.balance_passes]
  · rw [Counter.woken_ends, if_neg (by simp), Counter.woken_add, Counter.woken_begins]
    exact h.results err

theorem Counter.Even.block (h : v.Even n q) (hdoing : v.doing c = none) (hop : op.up ≠ some q) :
    (((v.begins c op).add (-1)).block q c).Even n q := by
  refine ⟨(h.toTracked.block hdoing).add (-1), ?_, ?_, fun err => ?_⟩
  · rw [Counter.balance_waits]
    simpa [Counter.gets, Counter.gives, Happening.gets, Happening.gives, hop] using h.account
  · rw [Counter.balance_waits]
    exact h.nonneg
  · rw [Counter.woken_block, Counter.woken_add, Counter.woken_begins]
    exact h.results err

theorem Counter.Even.hand (h : v.Even n q) (hopens : v.Opens q c) (hop : op.up = some q)
    (hlist : v.list = t :: rest) : (((v.begins c op).add 1).wake q rest t NO_ERROR).Even n q := by
  have hwaits : op.waitsOn ≠ some q := by
    rw [Op.waitsOn_of_up hop]
    simp
  have hmem : t ∈ v.list := hlist ▸ List.mem_cons_self
  obtain ⟨op', hdoing, hop'⟩ := hopens.queued t hmem
  have htc : t ≠ c := by
    rintro rfl
    rw [hopens.free] at hdoing
    cases hdoing
  refine ⟨?_, ?_, ?_, fun err hne => ?_⟩
  · have herase : ((v.begins c op).add 1).list.erase t = rest := by
      rw [Counter.list_add, Counter.list_begins, hlist, List.erase_cons_head]
    rw [← herase]
    refine ((h.toTracked.begins hopens.free hwaits).add 1).wake hmem hopens.nodup
      ⟨op', ?_, hop', fun herr => absurd herr (by decide)⟩
    simpa [Counter.add, Counter.begins, htc] using hdoing
  · have haccount := h.account
    simp only [Counter.balance_hands hlist, Counter.gets, Counter.gives] at haccount ⊢
    simp [Happening.gets, Happening.gives, hop]
    omega
  · rw [Counter.balance_hands hlist]
    exact h.nonneg
  · rw [Counter.woken_wake, Counter.woken_add, Counter.woken_begins] at hne
    by_cases herr : NO_ERROR = err
    · exact .inl herr.symm
    · rw [if_neg herr] at hne
      exact h.results err hne

theorem Counter.Even.expire (h : v.Even n q) (hopens : v.Opens q c)
    (hop : op.waitsOn = none ∧ op.tries = none ∧ op.up = none) (ht : t ∈ v.list)
    (hdoing : ∃ op, v.doing t = some op ∧ op.waitsOn = some q ∧ op.corrects = true) :
    (((v.begins c op).wake q (v.list.erase t) t ERR_TIMED_OUT).ends c op true r).Even n q := by
  obtain ⟨hwaits, htries, hup⟩ := hop
  obtain ⟨op', hop', hq, hcorrects⟩ := hdoing
  have htc : t ≠ c := by
    rintro rfl
    rw [hopens.free] at hop'
    cases hop'
  refine ⟨?_, ?_, ?_, fun err hne => ?_⟩
  · refine ((h.toTracked.begins hopens.free (by simp [hwaits])).wake ht hopens.nodup
      ⟨op', ?_, hq, fun _ => hcorrects⟩).ends ?_ (by simp [hwaits])
    · simpa [Counter.begins, htc] using hop'
    · simp [Counter.wake, Counter.begins]
  · rw [Counter.balance_expires ht]
    simpa [Counter.gets, Counter.gives, Happening.gets, Happening.gives, hwaits, htries, hup,
      NO_ERROR, ERR_TIMED_OUT] using h.account
  · rw [Counter.balance_expires ht]
    exact h.nonneg
  · rw [Counter.woken_ends, if_neg (by simp), Counter.woken_wake, Counter.woken_begins] at hne
    by_cases herr : ERR_TIMED_OUT = err
    · exact .inr herr.symm
    · rw [if_neg herr] at hne
      exact h.results err hne

theorem Counter.balance_pos (htokens : 1 ≤ v.tokens) : 0 < v.balance q := by
  unfold Counter.balance
  omega

theorem Counter.Even.enters (h : v.Even n q) (hopens : v.Opens q c) (hexpires : v.Expires op)
    (henters : Counter.Enters q c op v v') : v'.Even n q := by
  have hnonneg := h.nonneg
  cases henters with
  | take timeout hop htokens =>
    have hpos := Counter.balance_pos (q := q) htokens
    refine h.passes hopens.free (-1) ?_ (by omega)
    have hup := Op.up_of_down hop
    simp [Happening.gets, Happening.gives, Op.waitsOn_of_down hop, hup]
  | zero hop =>
    have hup := Op.up_of_down hop
    have hpasses : (((v.begins c op).add 0).ends c op true ERR_TIMED_OUT).Even n q :=
      h.passes hopens.free 0
        (by simp [Happening.gets, Happening.gives, hup, ERR_TIMED_OUT, NO_ERROR]) (by omega)
    rwa [Counter.add_zero] at hpasses
  | block timeout hop htimeout htokens => exact h.block hopens.free (Op.up_of_down hop)
  | keep hop htokens r =>
    refine h.passes hopens.free 1 ?_ (by omega)
    have htries := Op.tries_of_up hop
    simp [Happening.gets, Happening.gives, Op.waitsOn_of_up hop, htries, hop]
  | hand hop htokens t rest hlist => exact h.hand hopens hop hlist
  | tryTake hop htokens =>
    have hpos := Counter.balance_pos (q := q) htokens
    refine h.passes hopens.free (-1) ?_ (by omega)
    have hup := Op.up_of_tries hop
    simp [Happening.gets, Happening.gives, hop, hup]
  | tryNone hop =>
    have hup := Op.up_of_tries hop
    have hpasses : (((v.begins c op).add 0).ends c op true ERR_NOT_READY).Even n q :=
      h.passes hopens.free 0
        (by simp [Happening.gets, Happening.gives, hup, ERR_NOT_READY, NO_ERROR]) (by omega)
    rwa [Counter.add_zero] at hpasses
  | unblock t err hop ht =>
    subst hop
    obtain ⟨rfl, op', hop', hcorrects⟩ := hexpires t err rfl ht
    obtain ⟨op'', hop'', hq⟩ := hopens.queued t ht
    rw [hop'] at hop''
    cases hop''
    exact h.expire hopens ⟨rfl, rfl, rfl⟩ ht ⟨op', hop', hq, hcorrects⟩

theorem Counter.Even.back (h : v.Even n q) (hdoing : v.doing c = some op)
    (hop : op.waitsOn = some q) (hc : c ∉ v.list) :
    ((v.add (op.correction (v.ret c))).ends c op false (v.ret c)).Even n q := by
  have hbalance := h.toTracked.balance_back hdoing hop hc
  refine ⟨(h.toTracked.returns hop).add _, ?_, ?_, fun err hne => ?_⟩
  · rw [hbalance]
    simpa [Counter.gets, Counter.gives, Happening.gets, Happening.gives] using h.account
  · rw [hbalance]
    exact h.nonneg
  · rw [Counter.woken_ends, if_pos ⟨hop, rfl⟩, Counter.woken_add] at hne
    refine h.results err fun hnil => hne ?_
    rw [hnil, List.erase_nil]

theorem Counter.Even.done {b : Bool} (h : v.Even n q) (hdoing : v.doing c = some op)
    (hop : op.up = some q) : (v.ends c op b r).Even n q := by
  have hwaits : op.waitsOn ≠ some q := by
    rw [Op.waitsOn_of_up hop]
    simp
  have htries := Op.tries_of_up hop
  refine ⟨h.toTracked.ends hdoing hwaits, ?_, ?_, fun err hne => ?_⟩
  · rw [Counter.balance_done hop]
    simpa [Counter.gets, Counter.gives, Happening.gets, Happening.gives, hwaits, htries] using
      h.account
  · rw [Counter.balance_done hop]
    exact h.nonneg
  · rw [Counter.woken_ends, if_neg fun hw => hwaits hw.1] at hne
    exact h.results err hne

theorem Counter.Even.leaves (h : v.Even n q) (hdoing : v.doing c = some op)
    (hleaves : Counter.Leaves q c op v v') : v'.Even n q := by
  cases hleaves with
  | back hop hc => exact h.back hdoing hop hc
  | done hop b r => exact h.done hdoing hop

theorem Counter.Even.start (hn : 0 ≤ n) {v : Counter} (htokens : v.tokens = n) (hlist : v.list = [])
    (hlog : v.log = []) (hdoing : ∀ t, v.doing t = none) : v.Even n q := by
  have hwoken : ∀ err, v.woken q err = [] := fun err => by
    simp [Counter.woken, Counter.fold, hlog]
  have heq : v.balance q = n := by
    rw [Counter.balance, hwoken, htokens, hlist]
    simp
  refine ⟨⟨fun t op ht => ?_, fun err t ht => ?_, fun err => ?_⟩, ?_, ?_,
    fun err hne => absurd (hwoken err) hne⟩
  · rw [hdoing] at ht
    cases ht
  · rw [hwoken] at ht
    cases ht
  · rw [hwoken]
    exact List.nodup_nil
  · simp [heq, Counter.gets, Counter.gives, Counter.count, hlog]
  · rw [heq]
    exact hn

theorem Counter.Fair.elsewhere (he : Kernel.Elsewhere q lk lk') (h : (lk.counter q).Fair q) :
    (lk'.counter q).Fair q := by
  have hlist : (lk'.counter q).list = (lk.counter q).list := congrArg WaitQueue.list he.wait
  unfold Counter.Fair
  rw [Counter.balance_elsewhere he, hlist]
  exact h

/-- Where somebody waits, there is no token at all. -/
theorem Counter.Fair.balance_eq_zero (h : v.Fair q) (hnonneg : 0 ≤ v.balance q) (ht : t ∈ v.list) :
    v.balance q = 0 := by
  refine le_antisymm (not_lt.mp fun hpos => ?_) hnonneg
  rw [h hpos] at ht
  cases ht

theorem Counter.Fair.alone (h : v.Fair q) (htokens : 0 ≤ v.tokens ∨ v.list = []) : v.list = [] := by
  rcases htokens with htokens | hlist
  · by_contra hne
    have hlen := List.length_pos_iff.mpr hne
    refine hne (h ?_)
    unfold Counter.balance
    omega
  · exact hlist

theorem Counter.Fair.enters (h : v.Fair q) (hexpires : v.Expires op) (htimely : v.Timely q op)
    (henters : Counter.Enters q c op v v') : v'.Fair q := by
  intro hpos
  cases henters with
  | take timeout hop htokens => exact h (Counter.balance_pos htokens)
  | tryTake hop htokens => exact h (Counter.balance_pos htokens)
  | keep hop htokens r => exact h.alone htokens
  | zero hop =>
    refine h ?_
    rwa [Counter.balance_ends (by simp), Counter.balance_begins] at hpos
  | tryNone hop =>
    refine h ?_
    rwa [Counter.balance_ends (by simp), Counter.balance_begins] at hpos
  | block timeout hop htimeout htokens =>
    rw [Counter.balance_waits] at hpos
    exact absurd hpos (not_lt.mpr (htimely timeout hop htimeout htokens))
  | hand hop htokens t rest hlist =>
    rw [Counter.balance_hands hlist] at hpos
    have hnil := h hpos
    rw [hlist] at hnil
    cases hnil
  | unblock t err hop ht =>
    obtain ⟨rfl, -⟩ := hexpires t err hop ht
    rw [Counter.balance_expires ht] at hpos
    rw [h hpos] at ht
    cases ht

theorem Counter.Fair.leaves (h : v.Fair q) (htracked : v.Tracked q) (hdoing : v.doing c = some op)
    (hleaves : Counter.Leaves q c op v v') : v'.Fair q := by
  intro hpos
  cases hleaves with
  | back hop hc =>
    rw [htracked.balance_back hdoing hop hc] at hpos
    exact h hpos
  | done hop b r =>
    rw [Counter.balance_done hop] at hpos
    exact h hpos

end Even

/-- The threads that were handed the token, and have not run since. -/
def Counter.handed (v : Counter) (q : Wq) : List Tid := v.woken q NO_ERROR

def Kernel.handed (q : Wq) (lk : Kernel) : List Tid :=
  lk.log.foldl (Happening.woken q NO_ERROR) []

def Counter.came (v : Counter) (q : Wq) : List Tid := v.pick (Happening.blocks q)

/-- No wait times out. -/
structure Counter.Patient (n : Int) (q : Wq) (v : Counter) : Prop extends v.Even n q where
  fair : v.Fair q
  patient : v.woken q ERR_TIMED_OUT = []

section Patient

variable {n : Int} {q : Wq} {v v' : Counter} {c : Tid} {op : Op} {lk lk' : Kernel}

theorem Counter.Patient.elsewhere (he : Kernel.Elsewhere q lk lk')
    (h : (lk.counter q).Patient n q) : (lk'.counter q).Patient n q := by
  refine ⟨h.toEven.elsewhere he, h.fair.elsewhere he, ?_⟩
  rw [Counter.woken_elsewhere he]
  exact h.patient

theorem Counter.Patient.balance_eq (h : v.Patient n q) :
    v.balance q = v.tokens + v.list.length := by
  rw [Counter.balance, h.patient]
  simp

/-- Nobody is about to give a token back, so a wait begins where there is none. -/
theorem Counter.Patient.timely (h : v.Patient n q) (op : Op) : v.Timely q op := by
  intro timeout _ _ htokens
  by_contra hpos
  have hlist := h.fair (not_le.mp hpos)
  have hbalance := h.balance_eq
  rw [hlist, List.length_nil] at hbalance
  omega

theorem Counter.Patient.enters (h : v.Patient n q) (hopens : v.Opens q c)
    (hstays : ∀ t err, op = .threadUnblock t err → t ∉ v.list)
    (henters : Counter.Enters q c op v v') : v'.Patient n q := by
  have hexpires : v.Expires op := fun t err hop ht => absurd ht (hstays t err hop)
  refine ⟨h.toEven.enters hopens hexpires henters, h.fair.enters hexpires (h.timely op) henters, ?_⟩
  have hpatient := h.patient
  simp only [Counter.woken] at hpatient ⊢
  cases henters with
  | unblock u err hop hu => exact absurd hu (hstays u err hop)
  | hand => simpa [Happening.woken, NO_ERROR, ERR_TIMED_OUT] using hpatient
  | _ => simpa [Happening.woken] using hpatient

theorem Counter.Patient.leaves (h : v.Patient n q) (hdoing : v.doing c = some op)
    (hleaves : Counter.Leaves q c op v v') : v'.Patient n q := by
  refine ⟨h.toEven.leaves hdoing hleaves, h.fair.leaves h.toTracked hdoing hleaves, ?_⟩
  have hpatient := h.patient
  simp only [Counter.woken] at hpatient ⊢
  cases hleaves with
  | back => simp [Happening.woken, hpatient]
  | done => simp [Happening.woken, hpatient]

theorem Counter.Patient.returns (h : v.Patient n q) (hdoing : v.doing c = some op)
    (hop : op.waitsOn = some q) (hc : c ∉ v.list) : v.ret c = NO_ERROR ∧ c ∈ v.handed q := by
  have hwoken : c ∈ v.woken q (v.ret c) := (h.inside c op hdoing hop).resolve_left hc
  have hret : v.ret c = NO_ERROR := by
    refine (h.results _ (List.ne_nil_of_mem hwoken)).resolve_right fun herr => ?_
    rw [herr, h.patient] at hwoken
    cases hwoken
  rw [hret] at hwoken
  exact ⟨hret, hwoken⟩

theorem Counter.Patient.start (hn : 0 ≤ n) (htokens : v.tokens = n) (hlist : v.list = [])
    (hlog : v.log = []) (hdoing : ∀ t, v.doing t = none) : v.Patient n q := by
  refine ⟨.start hn htokens hlist hlog hdoing, fun _ => hlist, ?_⟩
  simp [Counter.woken, Counter.fold, hlog]

end Patient

end UefiLkl.Lk
