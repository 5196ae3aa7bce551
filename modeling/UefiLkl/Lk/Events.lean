import UefiLkl.Lk.Priorities
import UefiLkl.Lk.Timers
set_option autoImplicit false

/-!
The signals of an event: none is lost, and none lets two threads through.
-/

namespace UefiLkl.Lk
open Coroutine

/-- A wait that fell through, or whose thread was released. -/
def Happening.passes (e : EventId) : Happening → Bool
  | .ret _ (.eventWait e' _) atOnce r => e' = e ∧ atOnce ∧ r = NO_ERROR
  | .wake q _ err => q = .event e ∧ err = NO_ERROR
  | _ => false

def Happening.raises (e : EventId) : Happening → Bool
  | .signal e' signaled => e' = e ∧ !signaled
  | _ => false

/-- `event_unsignal`, while the event is signaled. -/
def Happening.clears (e : EventId) : Happening → Bool
  | .unsignal e' signaled => e' = e ∧ signaled
  | _ => false

/-- The flag of an event without `EVENT_FLAG_AUTOUNSIGNAL`: signaled by a signal, until
`event_unsignal`. -/
def Happening.flag (e : EventId) (signaled : Bool) : Happening → Bool
  | .signal e' _ => if e' = e then true else signaled
  | .unsignal e' _ => if e' = e then false else signaled
  | _ => signaled

section Concerns

variable {e : EventId}

theorem Happening.concerns_of_passes (h : Happening) (hp : h.passes e = true) :
    h.concerns (.event e) := by
  cases h with
  | ret u op b r => cases op <;> simp_all [Happening.passes, Happening.concerns, Op.on]
  | wake q u err => exact congrArg some (of_decide_eq_true hp).1
  | _ => simp [Happening.passes] at hp

theorem Happening.concerns_of_raises (h : Happening) (hr : h.raises e = true) :
    h.concerns (.event e) := by
  cases h with
  | signal e' b => simp_all [Happening.raises, Happening.concerns, Happening.queue]
  | _ => simp [Happening.raises] at hr

theorem Happening.concerns_of_clears (h : Happening) (hc : h.clears e = true) :
    h.concerns (.event e) := by
  cases h with
  | unsignal e' b => simp_all [Happening.clears, Happening.concerns, Happening.queue]
  | _ => simp [Happening.clears] at hc

theorem Happening.flag_of_not_concerns {b : Bool} (h : Happening) (hc : ¬ h.concerns (.event e)) :
    h.flag e b = b := by
  cases h <;> simp_all [Happening.flag, Happening.concerns, Happening.queue]

/-! All that were released, in a row. -/

theorem Happening.blocks_released {q : Wq} (err : Status) (list : List Tid) :
    (list.map fun t => Happening.wake q t err).filterMap (Happening.blocks q) = [] := by
  refine List.filterMap_eq_nil_iff.mpr fun x hx => ?_
  obtain ⟨t, -, rfl⟩ := List.mem_map.mp hx
  rfl

theorem Happening.wakes_released {q : Wq} (list : List Tid) :
    (list.map fun t => Happening.wake q t NO_ERROR).filterMap (Happening.wakes q) = list := by
  induction list with
  | nil => rfl
  | cons t rest ih =>
    have hwakes : Happening.wakes q (.wake q t NO_ERROR) = some t := if_pos ⟨rfl, rfl⟩
    rw [List.map_cons, List.filterMap_cons_some hwakes, ih]

theorem Happening.flag_released (err : Status) (list : List Tid) (b : Bool) :
    (list.map fun t => Happening.wake (.event e) t err).foldl (Happening.flag e) b = b := by
  induction list with
  | nil => rfl
  | cons t rest ih => exact ih

end Concerns

/-- What is counted of the history agrees with the flag and the queue. -/
structure Tallies (autounsignal initial : Bool) (e : EventId) (list : List Tid) (signaled : Bool)
    (log : List Happening) : Prop where
  waiting : signaled = true → list = []
  signals : autounsignal = true →
    log.countP (Happening.passes e) + signaled.toNat + log.countP (Happening.clears e) =
      initial.toNat + log.countP (Happening.raises e)
  flag : autounsignal = false → signaled = log.foldl (Happening.flag e) initial
  order : log.filterMap (Happening.blocks (.event e)) =
    log.filterMap (Happening.wakes (.event e)) ++ list

namespace Tallies

variable {autounsignal initial signaled : Bool} {e : EventId} {c t : Tid} {op : Op}
  {list rest : List Tid} {log l : List Happening}

theorem start (initial : Bool) : Tallies autounsignal initial e [] initial [] := by
  constructor <;> simp

theorem append (h : Tallies autounsignal initial e list signaled log)
    (hpasses : ∀ x ∈ l, x.passes e = false) (hclears : ∀ x ∈ l, x.clears e = false)
    (hraises : ∀ x ∈ l, x.raises e = false) (hblocks : ∀ x ∈ l, x.blocks (.event e) = none)
    (hwakes : ∀ x ∈ l, x.wakes (.event e) = none) (hflag : ∀ x ∈ l, ∀ b, x.flag e b = b) :
    Tallies autounsignal initial e list signaled (log ++ l) := by
  have hp : l.countP (Happening.passes e) = 0 := by simpa [List.countP_eq_zero] using hpasses
  have hc : l.countP (Happening.clears e) = 0 := by simpa [List.countP_eq_zero] using hclears
  have hr : l.countP (Happening.raises e) = 0 := by simpa [List.countP_eq_zero] using hraises
  have hb : l.filterMap (Happening.blocks (.event e)) = [] := by
    simpa [List.filterMap_eq_nil_iff] using hblocks
  have hw : l.filterMap (Happening.wakes (.event e)) = [] := by
    simpa [List.filterMap_eq_nil_iff] using hwakes
  constructor
  · exact h.waiting
  · simpa [List.countP_append, hp, hc, hr] using h.signals
  · intro hauto
    rw [List.foldl_append, ← h.flag hauto]
    exact ((List.foldl_ext _ (fun b _ => b) signaled fun b x hx => hflag x hx b).trans
      (List.foldl_fixed l)).symm
  · simpa [List.filterMap_append, hb, hw] using h.order

theorem elsewhere (h : Tallies autounsignal initial e list signaled log)
    (hl : ∀ x ∈ l, ¬ x.concerns (.event e)) :
    Tallies autounsignal initial e list signaled (log ++ l) :=
  h.append (fun x hx => Bool.eq_false_iff.mpr fun hp => hl x hx (x.concerns_of_passes hp))
    (fun x hx => Bool.eq_false_iff.mpr fun hc => hl x hx (x.concerns_of_clears hc))
    (fun x hx => Bool.eq_false_iff.mpr fun hr => hl x hx (x.concerns_of_raises hr))
    (fun x hx => Option.eq_none_iff_forall_ne_some.mpr fun _ ht =>
      hl x hx (x.concerns_of_blocks ht))
    (fun x hx => Option.eq_none_iff_forall_ne_some.mpr fun _ ht => hl x hx (x.concerns_of_wakes ht))
    fun x hx _ => x.flag_of_not_concerns (hl x hx)

theorem note (h : Tallies autounsignal initial e list signaled log) {x : Happening}
    (hp : x.passes e = false) (hc : x.clears e = false) (hr : x.raises e = false)
    (hb : x.blocks (.event e) = none) (hw : x.wakes (.event e) = none)
    (hf : signaled = x.flag e signaled) :
    Tallies autounsignal initial e list signaled (log ++ [x]) where
  waiting := h.waiting
  signals := by simpa [List.countP_append, hp, hc, hr] using h.signals
  flag hauto := by
    rw [List.foldl_append, ← h.flag hauto]
    exact hf
  order := by simpa [List.filterMap_append, hb, hw] using h.order

theorem keep (h : Tallies autounsignal initial e [] false log) :
    Tallies autounsignal initial e [] true (log ++ [.signal e false]) := by
  obtain ⟨hwaiting, hsignals, hflag, horder⟩ := h
  constructor
  · simp
  · intro hauto
    have hs := hsignals hauto
    simp [List.countP_append, Happening.passes, Happening.clears, Happening.raises] at hs ⊢
    omega
  · simp [Happening.flag]
  · simpa [List.filterMap_cons, Happening.blocks, Happening.wakes] using horder

theorem release (h : Tallies true initial e (t :: rest) false log) :
    Tallies true initial e rest false
      (log ++ [.signal e false] ++ [.wake (.event e) t NO_ERROR]) := by
  obtain ⟨hwaiting, hsignals, hflag, horder⟩ := h
  constructor
  · simp
  · intro hauto
    have hs := hsignals hauto
    simp [List.countP_append, Happening.passes, Happening.clears, Happening.raises] at hs ⊢
    omega
  · exact nofun
  · simpa [List.filterMap_cons, Happening.blocks, Happening.wakes] using horder

theorem releaseAll (h : Tallies false initial e list false log) :
    Tallies false initial e [] true
      (log ++ [.signal e false] ++ list.map fun t => .wake (.event e) t NO_ERROR) := by
  refine ⟨fun _ => rfl, nofun, fun _ => ?_, ?_⟩
  · rw [List.foldl_append, List.foldl_append]
    have hsignal : [Happening.signal e false].foldl (Happening.flag e)
        (log.foldl (Happening.flag e) initial) = true := if_pos rfl
    rw [hsignal]
    exact (Happening.flag_released NO_ERROR list true).symm
  · have hsignal : [Happening.signal e false].filterMap (Happening.wakes (.event e)) = [] := rfl
    rw [List.filterMap_append, List.filterMap_append, Happening.blocks_released,
      List.filterMap_append, List.filterMap_append, Happening.wakes_released, h.order, hsignal]
    simp [Happening.blocks]

theorem block (h : Tallies autounsignal initial e list false log) :
    Tallies autounsignal initial e (list ++ [c]) false (log ++ [.block (.event e) c]) := by
  obtain ⟨hwaiting, hsignals, hflag, horder⟩ := h
  constructor
  · simp
  · intro hauto
    simpa [List.countP_append, Happening.passes, Happening.clears, Happening.raises] using
      hsignals hauto
  · simpa [Happening.flag] using hflag
  · simp [List.filterMap_cons, Happening.blocks, Happening.wakes, horder]

theorem pass (h : Tallies autounsignal initial e list true log) (timeout : LkTime) :
    Tallies autounsignal initial e list (!autounsignal)
      (log ++ [.ret c (.eventWait e timeout) true NO_ERROR]) := by
  obtain ⟨hwaiting, hsignals, hflag, horder⟩ := h
  constructor
  · exact fun _ => hwaiting rfl
  · intro hauto
    have hs := hsignals hauto
    simp [List.countP_append, Happening.passes, Happening.clears, Happening.raises, hauto] at hs ⊢
    omega
  · intro hauto
    simpa [Happening.flag, hauto] using hflag hauto
  · simpa [List.filterMap_cons, Happening.blocks, Happening.wakes] using horder

theorem clear (h : Tallies autounsignal initial e list signaled log) :
    Tallies autounsignal initial e list false (log ++ [.unsignal e signaled]) := by
  obtain ⟨hwaiting, hsignals, hflag, horder⟩ := h
  constructor
  · simp
  · intro hauto
    have hs := hsignals hauto
    cases signaled <;>
      simp [List.countP_append, Happening.passes, Happening.clears, Happening.raises] at hs ⊢ <;>
      omega
  · simp [Happening.flag]
  · simpa [List.filterMap_cons, Happening.blocks, Happening.wakes] using horder

end Tallies

/-- The rules for a signal. One that is there already stays; otherwise it releases who has waited
longest, and is kept if nobody waits; and without `EVENT_FLAG_AUTOUNSIGNAL` it is kept and
releases all. -/
inductive SignalRule : (autounsignal signaled : Bool) → (list : List Tid) → (signaled' : Bool) →
    (list' released : List Tid) → Prop where
  | already (autounsignal : Bool) (list : List Tid) :
    SignalRule autounsignal true list true list []
  | kept : SignalRule true false [] true [] []
  | one (t : Tid) (rest : List Tid) : SignalRule true false (t :: rest) false rest [t]
  | all (list : List Tid) : SignalRule false false list true [] list

structure Kernel.EventIs (lk : Kernel) (e : EventId) (autounsignal signaled : Bool)
    (list : List Tid) (log : List Happening) : Prop where
  autounsignal : (lk.event e).autounsignal = autounsignal
  signaled : (lk.event e).signaled = signaled
  list : (lk.wait (.event e)).list = list
  log : lk.log = log

def Kernel.Signals (e : EventId) (lk lk' : Kernel) : Prop :=
  lk'.doing = lk.doing ∧ ∃ signaled list released, SignalRule (lk.event e).autounsignal
    (lk.event e).signaled (lk.wait (.event e)).list signaled list released ∧
    lk'.EventIs e (lk.event e).autounsignal signaled list (lk.log ++
      [.signal e (lk.event e).signaled] ++ released.map fun t => .wake (.event e) t NO_ERROR)

section Operations

variable {e : EventId} {lk lk' : Kernel} {autounsignal signaled : Bool} {list : List Tid}
  {log : List Happening}

theorem Kernel.EventIs.dispatched (hd : lk.Dispatched lk')
    (h : lk.EventIs e autounsignal signaled list log) :
    lk'.EventIs e autounsignal signaled list log := by
  rw [hd.rest]
  exact ⟨h.autounsignal, h.signaled, h.list, h.log⟩

theorem Kernel.popAll_parts (q : Wq) (err : Status) (lk : Kernel) {list : List Tid}
    (hlist : (lk.wait q).list = list) :
    (Kernel.popAll q err list lk).event = lk.event ∧
      (Kernel.popAll q err list lk).doing = lk.doing ∧
      ((Kernel.popAll q err list lk).wait q).list = [] ∧
      (Kernel.popAll q err list lk).log = lk.log ++ list.map fun t => .wake q t err := by
  induction list generalizing lk with
  | nil => exact ⟨rfl, rfl, hlist, by simp [Kernel.popAll]⟩
  | cons t rest ih =>
    have hstep := ih ((lk.dequeue q rest t err).insertInRunQueueHead t) (by
      simp [Kernel.insertInRunQueueHead, Kernel.dequeue, Kernel.note, Kernel.setThread,
        Kernel.setWait])
    refine ⟨hstep.1, hstep.2.1, hstep.2.2.1, ?_⟩
    rw [Kernel.popAll, hstep.2.2.2]
    simp [Kernel.insertInRunQueueHead, Kernel.dequeue, Kernel.note, Kernel.setThread,
      Kernel.setWait]

/-- The event and its queue are as they were, and the signal is noted. -/
structure Kernel.Noted (e : EventId) (lk lk' : Kernel) : Prop where
  event : lk'.event = lk.event
  wait : lk'.wait = lk.wait
  doing : lk'.doing = lk.doing
  log : lk'.log = lk.log ++ [.signal e (lk.event e).signaled]
  wf : lk'.Wf

theorem Kernel.Noted.wakeOne {T J : Kernel → Prop} {Q : Bool → Int → Kernel → Prop}
    {reschedule : Bool} (h : lk.Noted e lk') (hsignaled : (lk.event e).signaled = false)
    (hauto : (lk.event e).autounsignal = true) (hJ : ∀ lk'', lk.Signals e lk'' → J lk'')
    (hkept : lk.Signals e ((lk'.useEvent e).setEvent e fun event =>
      { event with signaled := true }) → Q true 0 lk')
    (hQ : ∀ lk'', lk.Signals e lk'' → Q true 1 lk'')
    (hback : ∀ lk'', T lk'' → J lk'' → Q false 1 lk'') :
    ((waitQueueWakeOne (.event e) reschedule NO_ERROR).run lk').Wp T J Q true := by
  have hone : ∀ t rest lk'', (lk'.wait (.event e)).list = t :: rest →
      (lk'.dequeue (.event e) rest t NO_ERROR).Dispatched lk'' → lk.Signals e lk'' := by
    intro t rest lk'' hlist hd
    rw [h.wait] at hlist
    refine ⟨?_, false, rest, [t], by rw [hsignaled, hauto, hlist]; exact .one t rest,
      .dispatched hd ⟨?_, ?_, ?_, ?_⟩⟩
    · rw [hd.rest]
      exact h.doing
    · exact congrArg Event.autounsignal (congrFun h.event e)
    · exact (congrArg Event.signaled (congrFun h.event e)).trans hsignaled
    · simp [Kernel.dequeue, Kernel.note, Kernel.setThread, Kernel.setWait]
    · exact congrArg (· ++ [Happening.wake (.event e) t NO_ERROR]) h.log
  refine waitQueueWakeOne_wp h.wf (fun hlist => hkept ?_)
    (fun t rest lk'' hlist hd => hJ lk'' (hone t rest lk'' hlist hd))
    (fun t rest lk'' hlist hd => hQ lk'' (hone t rest lk'' hlist hd))
    fun _ lk'' ht hj => hback lk'' ht hj
  rw [h.wait] at hlist
  rw [Kernel.useEvent_eq]
  refine ⟨h.doing, true, [], [], by rw [hsignaled, hauto, hlist]; exact .kept, ?_, ?_, ?_, ?_⟩
  · simp [Kernel.setEvent, h.event]
  · simp [Kernel.setEvent]
  · simp [Kernel.setEvent, h.wait, hlist]
  · rw [List.map_nil, List.append_nil]
    exact h.log

theorem Kernel.Noted.wakeAll {T J : Kernel → Prop} {Q : Bool → Int → Kernel → Prop}
    {reschedule : Bool} (h : lk.Noted e lk') (hsignaled : (lk.event e).signaled = false)
    (hauto : (lk.event e).autounsignal = false) (hJ : ∀ lk'', lk.Signals e lk'' → J lk'')
    (hQ : ∀ n lk'', lk.Signals e lk'' → Q true n lk'')
    (hback : ∀ n lk'', T lk'' → J lk'' → Q false n lk'') :
    ((waitQueueWakeAll (.event e) reschedule NO_ERROR).run
      (lk'.setEvent e fun event => { event with signaled := true })).Wp T J Q true := by
  generalize hset : (lk'.setEvent e fun event => { event with signaled := true }) = lk₁
  have hlist : (lk₁.wait (.event e)).list = (lk.wait (.event e)).list := by
    rw [← hset, ← h.wait]
    rfl
  have hall : ∀ lk'', (Kernel.popAll (.event e) NO_ERROR (lk₁.wait (.event e)).list
      lk₁).Dispatched lk'' → lk.Signals e lk'' := by
    intro lk'' hd
    obtain ⟨hevent, hdoing, hnil, hlog⟩ := Kernel.popAll_parts (.event e) NO_ERROR lk₁ rfl
    refine ⟨?_, true, [], (lk.wait (.event e)).list, by rw [hsignaled, hauto]; exact .all _,
      .dispatched hd ⟨?_, ?_, hnil, ?_⟩⟩
    · have hsame : lk₁.doing = lk'.doing := hset ▸ rfl
      rw [hd.rest]
      exact hdoing.trans (hsame.trans h.doing)
    · rw [hevent, ← hset]
      simp [Kernel.setEvent, h.event]
    · rw [hevent, ← hset]
      simp [Kernel.setEvent]
    · rw [hlog, hlist, ← h.log, ← hset]
      rfl
  refine waitQueueWakeAll_wp ?_ (fun lk'' hd => hJ lk'' (hall lk'' hd))
    (fun lk'' hd => hQ _ lk'' (hall lk'' hd)) fun _ lk'' ht hj => hback _ lk'' ht hj
  rw [← hset]
  exact h.wf

theorem eventSignal_wp {T J : Kernel → Prop} {Q : Bool → Status → Kernel → Prop}
    (reschedule : Bool) (h : lk.Wf) (hJ : ∀ lk', lk.Signals e lk' → J lk')
    (hQ : ∀ state lk', lk.Signals e lk' → Q true NO_ERROR (lk'.unlock state))
    (hback : ∀ state lk', T lk' → J lk' → Q false NO_ERROR (lk'.unlock state)) :
    ((perform (.eventSignal e reschedule)).run lk).Wp T J Q true := by
  obtain ⟨faults, huse⟩ : ∃ faults, lk.lock.useEvent e = { lk.lock with faults := faults } :=
    ⟨_, Kernel.useEvent_eq _ _⟩
  have hnoted : lk.Noted e (Kernel.note { lk.lock with faults := faults }
      (.signal e (lk.event e).signaled)) := ⟨rfl, rfl, rfl, rfl, h⟩
  have hevent : lk.lock.event e = lk.event e := rfl
  simp only [perform, eventSignal, Section.run_bind, lockThreads_run, Susp.done_bind,
    Section.run_modify, Section.run_read, huse, hevent]
  generalize Kernel.note { lk.lock with faults := faults }
    (.signal e (lk.event e).signaled) = lk₁ at hnoted
  simp only [Section.run_ite]
  cases hsignaled : (lk.event e).signaled with
  | true =>
    refine hQ _ _ ⟨hnoted.doing, true, (lk.wait (.event e)).list, [],
      by rw [hsignaled]; exact .already _ _, ?_, ?_, ?_, ?_⟩
    · rw [hnoted.event]
    · rw [hnoted.event, hsignaled]
    · rw [hnoted.wait]
    · simpa using hnoted.log
  | false =>
    simp only [Bool.not_false, if_true]
    cases hauto : (lk.event e).autounsignal with
    | true =>
      simp only [if_true, Section.run_bind, Susp.wp_bind]
      refine hnoted.wakeOne hsignaled hauto hJ (fun hs => hQ _ _ hs) (fun lk' hs => hQ _ lk' hs)
        fun lk' ht hj => hback _ lk' ht hj
    | false =>
      simp only [Bool.false_eq_true, if_false, Section.run_bind, Section.run_modify,
        Susp.done_bind, Susp.wp_bind]
      exact hnoted.wakeAll hsignaled hauto hJ (fun _ lk' hs => hQ _ lk' hs)
        fun _ lk' ht hj => hback _ lk' ht hj

theorem eventWait_wp {T J : Kernel → Prop} {Q : Bool → Status → Kernel → Prop}
    {timeout : LkTime} (h : lk.Wf) (hidle : lk.currentThread ≠ idleThread) (htimeout : timeout ≠ 0)
    (hpass : (lk.event e).signaled = true → ∀ (state : Bool) (lk' : Kernel), lk'.EventIs e
      (lk.event e).autounsignal (!(lk.event e).autounsignal) (lk.wait (.event e)).list lk.log →
      Q true NO_ERROR (lk'.unlock state))
    (hJ : (lk.event e).signaled = false → ∀ lk', lk'.EventIs e (lk.event e).autounsignal false
      ((lk.wait (.event e)).list ++ [lk.currentThread])
      (lk.log ++ [.block (.event e) lk.currentThread]) → J lk')
    (hback : (lk.event e).signaled = false → ∀ state r lk' lk'', T lk' → J lk' →
      lk'.Dispatched lk'' → Q false r (lk''.unlock state)) :
    ((perform (.eventWait e timeout)).run lk).Wp T J Q true := by
  obtain ⟨faults, huse⟩ : ∃ faults, lk.lock.useEvent e = { lk.lock with faults := faults } :=
    ⟨_, Kernel.useEvent_eq _ _⟩
  simp only [perform, eventWaitTimeout, Section.run_bind, lockThreads_run, Susp.done_bind,
    Section.run_modify, Section.run_read, huse]
  have hevent : lk.lock.event e = lk.event e := rfl
  simp only [Section.run_ite, hevent, Susp.wp_bind]
  cases hsignaled : (lk.event e).signaled with
  | true =>
    simp only [if_true, Section.run_bind, Section.run_modify, Section.run_pure]
    cases hauto : (lk.event e).autounsignal with
    | true =>
      simp only [if_true, Susp.done_bind]
      refine hpass hsignaled _ _ ⟨?_, ?_, rfl, rfl⟩
      · simp [Kernel.setEvent, hevent]
      · simp [Kernel.setEvent, hauto]
    | false =>
      simp only [Bool.false_eq_true, if_false, Susp.done_bind, Susp.wp_done]
      exact hpass hsignaled _ _ ⟨rfl, by rw [hauto]; exact hsignaled, rfl, rfl⟩
  | false =>
    simp only [Bool.false_eq_true, if_false]
    have hwf : Kernel.Wf { lk.lock with faults := faults } := h
    refine waitQueueBlock_wp hwf hidle (by simp) htimeout
      (fun lk' hd => hJ hsignaled lk' (.dispatched hd ⟨rfl, hsignaled, ?_, rfl⟩)) ?_
    · simp [Kernel.enqueue, Kernel.note, Kernel.setThread, Kernel.setWait]
      exact ⟨rfl, rfl⟩
    · intro lk' lk'' ht hj hd
      exact hback hsignaled _ _ lk' lk'' ht hj hd

structure Kernel.SameEvent (e : EventId) (lk lk' : Kernel) : Prop where
  event : lk'.event e = lk.event e
  list : (lk'.wait (.event e)).list = (lk.wait (.event e)).list
  doing : lk'.doing = lk.doing
  log : lk'.log = lk.log

theorem Kernel.SameEvent.dispatched (h : lk.Dispatched lk') : lk.SameEvent e lk' := by
  rw [h.rest]
  exact ⟨rfl, rfl, rfl, rfl⟩

structure Kernel.Destroys (e : EventId) (lk lk' : Kernel) : Prop where
  event : lk'.event e = ⟨false, false, false⟩
  list : (lk'.wait (.event e)).list = []
  doing : lk'.doing = lk.doing
  log : lk'.log = lk.log ++ (lk.wait (.event e)).list.map fun t =>
    .wake (.event e) t ERR_OBJECT_DESTROYED

theorem eventDestroy_wp {T J : Kernel → Prop} {Q : Bool → Int → Kernel → Prop} (h : lk.Wf)
    (hJ : ∀ lk', lk.Destroys e lk' → J lk') (hQ : ∀ lk', lk.Destroys e lk' → Q true 0 lk')
    (hback : ∀ lk' lk'', T lk' → J lk' → lk'.SameEvent e lk'' → Q false 0 lk'') :
    ((perform (.eventDestroy e)).run lk).Wp T J Q true := by
  obtain ⟨faults, huse⟩ : ∃ faults, lk.lock.useEvent e = { lk.lock with faults := faults } :=
    ⟨_, Kernel.useEvent_eq _ _⟩
  generalize hset : Kernel.setEvent { lk.lock with faults := faults } e
    (fun _ => ⟨false, false, false⟩) = lk₁
  have hall : ∀ lk', (Kernel.popAll (.event e) ERR_OBJECT_DESTROYED (lk₁.wait (.event e)).list
      lk₁).Dispatched lk' → lk.Destroys e lk' := by
    intro lk' hd
    obtain ⟨hevent, hdoing, hnil, hlog⟩ :=
      Kernel.popAll_parts (.event e) ERR_OBJECT_DESTROYED lk₁ rfl
    have hsame := Kernel.SameEvent.dispatched (e := e) hd
    refine ⟨?_, hsame.list.trans hnil, ?_, ?_⟩
    · rw [hsame.event, hevent, ← hset]
      simp [Kernel.setEvent]
    · rw [hsame.doing, hdoing, ← hset]
      rfl
    · rw [hsame.log, hlog, ← hset]
      rfl
  have hend : ∀ (state : Bool) (lk' : Kernel), lk'.SameEvent e (Kernel.unlock
      ((lk'.useEvent e).setWait (.event e) fun wait => { wait with magic := false }) state) := by
    intro state lk'
    rw [Kernel.useEvent_eq]
    refine ⟨rfl, ?_, rfl, rfl⟩
    simp [Kernel.unlock, Kernel.setWait]
  simp only [perform, returning, eventDestroy, Section.run_bind, lockThreads_run, Susp.done_bind,
    Section.run_modify, huse, hset, Susp.wp_bind]
  have hwf : lk₁.Wf := hset ▸ h
  refine waitQueueWakeAll_wp hwf (fun lk' hd => hJ lk' (hall lk' hd))
    (fun lk' hd => ?_) fun _ lk' ht hj => hback lk' _ ht hj (hend _ lk')
  have hd' := hall lk' hd
  have hsame := hend lk.ints lk'
  exact hQ _ ⟨hsame.event.trans hd'.event, hsame.list.trans hd'.list, hsame.doing.trans hd'.doing,
    hsame.log.trans hd'.log⟩

end Operations

def Kernel.Tallying (autounsignal initial : Bool) (e : EventId) (lk : Kernel) : Prop :=
  (lk.event e).autounsignal = autounsignal ∧ Tallies autounsignal initial e
    (lk.wait (.event e)).list (lk.event e).signaled lk.log

section Law

variable {autounsignal initial : Bool} {e : EventId} {lk lk' : Kernel} {m : Machine} {op : Op}
  {frames : List Frame} {after : Int → List Frame} {timeout : LkTime} {reschedule : Bool}

theorem Kernel.Tallying.elsewhere (he : Kernel.Elsewhere (.event e) lk lk')
    (h : lk.Tallying autounsignal initial e) : lk'.Tallying autounsignal initial e := by
  obtain ⟨l, hl, hcon⟩ := he.log
  unfold Kernel.Tallying
  rw [he.wait, he.event e rfl, hl]
  exact ⟨h.1, h.2.elsewhere hcon⟩

theorem Kernel.Tallying.dispatched (hd : lk.Dispatched lk')
    (h : lk.Tallying autounsignal initial e) : lk'.Tallying autounsignal initial e := by
  unfold Kernel.Tallying
  rw [hd.rest]
  exact h

theorem Kernel.Tallying.of_is {signaled : Bool} {list : List Tid} {log : List Happening}
    (h : Tallies autounsignal initial e list signaled log)
    (hlk : lk.EventIs e autounsignal signaled list log) : lk.Tallying autounsignal initial e := by
  unfold Kernel.Tallying
  rw [hlk.autounsignal, hlk.signaled, hlk.list, hlk.log]
  exact ⟨rfl, h⟩

/-- The rules for a signal keep the tally. -/
theorem Kernel.Tallying.signals (h : lk.Tallying autounsignal initial e) (hs : lk.Signals e lk') :
    lk'.Tallying autounsignal initial e := by
  obtain ⟨-, signaled, list, released, hrule, his⟩ := hs
  obtain ⟨hauto, htallies⟩ := h
  rw [hauto] at hrule his
  generalize (lk.event e).signaled = signaled₀ at *
  generalize (lk.wait (.event e)).list = list₀ at *
  refine .of_is ?_ his
  cases hrule with
  | already =>
    have hnote := htallies.note (x := .signal e true) rfl rfl (by simp [Happening.raises]) rfl rfl
      (by simp [Happening.flag])
    simpa using hnote
  | kept => simpa using htallies.keep
  | one t rest => exact htallies.release
  | all list => exact htallies.releaseAll

theorem Kernel.Tallying.ends {c : Tid} {b state : Bool} {r : Int}
    (h : lk.Tallying autounsignal initial e) (hp : (Happening.ret c op b r).passes e = false) :
    ((lk.unlock state).ends c op b r frames).Tallying autounsignal initial e :=
  ⟨h.1, h.2.note hp rfl rfl rfl rfl rfl⟩

theorem Kernel.Tallying.begins {c : Tid} (h : lk.Tallying autounsignal initial e) :
    (lk.begins c op).Tallying autounsignal initial e :=
  ⟨h.1, h.2.note rfl rfl rfl rfl rfl rfl⟩

theorem eventSignal_tallying {T : Kernel → Prop} (h : m.Opens (.eventSignal e reschedule) lk)
    (hlk : lk.Tallying autounsignal initial e) :
    ((perform (.eventSignal e reschedule)).run
      (lk.begins m.current (.eventSignal e reschedule))).Wp T
      (Kernel.Tallying autounsignal initial e)
      (fun b r lk' => (lk'.ends m.current (.eventSignal e reschedule) b r (after r)).Tallying
        autounsignal initial e) true := by
  refine eventSignal_wp reschedule h.begins.wf (fun lk' hs => hlk.begins.signals hs)
    (fun state lk' hs => (hlk.begins.signals hs).ends rfl) fun state lk' _ hj => hj.ends rfl

theorem eventWait_tallying {T : Kernel → Prop} (h : m.Opens (.eventWait e timeout) lk)
    (htimeout : timeout ≠ 0) (hlk : lk.Tallying autounsignal initial e) :
    ((perform (.eventWait e timeout)).run (lk.begins m.current (.eventWait e timeout))).Wp T
      (Kernel.Tallying autounsignal initial e)
      (fun b r lk' => (lk'.ends m.current (.eventWait e timeout) b r (after r)).Tallying
        autounsignal initial e) true := by
  have hc : (lk.begins m.current (.eventWait e timeout)).currentThread = m.current := h.current
  obtain ⟨hauto, htallies⟩ : (lk.begins m.current (.eventWait e timeout)).Tallying
    autounsignal initial e := hlk.begins
  refine eventWait_wp h.begins.wf (by rw [hc]; exact h.notIdle rfl) htimeout
    (fun hsignaled state lk' his => ?_) (fun hsignaled lk' his => ?_)
    fun _ state r lk' lk'' _ hj hd => ?_
  · rw [hsignaled] at htallies
    rw [hauto] at his
    have hpass := htallies.pass (c := m.current) timeout
    refine ⟨his.autounsignal, ?_⟩
    have hlog : ((lk'.unlock state).ends m.current (.eventWait e timeout) true NO_ERROR
        (after NO_ERROR)).log = lk'.log ++ [.ret m.current (.eventWait e timeout) true NO_ERROR] :=
      rfl
    rw [hlog, his.log]
    have hlist := his.list
    have hflag := his.signaled
    rw [← hlist, ← hflag] at hpass
    exact hpass
  · rw [hsignaled] at htallies
    rw [hauto, hc] at his
    exact .of_is htallies.block his
  · exact (hj.dispatched hd).ends (by simp [Happening.passes])

theorem Kernel.Tallying.unsignal (h : lk.Tallying autounsignal initial e) :
    (lk.eventUnsignal e).Tallying autounsignal initial e := by
  have hclear := h.2.clear
  unfold Kernel.eventUnsignal
  rw [Kernel.useEvent_eq]
  constructor
  · simpa [Kernel.setEvent, Kernel.note] using h.1
  · simpa [Kernel.setEvent, Kernel.note] using hclear

def Op.usesEvent : Op → Bool
  | .eventWait _ timeout => timeout = INFINITE_TIME
  | .eventSignal _ _ => true
  | _ => false

/-- The event is waited for, without a timeout, and signaled, and is not destroyed. -/
def Machine.EventOnly (e : EventId) (m : Machine) (label : Label) : Prop :=
  (∀ op ∈ m.begins label, op.on m.current = some (.event e) → op.usesEvent = true) ∧
    m.Minds (.event e) label

instance (e : EventId) (m : Machine) (label : Label) : Decidable (m.EventOnly e label) :=
  inferInstanceAs (Decidable (_ ∧ _))

theorem Machine.Run.tallying {m' : Machine} (hrun : Machine.Run (Machine.EventOnly e) m m')
    (h : m.Keeping (Kernel.Tallying autounsignal initial e)) :
    m'.Keeping (Kernel.Tallying autounsignal initial e) := by
  refine hrun.object h (by simp) (fun _ _ he hj => hj.elsewhere he) (fun _ _ hok => hok.2)
    (fun _ _ e' _ he _ hj => by cases he; exact hj.unsignal) ?_
  intro m label lk op frames after hok hbegins hon hopens hlk
  have huses := hok.1 op hbegins hon
  cases op with
  | eventWait e' timeout =>
    cases hon
    have htimeout : timeout = INFINITE_TIME := by simpa [Op.usesEvent] using huses
    subst htimeout
    exact eventWait_tallying hopens (by decide) hlk
  | eventSignal e' reschedule =>
    cases hon
    exact eventSignal_tallying hopens hlk
  | _ => cases huses

end Law

/-- Who was let go from the queue, in this order. -/
def Kernel.released (lk : Kernel) (q : Wq) : List Tid := lk.log.filterMap (Happening.wakes q)

section Steps

variable {e : EventId} {m m' : Machine} {label : Label} {lk lk' : Kernel}

theorem Kernel.Elsewhere.released {q : Wq} (h : Kernel.Elsewhere q lk lk') :
    lk'.released q = lk.released q := by
  obtain ⟨l, hl, hcon⟩ := h.log
  have hnone : l.filterMap (Happening.wakes q) = [] := List.filterMap_eq_nil_iff.mpr fun x hx =>
    Option.eq_none_iff_forall_ne_some.mpr fun _ ht => hcon x hx (x.concerns_of_wakes ht)
  rw [Kernel.released, hl, List.filterMap_append, hnone, List.append_nil]
  rfl

/-- The rules for a signal, of two kernels. -/
def Kernel.Releases (e : EventId) (lk lk' : Kernel) : Prop :=
  ∃ released, SignalRule (lk.event e).autounsignal (lk.event e).signaled
    (lk.wait (.event e)).list (lk'.event e).signaled (lk'.wait (.event e)).list released ∧
    lk'.released (.event e) = lk.released (.event e) ++ released

theorem Kernel.Signals.releases (h : lk.Signals e lk') : lk.Releases e lk' := by
  obtain ⟨-, signaled, list, released, hrule, his⟩ := h
  refine ⟨released, by rw [his.signaled, his.list]; exact hrule, ?_⟩
  rw [Kernel.released, his.log, List.filterMap_append, List.filterMap_append,
    Happening.wakes_released]
  exact congrArg (· ++ released) (List.append_nil _)

theorem Machine.step_signals {reschedule : Bool} (hsound : m.kernel.Sound)
    (hbegins : m.begins label = some (.eventSignal e reschedule))
    (hstep : m.step label = some m') : m.kernel.Releases e m'.kernel := by
  obtain ⟨lk, henters⟩ := Machine.step_enters hsound hbegins hstep
  have hquiet := henters.quiet.elsewhere (.event e)
  have hbegun : ∀ lk', (lk.begins m.current (.eventSignal e reschedule)).Signals e lk' →
      m.kernel.Releases e lk' := by
    intro lk' hs
    obtain ⟨released, hrule, hreleased⟩ := hs.releases
    have hcall : (lk.begins m.current (.eventSignal e reschedule)).released (.event e) =
        lk.released (.event e) := by
      simp [Kernel.released, Kernel.begins, Kernel.note, Happening.wakes]
    have hevent : (lk.begins m.current (.eventSignal e reschedule)).event e = m.kernel.event e :=
      hquiet.event e rfl
    have hwait : (lk.begins m.current (.eventSignal e reschedule)).wait (.event e) =
        m.kernel.wait (.event e) := hquiet.wait
    rw [hcall, hquiet.released] at hreleased
    rw [hevent, hwait] at hrule
    exact ⟨released, hrule, hreleased⟩
  obtain ⟨after, rfl⟩ := henters.settle
  have hwp := eventSignal_wp (T := fun _ => False) (J := m.kernel.Releases e)
    (Q := fun _ _ lk' => m.kernel.Releases e lk') reschedule henters.wf hbegun
    (fun state lk' hs => hbegun lk' hs) fun _ _ ht => ht.elim
  rcases m.settle_wp m.current (.eventSignal e reschedule) after hwp with
    hj | ⟨r, lk', ⟨released, hrule, hreleased⟩, heq⟩
  · exact hj
  · rw [heq]
    refine ⟨released, hrule, ?_⟩
    rw [← hreleased]
    simp [Kernel.released, Kernel.ends, Kernel.setFrames, Kernel.note, Happening.wakes]

/-- The rules for a wait, and what happens last: it takes the signal of an event with
`EVENT_FLAG_AUTOUNSIGNAL`, leaves that of another, and returns at once; without a signal the thread
waits behind the others. -/
inductive WaitRule (c : Tid) (e : EventId) (timeout : LkTime) :
    (autounsignal signaled : Bool) → (list : List Tid) → (signaled' : Bool) →
    (list' : List Tid) → Happening → Prop where
  | pass (autounsignal : Bool) (list : List Tid) : WaitRule c e timeout autounsignal true list
    (!autounsignal) list (.ret c (.eventWait e timeout) true NO_ERROR)
  | block (autounsignal : Bool) (list : List Tid) : WaitRule c e timeout autounsignal false list
    false (list ++ [c]) (.block (.event e) c)

theorem Machine.step_waits {timeout : LkTime} (hsound : m.kernel.Sound) (htimeout : timeout ≠ 0)
    (hbegins : m.begins label = some (.eventWait e timeout)) (hstep : m.step label = some m') :
    ∃ x, WaitRule m.current e timeout (m.kernel.event e).autounsignal (m.kernel.event e).signaled
      (m.kernel.wait (.event e)).list (m'.kernel.event e).signaled (m'.kernel.wait (.event e)).list
        x ∧ m'.kernel.log.getLast? = some x := by
  obtain ⟨lk, henters⟩ := Machine.step_enters hsound hbegins hstep
  have hquiet := henters.quiet.elsewhere (.event e)
  have hc : (lk.begins m.current (.eventWait e timeout)).currentThread = m.current :=
    henters.current
  have hevent : (lk.begins m.current (.eventWait e timeout)).event e = m.kernel.event e :=
    hquiet.event e rfl
  have hwait : (lk.begins m.current (.eventWait e timeout)).wait (.event e) =
      m.kernel.wait (.event e) := hquiet.wait
  obtain ⟨after, rfl⟩ := henters.settle
  have hwp := eventWait_wp (e := e) (T := fun _ => False)
    (J := fun lk' => (m.kernel.event e).signaled = false ∧ ∃ log, lk'.EventIs e
      (m.kernel.event e).autounsignal false ((m.kernel.wait (.event e)).list ++ [m.current])
      (log ++ [.block (.event e) m.current]))
    (Q := fun b r lk' => b = true → (m.kernel.event e).signaled = true ∧ r = NO_ERROR ∧
      ∃ log, lk'.EventIs e (m.kernel.event e).autounsignal (!(m.kernel.event e).autounsignal)
        (m.kernel.wait (.event e)).list log)
    henters.wf (by rw [hc]; exact henters.notIdle rfl) htimeout
    (fun hsignaled state lk' his _ => ?_) (fun hsignaled lk' his => ?_) fun _ _ _ _ _ ht => ht.elim
  · rcases m.settle_wp m.current (.eventWait e timeout) after hwp with
      ⟨hsignaled, log, his⟩ | ⟨r, lk', hq, heq⟩
    · refine ⟨.block (.event e) m.current, ?_, by rw [his.log]; simp⟩
      rw [his.signaled, his.list, hsignaled]
      exact .block _ _
    · obtain ⟨hsignaled, rfl, log, his⟩ := hq rfl
      generalize hkernel : (m.settle m.current (.eventWait e timeout) after true _).kernel = lk₁
        at heq
      have hlist : (lk₁.wait (.event e)).list = (m.kernel.wait (.event e)).list := heq ▸ his.list
      have hflag : (lk₁.event e).signaled = !(m.kernel.event e).autounsignal := heq ▸ his.signaled
      refine ⟨.ret m.current (.eventWait e timeout) true NO_ERROR, ?_, ?_⟩
      · rw [hflag, hlist, hsignaled]
        exact .pass _ _
      · rw [heq]
        simp [Kernel.ends, Kernel.note, Kernel.setFrames]
  · rw [hevent] at hsignaled his
    rw [hwait] at his
    exact ⟨hsignaled, rfl, _, his.autounsignal, his.signaled, his.list, his.log⟩
  · rw [hevent] at hsignaled his
    rw [hwait, hc] at his
    exact ⟨hsignaled, _, his⟩

end Steps

/-- Whether the event of the timer was signaled since thread `t` last returned from a wait for
it. -/
def Happening.unheard (τ : Nat) (t : Tid) (b : Bool) : Happening → Bool
  | .signal e _ => if e = .timer τ then true else b
  | .ret u (.eventWait e _) _ _ => if u = t ∧ e = .timer τ then false else b
  | _ => b

/-- While a signal is not heard of, nobody waits: it is still there, or has let the thread of the
timer go, or that thread has come to `event_destroy`. -/
structure Kernel.Hears (τ : Nat) (t : Tid) (lk : Kernel) : Prop where
  waiting : (lk.event (.timer τ)).signaled = true → (lk.wait (.event (.timer τ))).list = []
  unheard : lk.log.foldl (Happening.unheard τ t) false = true →
    (lk.wait (.event (.timer τ))).list = [] ∧ ((lk.event (.timer τ)).signaled = true ∨
      (∃ timeout, lk.doing t = some (.eventWait (.timer τ) timeout)) ∨
      .call t (.eventDestroy (.timer τ)) ∈ lk.log)

/-- Only thread `t` waits for the event of the timer or destroys it, and not in this order, and
nobody clears it. -/
structure Machine.Hearing (τ : Nat) (t : Tid) (m : Machine) : Prop where
  sole : ∀ u ∈ (m.kernel.wait (.event (.timer τ))).list, u = t
  kept : .eventUnsignal (.timer τ) ∉ m.kernel.frames m.current
  waits : ∀ label timeout, m.begins label = some (.eventWait (.timer τ) timeout) →
    m.current = t ∧ timeout ≠ 0 ∧ .call t (.eventDestroy (.timer τ)) ∉ m.kernel.log
  destroys : ∀ label, m.begins label = some (.eventDestroy (.timer τ)) → m.current = t

section Hears

variable {τ : Nat} {t : Tid} {lk lk' : Kernel} {m : Machine} {ok : Machine → Label → Prop}
  {objects : Objects} {timeout : LkTime} {reschedule : Bool} {after : Int → List Frame}

theorem Happening.unheard_of_not_concerns {b : Bool} (h : Happening)
    (hc : ¬ h.concerns (.event (.timer τ))) : h.unheard τ t b = b := by
  cases h with
  | ret u op atOnce r =>
    cases op <;> simp_all [Happening.unheard, Happening.concerns, Op.on]
  | signal e signaled => simp_all [Happening.unheard, Happening.concerns, Happening.queue]
  | _ => rfl

/-- Once signaled, it is heard of by a return only. -/
theorem Happening.unheard_of_mem {l : List Happening} {b : Bool}
    (hl : b = true ∨ ∃ signaled, .signal (.timer τ) signaled ∈ l)
    (hret : ∀ timeout atOnce r, .ret t (.eventWait (.timer τ) timeout) atOnce r ∉ l) :
    l.foldl (Happening.unheard τ t) b = true := by
  induction l generalizing b with
  | nil => simpa using hl
  | cons x l ih =>
    refine ih ?_ fun timeout atOnce r hr => hret timeout atOnce r (List.mem_cons_of_mem x hr)
    rcases hl with rfl | ⟨signaled, hs⟩
    · refine .inl ?_
      cases x with
      | signal e signaled => simp [Happening.unheard]
      | ret u op atOnce r =>
        cases op with
        | eventWait e timeout =>
          simp only [Happening.unheard, ite_eq_right_iff, Bool.false_eq_true, imp_false]
          rintro ⟨rfl, rfl⟩
          exact hret timeout atOnce r List.mem_cons_self
        | _ => rfl
      | _ => rfl
    · rcases List.mem_cons.mp hs with rfl | hs
      · exact .inl (by simp [Happening.unheard])
      · exact .inr ⟨signaled, hs⟩

theorem Kernel.Hears.elsewhere (he : Kernel.Elsewhere (.event (.timer τ)) lk lk')
    (h : lk.Hears τ t) : lk'.Hears τ t := by
  obtain ⟨l, hl, hcon⟩ := he.log
  have hfold : ∀ b, l.foldl (Happening.unheard τ t) b = b := by
    intro b
    exact (List.foldl_ext _ (fun b _ => b) b fun b x hx =>
      x.unheard_of_not_concerns (hcon x hx)).trans (List.foldl_fixed l)
  refine ⟨by rw [he.event _ rfl, he.wait]; exact h.waiting, fun hunheard => ?_⟩
  rw [hl, List.foldl_append, hfold] at hunheard
  obtain ⟨hlist, hwhy⟩ := h.unheard hunheard
  rw [he.event _ rfl, he.wait]
  refine ⟨hlist, hwhy.imp id (Or.imp ?_ ?_)⟩
  · rintro ⟨timeout, ht⟩
    exact ⟨timeout, (he.doing t _ rfl).mpr ht⟩
  · intro ht
    rw [hl]
    exact List.mem_append_left l ht

theorem Kernel.Hears.same (hs : lk.SameEvent (.timer τ) lk') (h : lk.Hears τ t) :
    lk'.Hears τ t := by
  refine ⟨by rw [hs.event, hs.list]; exact h.waiting, ?_⟩
  rw [hs.event, hs.list, hs.doing, hs.log]
  exact h.unheard

theorem Kernel.Hears.begins {c : Tid} {op : Op} (h : lk.Hears τ t) (hdoing : lk.doing c = none) :
    (lk.begins c op).Hears τ t := by
  refine ⟨h.waiting, fun hunheard => ?_⟩
  have hfold : (lk.begins c op).log.foldl (Happening.unheard τ t) false =
      lk.log.foldl (Happening.unheard τ t) false := by
    simp [Kernel.begins, Kernel.note, Happening.unheard]
  obtain ⟨hlist, hwhy⟩ := h.unheard (hfold ▸ hunheard)
  refine ⟨hlist, hwhy.imp id (Or.imp ?_ ?_)⟩
  · rintro ⟨timeout, ht⟩
    have hc : t ≠ c := by
      rintro rfl
      rw [hdoing] at ht
      cases ht
    exact ⟨timeout, by simpa [Kernel.begins, Kernel.note, hc] using ht⟩
  · exact fun ht => List.mem_append_left _ ht

theorem Kernel.Hears.ends {c : Tid} {op : Op} {b : Bool} {r : Int} {frames : List Frame}
    (h : lk.Hears τ t) (hdoing : lk.doing c = some op)
    (hop : ∀ timeout, op ≠ .eventWait (.timer τ) timeout) :
    (lk.ends c op b r frames).Hears τ t := by
  have hret : ∀ b', (Happening.ret c op b r).unheard τ t b' = b' := by
    intro b'
    cases op with
    | eventWait e timeout =>
      simp only [Happening.unheard, ite_eq_right_iff]
      rintro ⟨-, rfl⟩
      exact absurd rfl (hop timeout)
    | _ => rfl
  refine ⟨h.waiting, fun hunheard => ?_⟩
  have hfold : (lk.ends c op b r frames).log.foldl (Happening.unheard τ t) false =
      lk.log.foldl (Happening.unheard τ t) false := by
    simp [Kernel.ends, Kernel.setFrames, Kernel.note, hret]
  obtain ⟨hlist, hwhy⟩ := h.unheard (hfold ▸ hunheard)
  refine ⟨hlist, hwhy.imp id (Or.imp ?_ ?_)⟩
  · rintro ⟨timeout, ht⟩
    have hc : t ≠ c := by
      rintro rfl
      rw [hdoing] at ht
      exact hop timeout (Option.some_inj.mp ht)
    exact ⟨timeout, by simpa [Kernel.ends, Kernel.setFrames, Kernel.note, hc] using ht⟩
  · exact fun ht => List.mem_append_left _ ht

theorem Kernel.Hears.signals (h : lk.Hears τ t) (hsound : lk.Sound)
    (hsole : ∀ u ∈ (lk.wait (.event (.timer τ))).list, u = t)
    (hs : lk.Signals (.timer τ) lk') : lk'.Hears τ t := by
  obtain ⟨hdoing, signaled, list, released, hrule, his⟩ := hs
  have hwaiting := h.waiting
  have hnodup := hsound.wf.waitOnce (.event (.timer τ))
  have hqueued := hsound.tracked.queued (.event (.timer τ))
  generalize (lk.event (.timer τ)).signaled = signaled₀ at hrule hwaiting his
  generalize (lk.event (.timer τ)).autounsignal = autounsignal at hrule his
  generalize (lk.wait (.event (.timer τ))).list = list₀ at hrule hwaiting hnodup hqueued hsole
  suffices hend : (signaled = true → list = []) ∧ list = [] ∧ (signaled = true ∨
      ∃ timeout, lk.doing t = some (.eventWait (.timer τ) timeout)) by
    refine ⟨by rw [his.signaled, his.list]; exact hend.1, fun _ => ?_⟩
    rw [his.signaled, his.list, hdoing]
    exact ⟨hend.2.1, hend.2.2.imp id .inl⟩
  cases hrule with
  | already => exact ⟨hwaiting, hwaiting rfl, .inl rfl⟩
  | kept => exact ⟨fun _ => rfl, rfl, .inl rfl⟩
  | one u rest =>
    have hu : u = t := hsole u List.mem_cons_self
    have hrest : list = [] := by
      refine List.eq_nil_iff_forall_not_mem.mpr fun v hv => ?_
      have hv' : v = u := (hsole v (List.mem_cons_of_mem u hv)).trans hu.symm
      exact (List.nodup_cons.mp hnodup).1 (hv' ▸ hv)
    obtain ⟨op, hop, hon⟩ := hqueued u List.mem_cons_self
    obtain ⟨timeout, rfl⟩ := Op.eq_eventWait hon
    exact ⟨fun _ => hrest, hrest, .inr ⟨timeout, hu ▸ hop⟩⟩
  | all => exact ⟨fun _ => rfl, rfl, .inl rfl⟩

theorem Machine.begins_cases {label : Label} {op : Op} (h : m.begins label = some op) :
    (∃ f stack next, m.kernel.frames m.current = f :: stack ∧ f.instr = .section op next) ∨
      op = .threadPreempt ∨ (∃ τ, op = .eventSignal (.timer τ) true) ∨
        ∃ u, op = .threadUnblock u ERR_TIMED_OUT := by
  simp only [Machine.begins, Machine.begins_outside h] at h
  cases label with
  | run =>
    cases hframes : m.kernel.frames m.current with
    | nil => simp [hframes] at h
    | cons f stack =>
      rw [hframes, List.head?_cons, Option.bind_some, Frame.op?] at h
      cases hinstr : f.instr with
      | «section» op' next =>
        simp only [hinstr, Option.some.injEq] at h
        exact .inl ⟨f, stack, next, rfl, by rw [hinstr, h]⟩
      | act g next => simp [hinstr] at h
      | user => simp [hinstr] at h
  | call f | ret r => cases h
  | tick =>
    dsimp only at h
    split at h
    · exact .inr (.inl (Option.some_inj.mp h).symm)
    · cases h
  | preempt => exact .inr (.inl (Option.some_inj.mp h).symm)
  | lTimer τ => exact .inr (.inr (.inl ⟨τ, (Option.some_inj.mp h).symm⟩))
  | expire u => exact .inr (.inr (.inr ⟨u, (Option.some_inj.mp h).symm⟩))

theorem Machine.Run.hearing (hrun : Machine.Run ok (.boot objects) m)
    (ht : (m.kernel.threads t).entry = .timer τ) :
    Machine.Run (fun m label => ok m label ∧ m.Hearing τ t) (.boot objects) m := by
  refine hrun.through fun m₁ h h' => ?_
  obtain ⟨-, htimed⟩ := h.timed.kernel
  obtain ⟨-, hending⟩ := h.ending.kernel
  have hthread : ∀ u, (m₁.kernel.threads u).entry = .timer τ → u = t := fun u hu =>
    hrun.timed.kernel.2.single u t τ (h.entry h' hu) ht
  have hframe : ∀ label op, m₁.begins label = some op →
      ((∃ timeout, op = .eventWait (.timer τ) timeout) ∨ op = .eventDestroy (.timer τ)) →
      ∃ f stack next, m₁.kernel.frames m₁.current = f :: stack ∧ f.instr = .section op next ∧
        f.ofTimer = some τ ∧ m₁.current = t := by
    intro label op hbegins hop
    rcases Machine.begins_cases hbegins with ⟨f, stack, next, hframes, hinstr⟩ | hop' | ⟨τ', hop'⟩ |
      ⟨u, hop'⟩
    · have hmem : f ∈ m₁.kernel.frames m₁.current := by simp [hframes]
      have hf := Frame.section_wait hinstr (htimed.lawful _ f hmem) hop
      exact ⟨f, stack, next, hframes, hinstr, hf, hthread _ (htimed.owned _ τ f hmem hf)⟩
    all_goals
      subst hop'
      rcases hop with ⟨timeout, hop⟩ | hop <;> cases hop
  refine ⟨fun u hu => hthread u (h.timer_waits hu), fun hmem => ?_, fun label timeout hbegins => ?_,
    fun label hbegins => ?_⟩
  · have hlawful := htimed.lawful _ _ hmem
    cases hlawful
  · obtain ⟨f, stack, next, hframes, hinstr, hf, hc⟩ := hframe label _ hbegins (.inl ⟨_, rfl⟩)
    have hnext : f = .timerWait τ ∧ timeout = INFINITE_TIME := by
      cases f <;> cases hinstr <;> first | exact ⟨rfl, rfl⟩ | cases hf
    obtain ⟨rfl, rfl⟩ := hnext
    refine ⟨hc, by decide, fun hcalled => ?_⟩
    have hends := hending.behind t τ hcalled (.timerWait τ) (by rw [← hc, hframes]; simp) rfl
    cases hends
  · obtain ⟨f, stack, next, -, -, -, hc⟩ := hframe label _ hbegins (.inr rfl)
    exact hc

theorem eventSignal_hears {frames : List Frame}
    (h : m.Opens (.eventSignal (.timer τ) reschedule) lk)
    (hsole : ∀ u ∈ (lk.wait (.event (.timer τ))).list, u = t) (hlk : lk.Hears τ t) :
    ((perform (.eventSignal (.timer τ) reschedule)).run
      (lk.begins m.current (.eventSignal (.timer τ) reschedule))).Wp
      (fun s => Turn m.current (.eventSignal (.timer τ) reschedule) frames s ∧ s.Sound)
      (Kernel.Hears τ t)
      (fun b r lk' => (lk'.ends m.current (.eventSignal (.timer τ) reschedule) b r
        (after r)).Hears τ t) true := by
  have hsignals : ∀ lk', (lk.begins m.current (.eventSignal (.timer τ) reschedule)).Signals
      (.timer τ) lk' → lk'.Hears τ t := fun lk' hs =>
    (hlk.begins h.free).signals h.begins hsole hs
  have hend : ∀ (b state : Bool) (r : Int) (lk' : Kernel), lk'.Hears τ t →
      lk'.doing m.current = some (.eventSignal (.timer τ) reschedule) →
      ((lk'.unlock state).ends m.current (.eventSignal (.timer τ) reschedule) b r
        (after r)).Hears τ t := by
    intro b state r lk' hj hdoing
    have hj' : (lk'.unlock state).Hears τ t := ⟨hj.waiting, hj.unheard⟩
    exact hj'.ends hdoing (by simp)
  refine eventSignal_wp reschedule h.begins.wf hsignals (fun state lk' hs => ?_)
    fun state lk' ht hj => ?_
  · refine hend true state NO_ERROR lk' (hsignals lk' hs) ?_
    rw [hs.1]
    simp [Kernel.begins]
  · exact hend false state NO_ERROR lk' hj ht.1.doing

theorem Kernel.Hears.returns {b : Bool} {r : Int} {frames : List Frame}
    (h : (lk.event (.timer τ)).signaled = true → (lk.wait (.event (.timer τ))).list = []) :
    (lk.ends t (.eventWait (.timer τ) timeout) b r frames).Hears τ t := by
  refine ⟨h, fun hunheard => ?_⟩
  simp [Kernel.ends, Kernel.setFrames, Kernel.note, Happening.unheard] at hunheard

theorem eventWait_hears {T : Kernel → Prop} (h : m.Opens (.eventWait (.timer τ) timeout) lk)
    (htimeout : timeout ≠ 0) (hc : m.current = t)
    (hcalled : .call t (.eventDestroy (.timer τ)) ∉ lk.log) (hlk : lk.Hears τ t) :
    ((perform (.eventWait (.timer τ) timeout)).run
      (lk.begins m.current (.eventWait (.timer τ) timeout))).Wp T (Kernel.Hears τ t)
      (fun b r lk' => (lk'.ends m.current (.eventWait (.timer τ) timeout) b r
        (after r)).Hears τ t) true := by
  subst hc
  have hcurrent : (lk.begins m.current (.eventWait (.timer τ) timeout)).currentThread =
      m.current := h.current
  refine eventWait_wp h.begins.wf (by rw [hcurrent]; exact h.notIdle rfl) htimeout
    (fun hsignaled state lk' his => ?_) (fun hsignaled lk' his => ?_)
    fun _ state r lk' lk'' _ hj hd => ?_
  · refine .returns fun _ => ?_
    exact his.list.trans (hlk.waiting hsignaled)
  · refine ⟨fun hs => ?_, fun hunheard => ?_⟩
    · rw [his.signaled] at hs
      cases hs
    · have hfold : lk'.log.foldl (Happening.unheard τ m.current) false =
          lk.log.foldl (Happening.unheard τ m.current) false := by
        rw [his.log]
        simp [Kernel.begins, Kernel.note, Happening.unheard]
      -- the thread that comes to wait is in no operation
      obtain ⟨-, hs | ⟨timeout', hdoing⟩ | hdestroyed⟩ := hlk.unheard (hfold ▸ hunheard)
      · exact absurd (hsignaled.symm.trans hs) (by simp)
      · rw [h.free] at hdoing
        cases hdoing
      · exact absurd hdestroyed hcalled
  · exact .returns (hj.same (.dispatched hd)).waiting

theorem eventDestroy_hears {frames : List Frame} (h : m.Opens (.eventDestroy (.timer τ)) lk)
    (hc : m.current = t) :
    ((perform (.eventDestroy (.timer τ))).run
      (lk.begins m.current (.eventDestroy (.timer τ)))).Wp
      (fun s => Turn m.current (.eventDestroy (.timer τ)) frames s ∧ s.Sound) (Kernel.Hears τ t)
      (fun b r lk' => (lk'.ends m.current (.eventDestroy (.timer τ)) b r (after r)).Hears τ t)
      true := by
  have hdestroys : ∀ lk', (lk.begins m.current (.eventDestroy (.timer τ))).Destroys (.timer τ) lk' →
      lk'.Hears τ t := by
    intro lk' hd
    refine ⟨fun _ => hd.list, fun _ => ⟨hd.list, .inr (.inr ?_)⟩⟩
    rw [hd.log, hc]
    simp [Kernel.begins, Kernel.note]
  refine eventDestroy_wp h.begins.wf hdestroys (fun lk' hd => (hdestroys lk' hd).ends ?_ (by simp))
    fun lk' lk'' ht hj hs => (hj.same hs).ends ?_ (by simp)
  · rw [hd.doing]
    simp [Kernel.begins]
  · rw [hs.doing]
    exact ht.1.doing

/-- In every run the signals of the event of a timer are heard of. -/
theorem Machine.Run.hears
    (hrun : Machine.Run (fun m label => m.Minds (.event (.timer τ)) label) (.boot objects) m)
    (ht : (m.kernel.threads t).entry = .timer τ) : m.Keeping (Kernel.Hears τ t) := by
  refine (hrun.hearing ht).object (q := .event (.timer τ))
    (Machine.boot_keeping objects fun _ _ _ _ => ⟨fun hs => ?_, fun hs => ?_⟩) (by simp)
    (fun _ _ he hj => hj.elsewhere he) (fun _ _ hok => hok.1) ?_ ?_
  · cases hs
  · cases hs
  · intro m label e hok he hmem
    cases he
    exact absurd hmem hok.2.kept
  · rintro m label lk op frames after ⟨-, hhearing⟩ hbegins hon hopens hlk
    have hsole : ∀ u ∈ (lk.wait (.event (.timer τ))).list, u = t := by
      rw [hopens.quiet.wait]
      exact hhearing.sole
    cases op with
    | eventWait e timeout =>
      cases hon
      obtain ⟨hc, htimeout, hcalled⟩ := hhearing.waits label timeout hbegins
      exact eventWait_hears hopens htimeout hc (by rw [hopens.log]; exact hcalled) hlk
    | eventSignal e reschedule =>
      cases hon
      exact eventSignal_hears hopens hsole hlk
    | eventDestroy e =>
      cases hon
      exact eventDestroy_hears hopens (hhearing.destroys label hbegins)
    | _ => cases hon

theorem Machine.Step.log {J : Kernel → Prop} {m' : Machine} {label : Label}
    (h : m.Step label m') (hm : m.Keeping J) : m.kernel.log <+: m'.kernel.log := by
  have hsettle : ∀ (lk : Kernel) op after b (x : Susp Kernel Int),
      m.kernel.log <+: lk.log →
      x.Moves (fun lk => lk.currentThread = m.current) (Kernel.Changes m.current op) lk →
      m.kernel.log <+: (m.settle m.current op after b x).kernel.log := by
    intro lk op after b x hlk hmoves
    cases x with
    | done r lk' =>
      obtain ⟨l, hl, -⟩ := Kernel.Changes.log hmoves.1
      exact hlk.trans ⟨l ++ [.ret m.current op b r], by
        simp [Machine.settle, Kernel.ends, Kernel.setFrames, Kernel.note, hl]⟩
    | switch lk' k =>
      obtain ⟨l, hl, -⟩ := Kernel.Changes.log hmoves.1
      exact hlk.trans ⟨l, hl.symm⟩
  cases h with
  | aside hcode ha =>
    rcases ha.quiet with hq | ⟨e, -, hq⟩
    · obtain ⟨l, hl, -⟩ := hq.log
      exact ⟨l, hl.symm⟩
    · obtain ⟨l, hl, -⟩ := hq.log
      refine ⟨[.unsignal e (m.kernel.event e).signaled] ++ l, ?_⟩
      rw [Machine.aside, hl, Kernel.eventUnsignal, Kernel.useEvent_eq]
      simp [Kernel.setEvent, Kernel.note]
  | @enter lk f stack op next hcode hg hframes hinstr hbegins =>
    have hcurrent : (lk.begins m.current op).currentThread = m.current := hg.quiet.currentThread
    refine hsettle _ op _ _ _ ⟨[.call m.current op], ?_⟩ (perform_changing _ _ _ hcurrent)
    rw [← hg.log]
    rfl
  | @resume k f stack op next hcode hframes hinstr =>
    obtain ⟨f', stack', op', next', hframes', hinstr', -, hmoves, -⟩ := hm.inside _ k hcode
    rw [hframes] at hframes'
    cases hframes'
    rw [hinstr] at hinstr'
    cases hinstr'
    exact hsettle _ _ _ _ _ List.prefix_rfl (hmoves _ rfl)

theorem Machine.Run.log {m₀ : Machine} (h : Machine.Run ok (.boot objects) m₀)
    (hrun : Machine.Run ok m₀ m) : m₀.kernel.log <+: m.kernel.log := by
  induction hrun with
  | nil => exact List.prefix_rfl
  | snoc hrun _ hstep ih => exact ih.trans ((Machine.step_cases hstep).log (h.trans hrun).timed)

theorem Machine.lTimer_begins {m' : Machine} (hstep : m.step (.lTimer τ) = some m') :
    m.begins (.lTimer τ) = some (.eventSignal (.timer τ) true) := by
  unfold Machine.step at hstep
  cases hcode : m.code m.current with
  | outside => simp [Machine.begins, hcode]
  | _ => simp [hcode] at hstep

theorem Machine.minds_lTimer {q : Wq} {m' : Machine} (hstep : m.step (.lTimer τ) = some m') :
    m.Minds q (.lTimer τ) := by
  intro op hop u hu
  rw [Machine.lTimer_begins hstep] at hop
  cases hop
  cases hu

theorem Machine.step_lTimer {m' : Machine} (hsound : m.kernel.Sound)
    (hstep : m.step (.lTimer τ) = some m') :
    ∃ l signaled, m.kernel.log ++ l = m'.kernel.log ∧ .signal (.timer τ) signaled ∈ l := by
  obtain ⟨lk, henters⟩ := Machine.step_enters hsound (Machine.lTimer_begins hstep) hstep
  obtain ⟨l, hl, -⟩ := henters.quiet.log
  have hsignals : ∀ lk', (lk.begins m.current (.eventSignal (.timer τ) true)).Signals (.timer τ)
      lk' → ∃ l signaled, m.kernel.log ++ l = lk'.log ∧ .signal (.timer τ) signaled ∈ l := by
    rintro lk' ⟨-, signaled, list, released, -, his⟩
    refine ⟨l ++ [.call m.current (.eventSignal (.timer τ) true)] ++ [.signal (.timer τ)
      (lk.event (.timer τ)).signaled] ++ released.map fun t => .wake (.event (.timer τ)) t NO_ERROR,
        (lk.event (.timer τ)).signaled, ?_, by simp⟩
    rw [his.log, Kernel.begins, Kernel.note, hl]
    simp
  obtain ⟨after, rfl⟩ := henters.settle
  have hwp := eventSignal_wp (T := fun _ => False) true henters.wf hsignals
    (Q := fun _ _ lk' => ∃ l signaled, m.kernel.log ++ l = lk'.log ∧
      .signal (.timer τ) signaled ∈ l)
    (fun state lk' hs => hsignals lk' hs) fun _ _ ht => ht.elim
  rcases m.settle_wp m.current (.eventSignal (.timer τ) true) after hwp with
    hj | ⟨r, lk', ⟨l', signaled, hl', hmem⟩, heq⟩
  · exact hj
  · rw [heq]
    refine ⟨l' ++ [.ret m.current (.eventSignal (.timer τ) true) true r], signaled, ?_,
      List.mem_append_left _ hmem⟩
    rw [← List.append_assoc, hl']
    rfl

/-- After `LTimerCallback` the thread of the timer waits only when it has returned from a wait. -/
theorem Machine.Run.heard {m₀ m₁ : Machine}
    (h : Machine.Run (fun m label => m.Minds (.event (.timer τ)) label) (.boot objects) m₀)
    (hstep : m₀.step (.lTimer τ) = some m₁)
    (hrun : Machine.Run (fun m label => m.Minds (.event (.timer τ)) label) m₁ m)
    (ht : (m.kernel.threads t).entry = .timer τ)
    (hwaits : t ∈ (m.kernel.wait (.event (.timer τ))).list) : ∃ timeout atOnce r,
    .ret t (.eventWait (.timer τ) timeout) atOnce r ∈ m.kernel.log.drop m₀.kernel.log.length := by
  obtain ⟨l, signaled, hl, hmem⟩ := Machine.step_lTimer h.sound hstep
  have hminds := h.snoc (Machine.minds_lTimer hstep) hstep
  have hall := hminds.trans hrun
  obtain ⟨l', hl'⟩ := hminds.log hrun
  obtain ⟨-, hhears⟩ := (hall.hears ht).kernel
  rw [← hl', ← hl, List.append_assoc, List.drop_left]
  by_contra hnone
  have hunheard : m.kernel.log.foldl (Happening.unheard τ t) false = true := by
    rw [← hl', ← hl, List.append_assoc, List.foldl_append]
    refine Happening.unheard_of_mem (.inr ⟨signaled, List.mem_append_left l' hmem⟩) ?_
    exact fun timeout atOnce r hr => hnone ⟨timeout, atOnce, r, hr⟩
  have hnil := (hhears.unheard hunheard).1
  rw [hnil] at hwaits
  cases hwaits

end Hears

section Kept

variable {autounsignal initial : Bool} {e : EventId} {m m' : Machine} {label : Label}

theorem Machine.boot_tallying (objects : Objects) (e : EventId) :
    (Machine.boot objects).Keeping (Kernel.Tallying ((Kernel.start objects).event e).autounsignal
      ((Kernel.start objects).event e).signaled e) :=
  Machine.boot_keeping objects fun _ _ _ _ => ⟨rfl, .start _⟩

/-- In every run that waits for an event, signals it and clears it: nobody is blocked on it while
it is signaled; with `EVENT_FLAG_AUTOUNSIGNAL` the waits that were granted, the signal that is left
and those that were cleared are as many as there were; without it the event is signaled from a
signal to `event_unsignal`; who has waited longest is let go first; and every signal and every wait
is according to the rules. After `LTimerCallback` the thread of the timer is not blocked in
`event_wait` until it has returned from it. -/
theorem event_signals_kept (objects : Objects) :
    (∀ e m, Machine.Run (Machine.EventOnly e) (.boot objects) m →
      ((m.kernel.event e).signaled = true → ∀ t, (m.kernel.threads t).state = .blocked →
        (m.kernel.threads t).blockingWaitQueue ≠ some (.event e)) ∧
      ((m.kernel.event e).autounsignal = true →
        m.kernel.log.countP (Happening.passes e) + (m.kernel.event e).signaled.toNat +
          m.kernel.log.countP (Happening.clears e) =
        ((Kernel.start objects).event e).signaled.toNat +
          m.kernel.log.countP (Happening.raises e)) ∧
      ((m.kernel.event e).autounsignal = false → (m.kernel.event e).signaled =
        m.kernel.log.foldl (Happening.flag e) ((Kernel.start objects).event e).signaled) ∧
      m.kernel.log.filterMap (Happening.blocks (.event e)) =
        m.kernel.released (.event e) ++ (m.kernel.wait (.event e)).list ∧
      ∀ label m', m.step label = some m' →
        (∀ reschedule, m.begins label = some (.eventSignal e reschedule) → ∃ released,
          SignalRule (m.kernel.event e).autounsignal (m.kernel.event e).signaled
            (m.kernel.wait (.event e)).list (m'.kernel.event e).signaled
              (m'.kernel.wait (.event e)).list released ∧
          m'.kernel.released (.event e) = m.kernel.released (.event e) ++ released) ∧
        (m.begins label = some (.eventWait e INFINITE_TIME) → ∃ x,
          WaitRule m.current e INFINITE_TIME (m.kernel.event e).autounsignal
            (m.kernel.event e).signaled (m.kernel.wait (.event e)).list
              (m'.kernel.event e).signaled (m'.kernel.wait (.event e)).list x ∧
          m'.kernel.log.getLast? = some x)) ∧
    ∀ τ t m₀ m₁ m,
      Machine.Run (fun m label => m.Minds (.event (.timer τ)) label) (.boot objects) m₀ →
      m₀.step (.lTimer τ) = some m₁ →
      Machine.Run (fun m label => m.Minds (.event (.timer τ)) label) m₁ m →
      (m.kernel.threads t).entry = .timer τ → (m.kernel.threads t).state = .blocked →
      (m.kernel.threads t).blockingWaitQueue = some (.event (.timer τ)) →
      ∃ timeout atOnce r, .ret t (.eventWait (.timer τ) timeout) atOnce r ∈
        m.kernel.log.drop m₀.kernel.log.length := by
  refine ⟨fun e m hrun => ?_, fun τ t m₀ m₁ m h hstep hrun ht hblocked hqueue => ?_⟩
  · obtain ⟨hsound, hauto, hwaiting, hsignals, hflag, horder⟩ :=
      (hrun.tallying (Machine.boot_tallying objects e)).kernel
    refine ⟨fun hsignaled t hblocked hqueue => ?_, fun h => hsignals (hauto ▸ h),
      fun h => hflag (hauto ▸ h), horder, fun label m' hstep => ⟨fun reschedule hbegins =>
        Machine.step_signals hsound hbegins hstep, fun hbegins =>
          Machine.step_waits hsound (by decide) hbegins hstep⟩⟩
    have hmem := (hsound.wf.blocked _ t).mpr ⟨Set.notMem_empty t, hblocked, hqueue⟩
    rw [hwaiting hsignaled] at hmem
    cases hmem
  · have hsound := ((h.snoc (Machine.minds_lTimer hstep) hstep).trans hrun).sound
    exact h.heard hstep hrun ht
      ((hsound.wf.blocked _ t).mpr ⟨Set.notMem_empty t, hblocked, hqueue⟩)

/-- The bootstrap thread makes another, which waits for an event, and is let go; and the thread of
a timer waits again after a callback. -/
theorem event_signals_kept_waking :
    (∃ (m m' : Machine) (released : List Tid),
      Machine.Run (Machine.EventOnly (.host 1)) (.boot .assorted) m ∧
      m.step .run = some m' ∧ (m.kernel.wait (.event (.host 1))).list = [2] ∧
      SignalRule true false [2] false [] released ∧
      m'.kernel.released (.event (.host 1)) = m.kernel.released (.event (.host 1)) ++ released) ∧
    ∃ m₀ m₁ m : Machine, m₀.step (.lTimer 0) = some m₁ ∧
      Machine.Run (fun m label => m.Minds (.event (.timer 0)) label) m₁ m ∧
      (m.kernel.threads 2).state = .blocked ∧
      ∃ timeout atOnce r, .ret 2 (.eventWait (.timer 0) timeout) atOnce r ∈
        m.kernel.log.drop m₀.kernel.log.length := by
  obtain ⟨hevents, htimers⟩ := event_signals_kept .assorted
  constructor
  · have hresult : ((Machine.boot .assorted).after (Machine.EventOnly (.host 1))
        [.call .lklThreadCreate, .run, .run, .run, .run,
          .call (.op (.eventWait (.host 1) INFINITE_TIME)), .run, .run,
          .call (.op (.eventSignal (.host 1) true))]).bind (fun m => (m.step .run).map fun m' =>
        (m.begins .run, m.kernel.event (.host 1), (m.kernel.wait (.event (.host 1))).list,
          m'.kernel.event (.host 1), (m'.kernel.wait (.event (.host 1))).list)) =
        some (some (.eventSignal (.host 1) true), ⟨true, false, true⟩, [2], ⟨true, false, true⟩,
          []) := by decide +kernel
    obtain ⟨m, hm, hresult⟩ := Option.bind_eq_some_iff.mp hresult
    obtain ⟨m', hstep, hresult⟩ := Option.map_eq_some_iff.mp hresult
    simp only [Prod.mk.injEq] at hresult
    obtain ⟨hbegins, hevent, hlist, hevent', hlist'⟩ := hresult
    have hrun : Machine.Run (Machine.EventOnly (.host 1)) (.boot .assorted) m :=
      (Machine.Run.nil _).after hm
    obtain ⟨-, -, -, -, hsteps⟩ := hevents _ m hrun
    obtain ⟨released, hrule, hreleased⟩ := (hsteps .run m' hstep).1 true hbegins
    rw [hevent, hlist, hevent', hlist'] at hrule
    exact ⟨m, m', released, hrun, hstep, hlist, hrule, hreleased⟩
  · have hresult : ((Machine.boot .assorted).after
        (fun m label => m.Minds (.event (.timer 0)) label)
        [.call .timerAlloc, .run, .run, .run, .run, .run, .run, .run, .run, .run]).bind (fun m₀ =>
        (m₀.step (.lTimer 0)).bind fun m₁ =>
        (m₁.after (fun m label => m.Minds (.event (.timer 0)) label)
          [.run, .run, .run, .ret 0, .run, .run]).map fun m => ((m.kernel.threads 2).entry,
            (m.kernel.threads 2).state, (m.kernel.threads 2).blockingWaitQueue)) =
        some (.timer 0, .blocked, some (.event (.timer 0))) := by decide +kernel
    obtain ⟨m₀, hm₀, hresult⟩ := Option.bind_eq_some_iff.mp hresult
    obtain ⟨m₁, hstep, hresult⟩ := Option.bind_eq_some_iff.mp hresult
    obtain ⟨m, hm, hresult⟩ := Option.map_eq_some_iff.mp hresult
    simp only [Prod.mk.injEq] at hresult
    obtain ⟨hentry, hblocked, hqueue⟩ := hresult
    have hrun : Machine.Run (fun m label => m.Minds (.event (.timer 0)) label) m₁ m :=
      (Machine.Run.nil _).after hm
    exact ⟨m₀, m₁, m, hstep, hrun, hblocked, htimers 0 2 m₀ m₁ m ((Machine.Run.nil _).after hm₀)
      hstep hrun hentry hblocked hqueue⟩

end Kept

end UefiLkl.Lk
