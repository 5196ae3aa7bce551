import UefiLkl.Lk.Lists
set_option autoImplicit false

/-!
What every operation does to the queues is made of calls of `list.h`, and so is what a run does
to them.
-/

namespace UefiLkl.Lk
open Coroutine LinkedRing

/-- The queues of the one come from those of the other by such calls. -/
def Kernel.Relinked (lk lk' : Kernel) : Prop := ∃ calls, lk.Calls calls lk'

/-- Thread `c` runs, and the queues are in order. -/
def Kernel.Ordered (c : Tid) (lk : Kernel) : Prop := lk.currentThread = c ∧ lk.Wf

def Relinking (c : Tid) {α : Type} (x : Section Kernel α) : Prop :=
  x.Moves (Kernel.Ordered c) Kernel.Relinked

section Relinked

variable {lk lk' lk'' : Kernel} {t : Tid} {q : Wq} {run : Option Tid} {between : Set Tid}

theorem Kernel.Relinked.refl (lk : Kernel) : lk.Relinked lk := ⟨[], .nil lk⟩

theorem Kernel.Relinked.snoc {calls : List ListCall} (h : lk.Relinked lk')
    (hcall : lk'.Call calls lk'') : lk.Relinked lk'' := by
  obtain ⟨before, hbefore⟩ := h
  exact ⟨_, hbefore.snoc hcall⟩

theorem Kernel.Relinked.trans (h : lk.Relinked lk') (h' : lk'.Relinked lk'') :
    lk.Relinked lk'' := by
  obtain ⟨calls, hcalls⟩ := h'
  induction hcalls with
  | nil => exact h
  | snoc _ hmore ih => exact ih.snoc hmore

theorem Kernel.Relinked.still (hrun : lk'.runQueue = lk.runQueue)
    (hwait : ∀ q, (lk'.wait q).list = (lk.wait q).list) (hnext : lk'.nextTid = lk.nextTid) :
    lk.Relinked lk' :=
  (Kernel.Relinked.refl lk).snoc (.still (Kernel.list_eq hrun hwait) hnext)

theorem Kernel.Relinked.lock (lk : Kernel) : lk.Relinked lk.lock :=
  .still rfl (fun _ => rfl) rfl

theorem Kernel.Placed.off_between (h : lk.Placed run between) (ht : t ∈ between) : lk.Off t := by
  intro l hmem
  cases l with
  | run p => exact ((h.ready p t).mp hmem).1 ht
  | wait q => exact ((h.blocked q t).mp hmem).1 ht

theorem Kernel.Placed.off (h : lk.Placed run between) (hready : (lk.threads t).state ≠ .ready)
    (hblocked : (lk.threads t).state ≠ .blocked) : lk.Off t := by
  intro l hmem
  cases l with
  | run p => exact hready ((h.ready p t).mp hmem).2.1
  | wait q => exact hblocked ((h.blocked q t).mp hmem).2.1

theorem Kernel.Wf.current_running (h : lk.Wf) : (lk.threads lk.currentThread).state = .running :=
  (Queues.running h lk.currentThread (Set.notMem_empty _)).mpr rfl

theorem Kernel.Relinked.insertHead (h : lk.Relinked lk') (hplaced : lk'.Placed run between)
    (ht : t ∈ between) (hready : (lk'.threads t).state = .ready) :
    lk.Relinked (lk'.insertInRunQueueHead t) :=
  h.snoc (.insertHead lk' t hready (hplaced.off_between ht)
    (hplaced.lt_nextTid (by rw [hready]; decide)))

theorem Kernel.Relinked.insertTail (h : lk.Relinked lk') (hplaced : lk'.Placed run between)
    (ht : t ∈ between) (hready : (lk'.threads t).state = .ready) :
    lk.Relinked (lk'.insertInRunQueueTail t) :=
  h.snoc (.insertTail lk' t hready (hplaced.off_between ht)
    (hplaced.lt_nextTid (by rw [hready]; decide)))

theorem Kernel.Relinked.readyHead (h : lk.Relinked lk') (hplaced : lk'.Placed (some t) between)
    (ht : t ∉ between) : lk.Relinked ((lk'.setState t .ready).insertInRunQueueHead t) := by
  have hlift : (lk'.setState t .ready).Placed none (insert t between) :=
    Queues.lift hplaced _ ht (fun _ => rfl) rfl
  refine Kernel.Relinked.insertHead ?_ hlift (Set.mem_insert t between) ?_
  · exact h.trans (.still rfl (fun _ => rfl) rfl)
  · simp [Kernel.setState, Kernel.setThread]

theorem Kernel.Relinked.requeue (h : lk.Relinked lk') (hwf : lk'.Wf) {f : Thread → Thread}
    (hstate : (f (lk'.threads lk'.currentThread)).state = .ready)
    (hflag : (f (lk'.threads lk'.currentThread)).idle =
      (lk'.threads lk'.currentThread).idle) :
    lk.Relinked ((lk'.setThread lk'.currentThread f).insertInRunQueueHead lk'.currentThread) ∧
      lk.Relinked ((lk'.setThread lk'.currentThread f).insertInRunQueueTail
        lk'.currentThread) := by
  have hlift : (lk'.setThread lk'.currentThread f).Placed none (insert lk'.currentThread ∅) :=
    Queues.lift hwf _ (Set.notMem_empty _) (fun _ => hstate) hflag
  have hready : ((lk'.setThread lk'.currentThread f).threads lk'.currentThread).state =
      .ready := by rw [Kernel.setThread_self, hstate]
  have hset : lk.Relinked (lk'.setThread lk'.currentThread f) :=
    h.trans (.still rfl (fun _ => rfl) rfl)
  exact ⟨hset.insertHead hlift (Set.mem_insert _ _) hready,
    hset.insertTail hlift (Set.mem_insert _ _) hready⟩

theorem Kernel.Relinked.wakeHead {rest : List Tid} (h : lk.Relinked lk')
    (hplaced : lk'.Placed run between) (err : Status) (hlist : (lk'.wait q).list = t :: rest) :
    lk.Relinked (lk'.dequeue q rest t err) :=
  h.snoc (.dequeue lk' q t rest err hlist ((hplaced.blocked q t).mp (by simp [hlist])).2.1)

theorem Kernel.Relinked.popAll {list : List Tid} (h : lk.Relinked lk')
    (hplaced : lk'.Placed run between) (err : Status) (hlist : (lk'.wait q).list = list)
    (hrun : ∀ t ∈ list, run ≠ some t) (hq : .wait q ∈ lk'.heads) :
    lk.Relinked (Kernel.popAll q err list lk') := by
  induction list generalizing lk' with
  | nil => exact h.snoc (.empty lk' q hlist hq)
  | cons t rest ih =>
    have hmem : t ∈ (lk'.wait q).list := by simp [hlist]
    have hwake := hplaced.wake err hmem (.of_eq hlist)
    refine ih ((h.wakeHead hplaced err hlist).insertHead hwake (Set.mem_insert t between)
      Kernel.dequeue_ready) ?_ ?_ (fun u hu => hrun u (List.mem_cons_of_mem t hu)) hq
    · exact hplaced.wakeHead err hmem (.of_eq hlist) (hrun t List.mem_cons_self)
    · simp [Kernel.insertInRunQueueHead, Kernel.dequeue, Kernel.note, Kernel.setThread,
        Kernel.setWait]

theorem Kernel.Relinked.pick (h : lk.Relinked lk') : lk.Relinked lk'.getTopThread.2 := by
  rcases lk'.scan_spec (List.finRange 32).reverse with ⟨heq, -⟩ | ⟨p, ts, hlist, -, heq⟩
  · unfold Kernel.getTopThread
    rw [heq]
    exact h
  · refine h.snoc (.pick lk' p _ ts hlist rfl (Kernel.list_run ?_ ?_)) <;>
      · unfold Kernel.getTopThread
        rw [heq]

/-- The next thread is chosen when the running one has its place. -/
theorem threadResched_relinks {c : Tid} (h : lk.Relinked lk') (hplaced : lk'.Placed none ∅)
    (hc : lk'.currentThread = c) :
    (threadResched.run lk').Moves (Kernel.Ordered c) Kernel.Relinked lk := by
  subst hc
  have hwf := threadResched_wf (Q := fun _ s => s.currentThread = lk'.currentThread ∧ s.Wf)
    hplaced fun s hs hwf => ⟨hs, hwf⟩
  have hpick : lk.Relinked (lk'.getTopThread.2.setState lk'.getTopThread.1 .running) :=
    h.pick.trans (.still rfl (fun _ => rfl) rfl)
  simp only [threadResched] at hwf ⊢
  by_cases hsame : lk'.getTopThread.1 =
      (lk'.getTopThread.2.setState lk'.getTopThread.1 .running).currentThread
  · rw [if_pos hsame] at hwf ⊢
    exact ⟨hpick, hwf⟩
  · rw [if_neg hsame]
    refine ⟨hpick.trans ?_, fun s hs => ⟨.refl s, hs⟩⟩
    refine .still ?_ (fun _ => ?_) ?_ <;>
      · unfold Kernel.setUpQuantum
        split <;> rfl

end Relinked

section Rules

variable {c : Tid} {α β : Type}

theorem Relinking.bind {x : Section Kernel α} {f : α → Section Kernel β} (hx : Relinking c x)
    (hf : ∀ a, Relinking c (f a)) : Relinking c (x >>= f) :=
  Section.Moves.bind (F := Kernel.Relinked) (fun _ _ _ => Kernel.Relinked.trans) hx hf

theorem Relinking.pure (a : α) : Relinking c (Pure.pure a) :=
  Section.Moves.pure Kernel.Relinked.refl a

theorem Relinking.read (f : Kernel → α) : Relinking c (.read f) :=
  Section.Moves.read Kernel.Relinked.refl f

theorem Relinking.modify {f : Kernel → Kernel} (hkeeps : Keeps c (.modify f))
    (hrun : ∀ lk, (f lk).runQueue = lk.runQueue)
    (hwait : ∀ lk q, ((f lk).wait q).list = (lk.wait q).list)
    (hnext : ∀ lk, (f lk).nextTid = lk.nextTid) : Relinking c (.modify f) :=
  fun lk hlk => ⟨.still (hrun lk) (hwait lk) (hnext lk), hkeeps lk hlk.1 hlk.2⟩

theorem Relinking.ite {p : Prop} [Decidable p] {x y : Section Kernel α} (hx : Relinking c x)
    (hy : Relinking c y) : Relinking c (if p then x else y) := by
  split
  · exact hx
  · exact hy

theorem lockThreads_relinks : Relinking c lockThreads :=
  fun lk hlk => ⟨.lock lk, hlk⟩

theorem unlockThreads_relinks (state : Bool) : Relinking c (unlockThreads state) :=
  .modify (unlockThreads_keeps state) (fun _ => rfl) (fun _ _ => rfl) fun _ => rfl

theorem unlock_relinks (state : Bool) (a : α) :
    Relinking c (do unlockThreads state; Pure.pure a) :=
  (unlockThreads_relinks state).bind fun _ => .pure a

theorem resched_relinks {lk lk' : Kernel} {f : Unit → Section Kernel α} (h : lk.Relinked lk')
    (hplaced : lk'.Placed none ∅) (hc : lk'.currentThread = c) (hf : ∀ a, Relinking c (f a)) :
    ((threadResched >>= f).run lk').Moves (Kernel.Ordered c) Kernel.Relinked lk :=
  Susp.Moves.bind (F := Kernel.Relinked) (fun _ _ _ => Kernel.Relinked.trans)
    (threadResched_relinks h hplaced hc) hf

end Rules

section Operations

variable {c : Tid} {lk : Kernel} {q : Wq}

theorem threadYield_relinks : Relinking c threadYield := by
  rintro lk ⟨rfl, hwf⟩
  have hl : lk.lock.Wf := hwf
  have hback := (Kernel.Relinked.lock lk).requeue hl
    (f := fun thread => { thread with state := .ready, remainingQuantum := 0 }) rfl rfl
  simp only [threadYield, Section.run_bind, getCurrentThread_run, lockThreads_run,
    Section.run_modify, Section.run_read, Susp.done_bind, Kernel.setThread_self, hl.regular,
    Bool.not_false, if_true]
  exact resched_relinks hback.2 (hl.requeue rfl rfl).2 rfl fun _ => unlockThreads_relinks _

theorem threadPreempt_relinks : Relinking c threadPreempt := by
  rintro lk ⟨rfl, hwf⟩
  have hl : lk.lock.Wf := hwf
  have hback := (Kernel.Relinked.lock lk).requeue hl
    (f := fun thread => { thread with state := .ready }) rfl rfl
  simp only [threadPreempt, Section.run_bind, getCurrentThread_run, lockThreads_run,
    Section.run_modify, Section.run_read, Susp.done_bind, Kernel.setState, Kernel.setThread_self,
    hl.regular, Bool.not_false, if_true]
  split
  · exact resched_relinks hback.1 (hl.requeue rfl rfl).1 rfl fun _ => unlockThreads_relinks _
  · exact resched_relinks hback.2 (hl.requeue rfl rfl).2 rfl fun _ => unlockThreads_relinks _

theorem threadSetPriority_relinks (priority : Int) :
    Relinking c (threadSetPriority priority) := by
  rintro lk ⟨rfl, hwf⟩
  have hl : lk.lock.Wf := hwf
  simp only [threadSetPriority, Section.run_bind, getCurrentThread_run, lockThreads_run,
    Section.run_modify, Susp.done_bind]
  exact resched_relinks ((Kernel.Relinked.lock lk).requeue hl rfl rfl).1 (hl.requeue rfl rfl).1
    rfl fun _ => unlockThreads_relinks _

theorem waitQueueBlock_relinks (hidle : c ≠ idleThread) (hlk : lk.Ordered c)
    (hq : ∀ u, q = .retcode u → u < lk.nextTid) (timeout : LkTime) :
    ((waitQueueBlock q timeout).run lk).Moves (Kernel.Ordered c) Kernel.Relinked lk := by
  obtain ⟨rfl, hwf⟩ := hlk
  have hrunning : (lk.threads lk.currentThread).state = .running := hwf.current_running
  have hoff : lk.Off lk.currentThread := hwf.off (by simp [hrunning]) (by simp [hrunning])
  have hheads : .wait q ∈ lk.heads := fun u hu => hq u (Queue.wait.inj hu)
  have hblock : lk.Relinked (lk.enqueue q lk.currentThread) :=
    (Kernel.Relinked.refl lk).snoc (.enqueue lk q lk.currentThread hrunning hoff hheads)
  have hplaced := hwf.enqueue hidle hq
  have hdisarm : Relinking lk.currentThread (.modify fun s => s.arm lk.currentThread false) :=
    .modify (.modify (fun _ => rfl) fun _ h => h) (fun _ => rfl) (fun _ _ => rfl) fun _ => rfl
  have hend : ∀ _ : Unit, Relinking lk.currentThread (do
      if timeout ≠ INFINITE_TIME then .modify fun s => s.arm lk.currentThread false
      .read fun s => (s.threads lk.currentThread).waitQueueBlockRet) :=
    fun _ => .ite (hdisarm.bind fun _ => .read _) (.read _)
  unfold waitQueueBlock
  simp only [Section.run_bind, getCurrentThread_run, Susp.done_bind, Section.run_ite]
  by_cases h0 : timeout = 0
  · rw [if_pos h0]
    exact ⟨.refl lk, rfl, hwf⟩
  rw [if_neg h0]
  by_cases hinf : timeout ≠ INFINITE_TIME
  · rw [if_pos hinf]
    have harm : lk.Relinked ((lk.enqueue q lk.currentThread).arm lk.currentThread true) :=
      hblock.trans (.still rfl (fun _ => rfl) rfl)
    exact resched_relinks harm hplaced rfl hend
  · rw [if_neg hinf]
    exact resched_relinks hblock hplaced rfl hend

theorem waitQueueWakeOne_relinks (q : Wq) (hlk : lk.Ordered c) (hq : .wait q ∈ lk.heads)
    (reschedule : Bool) (err : Status) :
    ((waitQueueWakeOne q reschedule err).run lk).Moves (Kernel.Ordered c) Kernel.Relinked lk := by
  obtain ⟨rfl, hwf⟩ := hlk
  unfold waitQueueWakeOne
  simp only [Section.run_bind, getCurrentThread_run, Section.run_read, Susp.done_bind]
  cases hlist : (lk.wait q).list with
  | nil => exact ⟨(Kernel.Relinked.refl lk).snoc (.empty lk q hlist hq), rfl, hwf⟩
  | cons t rest =>
    have hmem : t ∈ (lk.wait q).list := by simp [hlist]
    have hne : lk.currentThread ≠ t := hwf.run_ne_of_blocked hmem
    have hwake := hwf.wake err hmem (.of_eq hlist)
    have hwoken := (Kernel.Relinked.refl lk).wakeHead hwf err hlist
    cases reschedule with
    | false =>
      exact ⟨hwoken.insertHead hwake (Set.mem_insert t ∅) Kernel.dequeue_ready, rfl,
        hwf.wakeHead err hmem (.of_eq hlist) (by simpa using hne)⟩
    | true =>
      have hback := hwoken.readyHead hwake (t := lk.currentThread) (by simpa using hne)
      have hplaced := hwake.readyHead (t := lk.currentThread) (by simpa using hne)
      have hready : ((((lk.dequeue q rest t err).setState lk.currentThread
          .ready).insertInRunQueueHead lk.currentThread).threads t).state = .ready := by
        simp [Kernel.insertInRunQueueHead, Kernel.setState, Kernel.setThread, hne.symm,
          Kernel.dequeue, Kernel.note]
      simp only [if_true, Section.run_bind, Section.run_modify, Susp.done_bind]
      exact resched_relinks (hback.insertHead hplaced (Set.mem_insert t ∅) hready)
        (hwf.wakeOne hlist err) rfl fun _ => .pure 1

theorem waitQueueWakeAll_relinks (q : Wq) (hlk : lk.Ordered c) (hq : .wait q ∈ lk.heads)
    (reschedule : Bool) (err : Status) :
    ((waitQueueWakeAll q reschedule err).run lk).Moves (Kernel.Ordered c) Kernel.Relinked lk := by
  obtain ⟨rfl, hwf⟩ := hlk
  have hblocked : ∀ t ∈ (lk.wait q).list, some lk.currentThread ≠ some t := by
    intro t ht
    simpa using hwf.run_ne_of_blocked ht
  have hstill : lk.Relinked (Kernel.popAll q err (lk.wait q).list lk) :=
    (Kernel.Relinked.refl lk).popAll hwf err rfl hblocked hq
  cases reschedule with
  | false =>
    rw [waitQueueWakeAll_run]
    refine ⟨hstill, Kernel.popAll_currentThread _ _ _ _, ?_⟩
    unfold Kernel.Wf
    rw [Kernel.popAll_currentThread]
    exact hwf.popAll _ rfl hblocked
  | true =>
    unfold waitQueueWakeAll
    simp only [Section.run_bind, getCurrentThread_run, Section.run_read, Susp.done_bind, true_and,
      if_true]
    by_cases hcount : (lk.wait q).count > 0
    · have hlen : (((lk.setState lk.currentThread .ready).insertInRunQueueHead
          lk.currentThread).wait q).list.length > 0 := by
        have hsame : (lk.wait q).list.length > 0 := by
          have := Queues.count hwf q
          omega
        exact hsame
      have hback := (Kernel.Relinked.refl lk).readyHead hwf (Set.notMem_empty _)
      have hplaced : ((lk.setState lk.currentThread .ready).insertInRunQueueHead
          lk.currentThread).Placed none ∅ := Kernel.Placed.readyHead hwf (Set.notMem_empty _)
      have hpop := hback.popAll hplaced err rfl (q := q) (by simp) hq
      simp only [if_pos hcount, Section.run_bind, Section.run_modify, Section.run_read,
        Susp.done_bind]
      rw [if_pos hlen]
      exact resched_relinks hpop (hwf.wakeAll q err) (Kernel.popAll_currentThread _ _ _ _)
        fun _ => .pure _
    · have hnil : (lk.wait q).list = [] := by
        have := Queues.count hwf q
        rw [← List.length_eq_zero_iff]
        omega
      simp only [if_neg hcount, Section.run_bind, Section.run_modify, Section.run_read,
        Susp.done_bind, hnil] at hstill ⊢
      exact ⟨hstill, rfl, hwf⟩

theorem Kernel.mem_heads_wait (hq : ∀ u, q ≠ .retcode u) : .wait q ∈ lk.heads :=
  fun u hu => absurd (Queue.wait.inj hu) (hq u)

theorem setMagic_relinks (q : Wq) (b : Bool) :
    Relinking c (.modify fun lk => lk.setWait q fun wait => { wait with magic := b }) := by
  refine .modify (.modify (fun _ => rfl) fun _ h => Queues.setMagic h) (fun _ => rfl)
    (fun lk q' => ?_) fun _ => rfl
  rw [Kernel.setWait_list]
  split
  · next heq => rw [heq]
  · rfl

section Objects

variable (hq : ∀ u, q ≠ .retcode u)
include hq

theorem block_relinks (hidle : c ≠ idleThread) (timeout : LkTime) :
    Relinking c (waitQueueBlock q timeout) :=
  fun _ hlk => waitQueueBlock_relinks hidle hlk (fun u hu => absurd hu (hq u)) timeout

theorem wakeOne_relinks (reschedule : Bool) (err : Status) :
    Relinking c (waitQueueWakeOne q reschedule err) :=
  fun _ hlk => waitQueueWakeOne_relinks q hlk (Kernel.mem_heads_wait hq) reschedule err

theorem wakeAll_relinks (reschedule : Bool) (err : Status) :
    Relinking c (waitQueueWakeAll q reschedule err) :=
  fun _ hlk => waitQueueWakeAll_relinks q hlk (Kernel.mem_heads_wait hq) reschedule err

theorem destroy_relinks (reschedule : Bool) : Relinking c (waitQueueDestroy q reschedule) :=
  (wakeAll_relinks hq _ _).bind fun _ => setMagic_relinks q false

end Objects

theorem useThread_relinks (t : Tid) : Relinking c (.modify fun lk => lk.useThread t) := by
  refine .modify (useThread_keeps c t) (fun lk => ?_) (fun lk q => ?_) fun lk => ?_ <;>
    · unfold Kernel.useThread
      split <;> rfl

theorem threadUnblock_relinks (t : Tid) (err : Status) :
    Relinking c (threadUnblockFromWaitQueue t err) := by
  refine (useThread_relinks t).bind fun _ => ?_
  rintro lk ⟨rfl, hwf⟩
  simp only [Section.run_bind, Section.run_read, Susp.done_bind, Section.run_ite]
  by_cases hstate : (lk.threads t).state ≠ .blocked
  · rw [if_pos hstate]
    exact ⟨.refl lk, rfl, hwf⟩
  rw [if_neg hstate]
  have hblocked : (lk.threads t).state = .blocked := not_not.mp hstate
  have hmade : t ∈ lk.nodes := Queues.lt_nextTid hwf (by rw [hblocked]; decide)
  cases hqueue : (lk.threads t).blockingWaitQueue with
  | none => exact ⟨.refl lk, rfl, hwf⟩
  | some q =>
    have hmem : t ∈ (lk.wait q).list :=
      (Queues.blocked hwf q t).mpr ⟨Set.notMem_empty t, hblocked, hqueue⟩
    have hne := hwf.run_ne_of_blocked hmem
    have hwake := hwf.wake err hmem (List.perm_cons_erase hmem)
    have hwoken := (Kernel.Relinked.refl lk).snoc (.unblock lk q t err hblocked hmem hmade)
    exact ⟨hwoken.insertHead hwake (Set.mem_insert t ∅) Kernel.dequeue_ready, rfl,
      hwf.wakeHead err hmem (List.perm_cons_erase hmem) (by simpa using hne)⟩

theorem locked_relinks {α : Type} {x : Section Kernel α} (hx : Relinking c x) :
    Relinking c (locked x) :=
  lockThreads_relinks.bind fun state => hx.bind fun a => unlock_relinks state a

theorem returning_relinks {α : Type} {x : Section Kernel α} (hx : Relinking c x) (f : α → Int) :
    Relinking c (returning f x) :=
  hx.bind fun _ => .pure _

theorem threadCreate_relinks (priority : Priority) (entry : Entry) :
    Relinking c (threadCreate priority entry) := by
  rintro lk ⟨rfl, hwf⟩
  have hkeeps := threadCreate_keeps _ priority entry lk rfl hwf
  obtain ⟨hdead, hnone⟩ := Queues.unborn hwf lk.nextTid le_rfl
  have hoff : lk.Off lk.nextTid := hwf.off (by simp [hdead]) (by simp [hdead])
  have hcreate := (Kernel.Relinked.refl lk).snoc (.create lk priority entry hoff hnone)
  simp only [threadCreate, threadCreateEtc, Section.run_bind, lockThreads_run, unlockThreads_run,
    Section.run_modify, Section.run_read, Section.run_pure, Susp.done_bind,
    Option.getD_none] at hkeeps ⊢
  exact ⟨hcreate.trans (.still rfl (fun _ => rfl) rfl), hkeeps⟩

theorem threadResume_relinks (t : Tid) : Relinking c (threadResume t) := by
  rintro lk ⟨rfl, hwf⟩
  have hkeeps := threadResume_keeps _ t lk rfl hwf
  simp only [threadResume, Section.run_bind, lockThreads_run, unlockThreads_run,
    Section.run_modify, Section.run_read, Section.run_pure, Susp.done_bind,
    Section.run_ite] at hkeeps ⊢
  rw [Kernel.useThread_eq] at hkeeps ⊢
  generalize (lk.lock.useThread t).faults = faults at hkeeps ⊢
  by_cases hstate : (lk.lock.threads t).state = .suspended
  · rw [if_pos hstate] at hkeeps ⊢
    have hrouse : (lk.lock.setState t .ready).Placed (some lk.currentThread) (insert t ∅) :=
      Queues.rouse hwf hstate rfl rfl
    have hready : ((lk.lock.setState t .ready).threads t).state = .ready := by
      simp [Kernel.setState]
    have hset : lk.Relinked (lk.lock.setState t .ready) := .still rfl (fun _ => rfl) rfl
    exact ⟨(hset.insertHead hrouse (Set.mem_insert t ∅) hready).trans
      (.still rfl (fun _ => rfl) rfl), hkeeps⟩
  · rw [if_neg hstate] at hkeeps ⊢
    exact ⟨.still rfl (fun _ => rfl) rfl, hkeeps⟩

theorem threadJoin_relinks (hidle : c ≠ idleThread) (t : Tid) (timeout : LkTime) :
    Relinking c (threadJoin t timeout) := by
  refine Relinking.bind (.read _) fun current => lockThreads_relinks.bind fun state =>
    (useThread_relinks t).bind fun _ => ?_
  have hend : ∀ err : Status, Relinking c (if err < 0 then do
        unlockThreads state
        pure err
      else do
        .modify fun lk => lk.useThread t
        .modify fun lk => lk.note (.joined current t (lk.threads t).retcode)
        .modify fun lk => lk.unlink t
        unlockThreads state
        pure NO_ERROR) := by
    intro err
    refine .ite (unlock_relinks state err) ((useThread_relinks t).bind fun _ => ?_)
    refine .bind (.modify (note_keeps c _) (fun _ => rfl) (fun _ _ => rfl) fun _ => rfl) fun _ => ?_
    exact .bind (.modify (unlink_keeps c t) (fun _ => rfl) (fun _ _ => rfl) fun _ => rfl) fun _ =>
      unlock_relinks state _
  intro lk hlk
  rw [Section.run_bind, Section.run_read, Susp.done_bind]
  by_cases hdetached : (lk.threads t).detached = true
  · rw [if_pos hdetached]
    exact unlock_relinks state _ lk hlk
  rw [if_neg hdetached]
  refine Susp.Moves.bind (F := Kernel.Relinked) (fun _ _ _ => Kernel.Relinked.trans) ?_ hend
  by_cases hdeath : (lk.threads t).state ≠ .death
  · rw [if_pos hdeath]
    refine waitQueueBlock_relinks hidle hlk ?_ timeout
    rintro u hu
    cases hu
    exact Queues.lt_nextTid hlk.2 hdeath
  · rw [if_neg hdeath]
    exact ⟨.refl lk, hlk⟩

theorem threadDetach_relinks {t : Tid} (hlk : lk.Ordered c) (ht : t < lk.nextTid) :
    ((threadDetach t).run lk).Moves (Kernel.Ordered c) Kernel.Relinked lk := by
  have hend : ∀ state : Bool, ∀ _ : Int, Relinking c (do
      let dead ← .read fun lk => decide ((lk.threads t).state = .death)
      .modify fun lk => lk.setThread t fun thread => { thread with detached := !dead }
      unlockThreads state
      pure dead) := by
    intro state _
    refine .bind (.read _) fun dead => .bind ?_ fun _ => unlock_relinks state dead
    exact .modify (setThread_keeps c t (fun _ => rfl) (fun _ => rfl) (fun _ => rfl) fun _ => rfl)
      (fun _ => rfl) (fun _ _ => rfl) fun _ => rfl
  have huse : (lk.lock.useThread t).Ordered c ∧ .wait (.retcode t) ∈ (lk.lock.useThread t).heads ∧
      lk.Relinked (lk.lock.useThread t) := by
    have hheads : .wait (.retcode t) ∈ lk.heads := by
      intro u hu
      cases hu
      exact ht
    unfold Kernel.useThread
    split <;> exact ⟨hlk, hheads, .still rfl (fun _ => rfl) rfl⟩
  unfold threadDetach
  simp only [Section.run_bind, lockThreads_run, Section.run_modify, Susp.done_bind]
  refine Susp.Moves.from (F := Kernel.Relinked) (fun _ _ _ => Kernel.Relinked.trans) huse.2.2 ?_
  exact Susp.Moves.bind (F := Kernel.Relinked) (fun _ _ _ => Kernel.Relinked.trans)
    (waitQueueWakeAll_relinks _ huse.1 huse.2.1 _ _) (hend _)

theorem threadExit_relinks (hidle : c ≠ idleThread) (retcode : Int) :
    Relinking c (threadExit retcode) := by
  rintro lk ⟨rfl, hwf⟩
  rw [threadExit_run]
  refine threadResched_relinks ?_ (hwf.exiting hidle retcode) (Kernel.exiting_currentThread retcode)
  have huse : lk.Relinked (lk.lock.useThread lk.currentThread) ∧
      (lk.lock.useThread lk.currentThread).Wf ∧
      (lk.lock.useThread lk.currentThread).currentThread = lk.currentThread := by
    unfold Kernel.useThread
    split <;> exact ⟨.still rfl (fun _ => rfl) rfl, hwf, rfl⟩
  obtain ⟨huse, hwf', hcurrent⟩ := huse
  have hdead := hwf'.die (by rw [hcurrent]; exact hidle) retcode
  rw [hcurrent] at hdead
  unfold Kernel.exiting
  dsimp only
  have hset : lk.Relinked ((lk.lock.useThread lk.currentThread).setThread lk.currentThread
      fun thread => { thread with state := .death, retcode := retcode }) :=
    huse.trans (.still rfl (fun _ => rfl) rfl)
  split
  · exact hset.trans (.still rfl (fun _ => rfl) rfl)
  · refine hset.popAll hdead 0 rfl (by simp) ?_
    rintro u hu
    cases hu
    have hborn := Queues.lt_nextTid hwf' (by rw [hwf'.current_running]; decide)
    rw [hcurrent] at hborn
    exact hborn

theorem addCount_relinks (s : SemId) (n : Int) : Relinking c (addCount s n) :=
  .bind (.modify (.modify (fun _ => rfl) fun _ h => h) (fun _ => rfl) (fun _ _ => rfl)
    fun _ => rfl) fun _ => .read _

theorem semPost_relinks (s : SemId) (resched : Bool) : Relinking c (semPost s resched) :=
  lockThreads_relinks.bind fun state => (addCount_relinks s 1).bind fun _ =>
    (Relinking.ite (wakeOne_relinks (by simp) _ _) (.pure _)).bind fun _ => unlock_relinks state _

theorem semWait_relinks (hidle : c ≠ idleThread) (s : SemId) : Relinking c (semWait s) :=
  lockThreads_relinks.bind fun state => (addCount_relinks s (-1)).bind fun _ =>
    (Relinking.ite (block_relinks (by simp) hidle _) (.pure _)).bind fun _ =>
      unlock_relinks state _

theorem semTrywait_relinks (s : SemId) : Relinking c (semTrywait s) :=
  lockThreads_relinks.bind fun state => (Relinking.read _).bind fun _ =>
    .ite (unlock_relinks state _) ((addCount_relinks s (-1)).bind fun _ => unlock_relinks state _)

theorem semTimedwait_relinks (hidle : c ≠ idleThread) (s : SemId) (timeout : LkTime) :
    Relinking c (semTimedwait s timeout) :=
  lockThreads_relinks.bind fun state => (addCount_relinks s (-1)).bind fun _ =>
    (Relinking.ite (block_relinks (by simp) hidle _) (.pure _)).bind fun _ =>
      .ite ((addCount_relinks s 1).bind fun _ => unlock_relinks state _) (unlock_relinks state _)

theorem semDestroy_relinks (s : SemId) : Relinking c (semDestroy s) :=
  lockThreads_relinks.bind fun state =>
    .bind (.modify (.modify (fun _ => rfl) fun _ h => h) (fun _ => rfl) (fun _ _ => rfl)
      fun _ => rfl) fun _ =>
      (destroy_relinks (by simp) _).bind fun _ => unlockThreads_relinks state

theorem setMutex_relinks (m : Nat) (f : Mutex → Mutex) :
    Relinking c (.modify fun lk => lk.setMutex m f) :=
  .modify (setMutex_keeps c m f) (fun _ => rfl) (fun _ _ => rfl) fun _ => rfl

theorem mutexDestroy_relinks (m : Nat) : Relinking c (mutexDestroy m) :=
  lockThreads_relinks.bind fun state => (setMutex_relinks m _).bind fun _ =>
    (destroy_relinks (by simp) _).bind fun _ => unlockThreads_relinks state

theorem mutexAcquire_relinks (hidle : c ≠ idleThread) (m : Nat) (timeout : LkTime) :
    Relinking c (mutexAcquireTimeout m timeout) :=
  (Relinking.read _).bind fun t => lockThreads_relinks.bind fun state =>
    (setMutex_relinks m _).bind fun _ => (Relinking.read _).bind fun _ =>
      (Relinking.ite (block_relinks (by simp) hidle _) (.pure _)).bind fun _ =>
        .ite (.ite ((setMutex_relinks m _).bind fun _ => unlock_relinks state _)
          (unlock_relinks state _))
          ((setMutex_relinks m _).bind fun _ => unlock_relinks state _)

theorem mutexRelease_relinks (m : Nat) : Relinking c (mutexRelease m) :=
  lockThreads_relinks.bind fun state => (setMutex_relinks m _).bind fun _ =>
    (Relinking.read _).bind fun _ =>
      .ite ((wakeOne_relinks (by simp) _ _).bind fun _ => unlock_relinks state _)
        (unlock_relinks state _)

theorem useEvent_relinks (e : EventId) : Relinking c (.modify fun lk => lk.useEvent e) := by
  refine .modify (useEvent_keeps c e) (fun lk => ?_) (fun lk q => ?_) fun lk => ?_ <;>
    rw [Kernel.useEvent_eq]

theorem setEvent_relinks (e : EventId) (f : Event → Event) :
    Relinking c (.modify fun lk => lk.setEvent e f) :=
  .modify (setEvent_keeps c e f) (fun _ => rfl) (fun _ _ => rfl) fun _ => rfl

theorem eventDestroy_relinks (e : EventId) : Relinking c (eventDestroy e) :=
  lockThreads_relinks.bind fun state => (useEvent_relinks e).bind fun _ =>
    (setEvent_relinks e _).bind fun _ => (wakeAll_relinks (by simp) _ _).bind fun _ =>
      (useEvent_relinks e).bind fun _ => (setMagic_relinks _ false).bind fun _ =>
        unlockThreads_relinks state

theorem eventWait_relinks (hidle : c ≠ idleThread) (e : EventId) (timeout : LkTime) :
    Relinking c (eventWaitTimeout e timeout) :=
  lockThreads_relinks.bind fun state => (useEvent_relinks e).bind fun _ =>
    (Relinking.read _).bind fun _ =>
      (Relinking.ite (.ite ((setEvent_relinks e _).bind fun _ => .pure _) (.pure _))
        (block_relinks (by simp) hidle _)).bind fun _ => unlock_relinks state _

theorem eventSignal_relinks (e : EventId) (reschedule : Bool) :
    Relinking c (eventSignal e reschedule) := by
  refine lockThreads_relinks.bind fun state => (useEvent_relinks e).bind fun _ =>
    (Relinking.read _).bind fun event => .bind (.modify (note_keeps c _) (fun _ => rfl)
      (fun _ _ => rfl) fun _ => rfl) fun _ => .ite (.ite ?_ ?_) (unlock_relinks state _)
  · exact (wakeOne_relinks (by simp) _ _).bind fun _ =>
      .ite ((useEvent_relinks e).bind fun _ => (setEvent_relinks e _).bind fun _ =>
        unlock_relinks state _) (unlock_relinks state _)
  · exact (setEvent_relinks e _).bind fun _ => (wakeAll_relinks (by simp) _ _).bind fun _ =>
      unlock_relinks state _

/-- What an operation does to the queues is made of such calls; a thread that it detaches was
made. -/
theorem perform_relinks {op : Op} (hidle : c = idleThread → op.forIdle = true)
    (hlk : lk.Ordered c) (hmade : ∀ t, op = .threadDetach t → t < lk.nextTid) :
    ((perform op).run lk).Moves (Kernel.Ordered c) Kernel.Relinked lk := by
  have hne : op.forIdle = false → c ≠ idleThread := by
    rintro hop hc
    rw [hidle hc] at hop
    cases hop
  cases op with
  | threadCreate priority entry =>
    exact returning_relinks (threadCreate_relinks priority entry) _ lk hlk
  | threadResume t => exact returning_relinks (threadResume_relinks t) _ lk hlk
  | threadYield => exact returning_relinks threadYield_relinks _ lk hlk
  | threadPreempt => exact returning_relinks threadPreempt_relinks _ lk hlk
  | threadSetPriority priority =>
    exact returning_relinks (threadSetPriority_relinks priority) _ lk hlk
  | threadExit retcode => exact returning_relinks (threadExit_relinks (hne rfl) retcode) _ lk hlk
  | threadJoin t timeout => exact threadJoin_relinks (hne rfl) t timeout lk hlk
  | threadDetach t =>
    exact Susp.Moves.bind (F := Kernel.Relinked) (fun _ _ _ => Kernel.Relinked.trans)
      (threadDetach_relinks hlk (hmade t rfl)) fun _ => Relinking.pure _
  | waitQueueBlock w timeout =>
    exact locked_relinks (block_relinks (by simp) (hne rfl) timeout) lk hlk
  | waitQueueWakeOne w r err => exact locked_relinks (wakeOne_relinks (by simp) r err) lk hlk
  | waitQueueWakeAll w r err => exact locked_relinks (wakeAll_relinks (by simp) r err) lk hlk
  | waitQueueDestroy w r =>
    exact returning_relinks (locked_relinks (destroy_relinks (by simp) r)) _ lk hlk
  | threadUnblock t err => exact locked_relinks (threadUnblock_relinks t err) lk hlk
  | semPost s resched => exact semPost_relinks s resched lk hlk
  | semWait s => exact semWait_relinks (hne rfl) s lk hlk
  | semTrywait s => exact semTrywait_relinks s lk hlk
  | semTimedwait s timeout => exact semTimedwait_relinks (hne rfl) s timeout lk hlk
  | semDestroy s => exact returning_relinks (semDestroy_relinks s) _ lk hlk
  | mutexAcquire m timeout => exact mutexAcquire_relinks (hne rfl) m timeout lk hlk
  | mutexRelease m => exact mutexRelease_relinks m lk hlk
  | mutexDestroy m => exact returning_relinks (mutexDestroy_relinks m) _ lk hlk
  | eventWait e timeout => exact eventWait_relinks (hne rfl) e timeout lk hlk
  | eventSignal e reschedule => exact eventSignal_relinks e reschedule lk hlk
  | eventDestroy e => exact returning_relinks (eventDestroy_relinks e) _ lk hlk

end Operations

def Op.detaches : Op → Option Tid
  | .threadDetach t => some t
  | _ => none

/-- Whoever is detached was made. -/
def Machine.DetachesMade (m : Machine) (label : Label) : Prop :=
  ∀ t ∈ (m.begins label).bind Op.detaches, t < m.kernel.nextTid

instance (m : Machine) (label : Label) : Decidable (m.DetachesMade label) :=
  inferInstanceAs (Decidable (∀ t ∈ (m.begins label).bind Op.detaches, t < m.kernel.nextTid))

/-- The steps of a run, and the calls each of them makes. -/
inductive Machine.Relinks (ok : Machine → Label → Prop) :
    Machine → List ListCall → Machine → Prop where
  | nil (m : Machine) : Relinks ok m [] m
  | snoc {m m' m'' : Machine} {calls more : List ListCall} {label : Label}
    (hrun : Relinks ok m calls m') (hok : ok m' label) (hstep : m'.step label = some m'')
    (hmore : m'.kernel.Calls more m''.kernel) : Relinks ok m (calls ++ more) m''

/-- What is left of the operations will go on to make such calls. -/
def Machine.Relinking (m : Machine) : Prop :=
  ∀ t k, m.code t = .inside k → ∀ lk : Kernel, lk.Ordered t →
    (k lk).Moves (Kernel.Ordered t) Kernel.Relinked lk

section Runs

variable {ok : Machine → Label → Prop} {objects : Objects} {m m' : Machine} {label : Label}
  {lk : Kernel}

theorem Kernel.Quiet.relinked {lk' : Kernel} (h : lk.Quiet lk') : lk.Relinked lk' :=
  .still h.runQueue (fun q => by rw [h.wait]) h.nextTid

theorem Machine.Aside.relinked (h : m.Aside lk) : m.kernel.Relinked lk := by
  rcases h.quiet with hquiet | ⟨e, -, hquiet⟩
  · exact hquiet.relinked
  · refine Kernel.Relinked.trans (.still ?_ (fun q => ?_) ?_) hquiet.relinked <;>
      rw [Kernel.eventUnsignal, Kernel.useEvent_eq] <;> rfl

theorem Machine.Relinking.settle {x : Susp Kernel Int} {op : Op} {after : Int → List Frame}
    {b : Bool} (h : m.Relinking) (hx : x.Moves (Kernel.Ordered m.current) Kernel.Relinked lk) :
    lk.Relinked (m.settle m.current op after b x).kernel ∧
      (m.settle m.current op after b x).Relinking := by
  cases x with
  | done r lk' =>
    refine ⟨hx.1.trans (.still rfl (fun _ => rfl) rfl), fun t k ht => ?_⟩
    by_cases hc : t = m.current
    · simp [Machine.settle, hc] at ht
    · simp only [Machine.settle, Function.update_of_ne hc] at ht
      exact h t k ht
  | switch lk' k' =>
    refine ⟨hx.1, fun t k ht => ?_⟩
    by_cases hc : t = m.current
    · subst hc
      simp only [Machine.settle, Function.update_self, Code.inside.injEq] at ht
      subst ht
      exact hx.2
    · simp only [Machine.settle, Function.update_of_ne hc] at ht
      exact h t k ht

theorem Machine.Relinking.step (h : m.Relinking) (hsound : m.kernel.Sound)
    (hmade : m.DetachesMade label) (hstep : m.step label = some m') :
    m.kernel.Relinked m'.kernel ∧ m'.Relinking := by
  cases Machine.step_cases hstep with
  | @aside lk hcode ha =>
    refine ⟨ha.relinked, fun t k ht => ?_⟩
    by_cases hc : t = m.current
    · simp [Machine.aside, hc] at ht
    · simp only [Machine.aside, Function.update_of_ne hc] at ht
      exact h t k ht
  | @enter lk f stack op next hcode hg hframes hinstr hbegins =>
    have hcurrent : lk.currentThread = m.current := hg.quiet.currentThread
    have hground := hg.sound hsound
    have hidle : m.current = idleThread → op.forIdle = true := by
      intro hc
      have hof := hground.tracked.idle f (by rw [← hc, hframes]; exact List.mem_cons_self)
      exact (Frame.ofIdle_section hof hinstr).1
    have hbegin : lk.Relinked (lk.begins m.current op) := .still rfl (fun _ => rfl) rfl
    have hborn : ∀ t, op = .threadDetach t → t < (lk.begins m.current op).nextTid := by
      rintro t rfl
      have hlt := hmade t (by simp [hbegins, Op.detaches])
      rw [← hg.quiet.nextTid] at hlt
      exact hlt
    have hordered : (lk.begins m.current op).Ordered m.current := ⟨hcurrent, hground.wf⟩
    have hmoves := perform_relinks hidle hordered hborn
    exact h.settle (hmoves.from (fun _ _ _ => Kernel.Relinked.trans)
      (hg.quiet.relinked.trans hbegin))
  | @resume k f stack op next hcode hframes hinstr =>
    exact h.settle (h _ k hcode m.kernel ⟨rfl, hsound.wf⟩)

theorem Machine.Run.relinks (hrun : Machine.Run ok (.boot objects) m)
    (hok : ∀ m label, ok m label → m.DetachesMade label) :
    (∃ calls, Machine.Relinks ok (.boot objects) calls m) ∧ m.Relinking := by
  induction hrun with
  | nil =>
    refine ⟨⟨[], .nil _⟩, fun t k ht => ?_⟩
    by_cases hb : t = bootstrapThread <;> simp [Machine.boot, hb] at ht
  | snoc hrun hlabel hstep ih =>
    obtain ⟨⟨calls, hcalls⟩, hlinks⟩ := ih
    obtain ⟨⟨more, hmore⟩, hlinks'⟩ := hlinks.step hrun.sound (hok _ _ hlabel) hstep
    exact ⟨⟨_, hcalls.snoc hlabel hstep hmore⟩, hlinks'⟩

theorem Kernel.Calls.trans {lk' lk'' : Kernel} {calls more : List ListCall}
    (h : lk.Calls calls lk') (h' : lk'.Calls more lk'') : lk.Calls (calls ++ more) lk'' := by
  induction h' with
  | nil => simpa using h
  | snoc _ hcall ih =>
    rw [← List.append_assoc]
    exact ih.snoc hcall

theorem Machine.Relinks.calls {calls : List ListCall} (h : Machine.Relinks ok m calls m') :
    m.kernel.Calls calls m'.kernel := by
  induction h with
  | nil => exact .nil _
  | snoc _ _ _ hmore ih => exact ih.trans hmore

end Runs

/-- What `thread_init_early` and `thread_create_idle` call. -/
def bootCalls : List ListCall :=
  (List.finRange 32).map (fun p => .initList (.run p)) ++
    [.clearNode bootstrapThread, .initList (.wait (.retcode bootstrapThread)),
      .clearNode idleThread, .initList (.wait (.retcode idleThread)),
      .removeHead (.wait (.retcode idleThread)) none]

/-- The queues of the semaphores, mutexes and events are set up. -/
def ObjectsSetUp (m : Links ListNode) : Prop :=
  ∀ q, (∀ t, q ≠ .retcode t) →
    m.next (.inl (.wait q)) = some (.inl (.wait q)) ∧
      m.prev (.inl (.wait q)) = some (.inl (.wait q))

section Boot

variable {objects : Objects} {m : Links ListNode} {heads : Set Queue} {nodes : Set Tid}

theorem initialize_queues (h : Rings m heads nodes fun _ => []) (ps : List Priority) :
    ∃ m', ListCall.applyAll m (ps.map fun p => .initList (.run p)) = some m' ∧
      Rings m' (heads ∪ {l | ∃ p ∈ ps, l = .run p}) nodes fun _ => [] := by
  induction ps generalizing m heads with
  | nil => exact ⟨m, rfl, by simpa using h⟩
  | cons p ps ih =>
    obtain ⟨m', happly, hl⟩ := ih (h.initialize_head (i := .run p) rfl)
    refine ⟨m', happly, hl.of_subset (fun l hl => ?_) (fun _ => id) fun _ _ => rfl⟩
    simp only [List.mem_cons, exists_eq_or_imp] at hl
    rcases hl with hl | rfl | hl
    · exact .inl (.inr hl)
    · exact .inl (.inl rfl)
    · exact .inr hl

/-- What `init_thread_struct` and `wait_queue_init` do. -/
def threadMade (m : Links ListNode) (t : Tid) : Links ListNode :=
  listInitialize (listClearNode m (.inr t)) (.inl (.wait (.retcode t)))

theorem threadMade_rings (h : Rings m heads nodes fun _ => []) (t : Tid) :
    Rings (threadMade m t) (insert (.wait (.retcode t)) heads) (insert t nodes) fun _ => [] :=
  (h.clear_node (by simp)).initialize_head rfl

/-- Before its priority is set the first thread runs, and no queue has anybody on it. -/
theorem bootCalls_linked (objects : Objects) (h : ObjectsSetUp m) :
    ∃ m', ListCall.applyAll m bootCalls = some m' ∧ (Kernel.idleStart objects).Linked m' := by
  have hstart : Rings m {l | ∃ q, l = .wait q ∧ ∀ t, q ≠ .retcode t} ∅ fun _ => [] := by
    refine ⟨?_, fun _ _ => rfl, fun _ _ _ hx => absurd hx List.not_mem_nil,
      fun _ hx => absurd hx (Set.notMem_empty _)⟩
    rintro l ⟨q, rfl, hq⟩
    exact Links.ring_singleton.mpr (h q hq)
  obtain ⟨m₁, hrun, hqueues⟩ := initialize_queues hstart (List.finRange 32)
  have hidle := threadMade_rings (threadMade_rings hqueues bootstrapThread) idleThread
  have hlists : (Kernel.idleStart objects).list = fun _ => [] := by
    funext l
    cases l <;> rfl
  have hlinked : (Kernel.idleStart objects).Linked
      (threadMade (threadMade m₁ bootstrapThread) idleThread) := by
    unfold Kernel.Linked
    rw [hlists]
    refine hidle.of_subset (fun l hl => ?_) (fun t ht => ?_) fun _ _ => rfl
    · cases l with
      | run p => exact .inr (.inr (.inr ⟨p, List.mem_finRange p, rfl⟩))
      | wait q =>
        by_cases hq : ∀ t, q ≠ .retcode t
        · exact .inr (.inr (.inl ⟨q, rfl, hq⟩))
        · obtain ⟨t, ht⟩ := not_forall.mp hq
          rw [not_not.mp ht] at hl ⊢
          have hlt : t < bootstrapThread + 1 := hl t rfl
          rcases Nat.lt_succ_iff_lt_or_eq.mp hlt with hlt | rfl
          · obtain rfl : t = idleThread := Nat.lt_one_iff.mp hlt
            exact .inl rfl
          · exact .inr (.inl rfl)
    · have hlt : t < bootstrapThread + 1 := ht
      rcases Nat.lt_succ_iff_lt_or_eq.mp hlt with hlt | rfl
      · exact .inl (Nat.lt_one_iff.mp hlt)
      · exact .inr (.inl rfl)
  have hremove := hlinked.removeHead_nil (l := .wait (.retcode idleThread))
    (fun t ht => by cases ht; exact Nat.succ_pos _) rfl
  refine ⟨_, (ListCall.applyAll_append hrun).trans ?_, hlinked⟩
  have hlast : ListCall.apply (threadMade (threadMade m₁ bootstrapThread) idleThread)
      (.removeHead (.wait (.retcode idleThread)) none) =
      some (threadMade (threadMade m₁ bootstrapThread) idleThread) := by
    simp [ListCall.apply, hremove]
  exact hlast

end Boot

section Runs

variable {ok : Machine → Label → Prop} {objects : Objects} {m : Machine}

/-- In every run the calls that are made of `list.h` follow no null pointer, put no thread on two
lists, take none from where it is not, and return what is on the queues of the kernel; and these
are, at every time, the rings of the nodes that lie in the threads. -/
theorem queues_are_linked_lists (hrun : Machine.Run ok (.boot objects) m)
    (hok : ∀ m label, ok m label → m.DetachesMade label) {links : Links ListNode}
    (hlinks : ObjectsSetUp links) :
    ∃ first calls links', (Kernel.idleStart objects).Calls first (Machine.boot objects).kernel ∧
      Machine.Relinks ok (.boot objects) calls m ∧
      ListCall.applyAll links (bootCalls ++ first ++ calls) = some links' ∧
      m.kernel.Linked links' := by
  obtain ⟨⟨calls, hcalls⟩, -⟩ := hrun.relinks hok
  have hpriority := threadSetPriority_relinks (c := bootstrapThread) DEFAULT_PRIORITY.val
    (Kernel.idleStart objects) ⟨rfl, Kernel.idleStart_wf objects⟩
  have hboot : (Machine.boot objects).kernel =
      ((threadSetPriority DEFAULT_PRIORITY.val).run (Kernel.idleStart objects)).state := by
    simp only [Machine.boot, lklThreadInit, Section.run_bind, Section.run_modify, Susp.done_bind,
      threadCreateIdle_run]
  obtain ⟨first, hfirst⟩ := hpriority.state
  rw [← hboot] at hfirst
  obtain ⟨links₁, happly, hlinked⟩ := bootCalls_linked objects hlinks
  obtain ⟨links', happly', hlinked'⟩ := (hfirst.trans hcalls.calls).linked hlinked
  refine ⟨first, calls, links', hfirst, hcalls, ?_, hlinked'⟩
  rw [List.append_assoc]
  exact (ListCall.applyAll_append happly).trans happly'

/-- Whoever waits for the token there is not is found from the head of the semaphore's list. -/
theorem queues_are_linked_lists_waiting : ∃ m calls first links',
    Machine.Relinks Machine.DetachesMade (.boot .assorted) calls m ∧
    ListCall.applyAll ⟨some, some⟩ (bootCalls ++ first ++ calls) = some links' ∧
    (m.kernel.wait (.sem (.host 0))).list = [2] ∧
    links'.next (.inl (.wait (.sem (.host 0)))) = some (.inr 2) := by
  have hresult : ((Machine.boot .assorted).after Machine.DetachesMade waitingRun).map
      (fun m => (m.kernel.wait (.sem (.host 0))).list) = some [2] := by decide +kernel
  obtain ⟨m, hm, hlist⟩ := Option.map_eq_some_iff.mp hresult
  have hrun : Machine.Run Machine.DetachesMade (.boot .assorted) m :=
    (Machine.Run.nil _).after hm
  obtain ⟨first, calls, links', -, hcalls, happly, hlinked⟩ :=
    queues_are_linked_lists hrun (fun _ _ h => h) (show ObjectsSetUp ⟨some, some⟩ from
      fun _ _ => ⟨rfl, rfl⟩)
  refine ⟨m, calls, first, links', hcalls, happly, hlist, ?_⟩
  have hhead := hlinked.next_head (i := .wait (.sem (.host 0))) (Kernel.mem_heads_wait (by simp))
  have hsame : m.kernel.list (.wait (.sem (.host 0))) = [2] := hlist
  rw [hsame] at hhead
  exact hhead

end Runs

end UefiLkl.Lk
