import UefiLkl.Lib.Rings
import UefiLkl.Lk.Runs
set_option autoImplicit false

/-!
The linked lists of `list.h`, and what `thread.c` does to them: the run queues and the wait
queues are rings of nodes that lie in the threads themselves.
-/

namespace UefiLkl.Lk
open Coroutine LinkedRing

section ListH

variable {ν : Type} [DecidableEq ν]

def listInitialize (m : Links ν) (list : ν) : Links ν :=
  (m.setPrev list (some list)).setNext list (some list)

def listClearNode (m : Links ν) (item : ν) : Links ν :=
  (m.setPrev item none).setNext item none

def listInList (m : Links ν) (item : ν) : Bool :=
  (m.prev item).isSome || (m.next item).isSome

/-- Nothing comes of it where a null pointer is followed; so below. -/
def listAddHead (m : Links ν) (list item : ν) : Option (Links ν) := do
  let m := m.setNext item (m.next list)
  let m := m.setPrev item (some list)
  let m := m.setPrev (← m.next list) (some item)
  pure (m.setNext list (some item))

def listAddTail (m : Links ν) (list item : ν) : Option (Links ν) := do
  let m := m.setPrev item (m.prev list)
  let m := m.setNext item (some list)
  let m := m.setNext (← m.prev list) (some item)
  pure (m.setPrev list (some item))

def listDelete (m : Links ν) (item : ν) : Option (Links ν) := do
  let m := m.setPrev (← m.next item) (m.prev item)
  let m := m.setNext (← m.prev item) (m.next item)
  pure (listClearNode m item)

def listRemoveHead (m : Links ν) (list : ν) : Option (Option ν × Links ν) :=
  if m.next list ≠ some list then do
    let item ← m.next list
    pure (some item, ← listDelete m item)
  else some (none, m)

/-- Where `list_for_every_entry` begins, unless it ends there. -/
def listFirstEntry (m : Links ν) (list : ν) : Option ν :=
  if m.next list = some list then none else m.next list

def listIsEmpty (m : Links ν) (list : ν) : Bool := m.next list = some list

variable {m : Links ν} {list item a b : ν}

theorem listAddHead_eq (hnext : m.next list = some b) (hitem : item ≠ list) :
    listAddHead m list item = some (m.insert list item b) := by
  simp [listAddHead, Links.setNext, Links.setPrev, Links.insert, Ne.symm hitem, hnext]

theorem listAddTail_eq (hprev : m.prev list = some a) (hitem : item ≠ list) :
    listAddTail m list item = some (m.insert a item list) := by
  simp [listAddTail, Links.setNext, Links.setPrev, Links.insert, Ne.symm hitem, hprev]

theorem listDelete_eq (hprev : m.prev item = some a) (hnext : m.next item = some b)
    (hitem : item ≠ b) : listDelete m item = some (m.remove a item b) := by
  simp [listDelete, listClearNode, Links.setNext, Links.setPrev, Links.remove, hitem, hprev,
    hnext]

end ListH

/-- The lists that the `queue_node` of a thread may be on. -/
inductive Queue where
  | run (p : Priority)
  | wait (q : Wq)
  deriving DecidableEq, Repr

/-- The head of such a list, or the `queue_node` of a thread. -/
abbrev ListNode := Queue ⊕ Tid

/-- A call of one of the functions, and what it returns. -/
inductive ListCall where
  | initList (list : Queue)
  | clearNode (t : Tid)
  | inList (t : Tid) (r : Bool)
  | addHead (list : Queue) (t : Tid)
  | addTail (list : Queue) (t : Tid)
  | delete (t : Tid)
  | removeHead (list : Queue) (r : Option Tid)
  | firstEntry (list : Queue) (r : Option Tid)
  | isEmpty (list : Queue) (r : Bool)
  deriving DecidableEq, Repr

/-- What the call does, if it follows no null pointer and returns that. -/
def ListCall.apply (m : Links ListNode) : ListCall → Option (Links ListNode)
  | .initList list => some (listInitialize m (.inl list))
  | .clearNode t => some (listClearNode m (.inr t))
  | .inList t r => if listInList m (.inr t) = r then some m else none
  | .addHead list t => listAddHead m (.inl list) (.inr t)
  | .addTail list t => listAddTail m (.inl list) (.inr t)
  | .delete t => listDelete m (.inr t)
  | .removeHead list r => do
    let (item, m) ← listRemoveHead m (.inl list)
    if item = r.map .inr then some m else none
  | .firstEntry list r => if listFirstEntry m (.inl list) = r.map .inr then some m else none
  | .isEmpty list r => if listIsEmpty m (.inl list) = r then some m else none

def ListCall.applyAll (m : Links ListNode) (calls : List ListCall) : Option (Links ListNode) :=
  calls.foldlM ListCall.apply m

def Kernel.list (lk : Kernel) : Queue → List Tid
  | .run p => lk.runQueue p
  | .wait q => (lk.wait q).list

/-- The lists that are set up: all but those in threads that were not made. -/
def Kernel.heads (lk : Kernel) : Set Queue :=
  {l | ∀ t, l = .wait (.retcode t) → t < lk.nextTid}

def Kernel.nodes (lk : Kernel) : Set Tid := {t | t < lk.nextTid}

/-- Each queue is the ring of the `queue_node`s of its threads, in their order, and those of all
other threads are clear. -/
def Kernel.Linked (lk : Kernel) (m : Links ListNode) : Prop := Rings m lk.heads lk.nodes lk.list

def Kernel.Off (lk : Kernel) (t : Tid) : Prop := ∀ l, t ∉ lk.list l

/-- A change of the queues and the calls that are made for it, by `insert_in_run_queue_head`
and `_tail`, `get_top_thread`, `wait_queue_block`, `wait_queue_wake_one` and `_all`,
`thread_unblock_from_wait_queue` and `thread_create_etc`; with `inList` goes what is asserted
there. -/
inductive Kernel.Call : Kernel → List ListCall → Kernel → Prop where
  | insertHead (lk : Kernel) (t : Tid) (hready : (lk.threads t).state = .ready)
    (hoff : lk.Off t) (hmade : t ∈ lk.nodes) :
    Call lk [.inList t false, .addHead (.run (lk.threads t).priority) t]
      (lk.insertInRunQueueHead t)
  | insertTail (lk : Kernel) (t : Tid) (hready : (lk.threads t).state = .ready)
    (hoff : lk.Off t) (hmade : t ∈ lk.nodes) :
    Call lk [.inList t false, .addTail (.run (lk.threads t).priority) t]
      (lk.insertInRunQueueTail t)
  | pick (lk : Kernel) (p : Priority) (t : Tid) (rest : List Tid)
    (hlist : lk.runQueue p = t :: rest) (htop : lk.getTopThread.1 = t)
    (hqueues : lk.getTopThread.2.list = Function.update lk.list (.run p) rest) :
    Call lk [.firstEntry (.run p) (some t), .delete t, .isEmpty (.run p) rest.isEmpty]
      lk.getTopThread.2
  | enqueue (lk : Kernel) (q : Wq) (t : Tid) (hrunning : (lk.threads t).state = .running)
    (hoff : lk.Off t) (hq : .wait q ∈ lk.heads) :
    Call lk [.addTail (.wait q) t] (lk.enqueue q t)
  | dequeue (lk : Kernel) (q : Wq) (t : Tid) (rest : List Tid) (err : Status)
    (hlist : (lk.wait q).list = t :: rest) (hblocked : (lk.threads t).state = .blocked) :
    Call lk [.removeHead (.wait q) (some t)] (lk.dequeue q rest t err)
  | empty (lk : Kernel) (q : Wq) (hlist : (lk.wait q).list = []) (hq : .wait q ∈ lk.heads) :
    Call lk [.removeHead (.wait q) none] lk
  | unblock (lk : Kernel) (q : Wq) (t : Tid) (err : Status)
    (hblocked : (lk.threads t).state = .blocked) (hmem : t ∈ (lk.wait q).list)
    (hmade : t ∈ lk.nodes) :
    Call lk [.inList t true, .delete t] (lk.dequeue q ((lk.wait q).list.erase t) t err)
  | create (lk : Kernel) (priority : Priority) (entry : Entry) (hoff : lk.Off lk.nextTid)
    (hlist : (lk.wait (.retcode lk.nextTid)).list = []) :
    Call lk [.clearNode lk.nextTid, .initList (.wait (.retcode lk.nextTid))]
      (lk.addThread none lk.nextTid priority entry)
  | still {lk lk' : Kernel} (hlist : lk'.list = lk.list) (hnext : lk'.nextTid = lk.nextTid) :
    Call lk [] lk'

inductive Kernel.Calls : Kernel → List ListCall → Kernel → Prop where
  | nil (lk : Kernel) : Calls lk [] lk
  | snoc {lk lk' lk'' : Kernel} {calls more : List ListCall} (hcalls : Calls lk calls lk')
    (hmore : lk'.Call more lk'') : Calls lk (calls ++ more) lk''

section Calls

variable {lk lk' lk'' : Kernel} {m : Links ListNode} {calls more : List ListCall} {t : Tid}
  {q : Wq}

theorem ListCall.applyAll_append {m' : Links ListNode}
    (h : ListCall.applyAll m calls = some m') :
    ListCall.applyAll m (calls ++ more) = ListCall.applyAll m' more := by
  simp only [ListCall.applyAll] at h ⊢
  rw [List.foldlM_append, h]
  rfl

theorem Kernel.Linked.congr (h : lk.Linked m) (hlist : lk'.list = lk.list)
    (hnext : lk'.nextTid = lk.nextTid) : lk'.Linked m := by
  unfold Kernel.Linked Kernel.heads Kernel.nodes
  rw [hlist, hnext]
  exact h

theorem Kernel.Linked.inList (h : lk.Linked m) (hmade : t ∈ lk.nodes) :
    listInList m (.inr t) = true ↔ ∃ l, t ∈ lk.list l :=
  h.pointing hmade

theorem Kernel.Linked.not_inList (h : lk.Linked m) (hoff : lk.Off t) (hmade : t ∈ lk.nodes) :
    listInList m (.inr t) = false := by
  rw [Bool.eq_false_iff]
  intro hin
  obtain ⟨l, hmem⟩ := (h.inList hmade).mp hin
  exact hoff l hmem

theorem Kernel.mem_heads_run (lk : Kernel) (p : Priority) : .run p ∈ lk.heads := by
  simp [Kernel.heads]

theorem Kernel.Linked.addHead {l : Queue} (h : lk.Linked m) (lk' : Kernel) (hl : l ∈ lk.heads)
    (hoff : lk.Off t) (hlist : lk'.list = Function.update lk.list l (t :: lk.list l))
    (hnext : lk'.nextTid = lk.nextTid) :
    ∃ m', listAddHead m (.inl l) (.inr t) = some m' ∧ lk'.Linked m' := by
  have hhead := h.next_head hl
  refine ⟨_, listAddHead_eq hhead (by simp), ?_⟩
  have hpush := h.pushFront hl hoff hhead
  unfold Kernel.Linked Kernel.heads Kernel.nodes
  rw [hlist, hnext]
  exact hpush

theorem Kernel.Linked.addTail {l : Queue} (h : lk.Linked m) (lk' : Kernel) (hl : l ∈ lk.heads)
    (hoff : lk.Off t) (hlist : lk'.list = Function.update lk.list l (lk.list l ++ [t]))
    (hnext : lk'.nextTid = lk.nextTid) :
    ∃ m', listAddTail m (.inl l) (.inr t) = some m' ∧ lk'.Linked m' := by
  have hhead := h.prev_head hl
  refine ⟨_, listAddTail_eq hhead (by simp), ?_⟩
  have hpush := h.pushBack hl hoff hhead
  unfold Kernel.Linked Kernel.heads Kernel.nodes
  rw [hlist, hnext]
  exact hpush

theorem Kernel.Linked.delete {l : Queue} (h : lk.Linked m) (lk' : Kernel) (hmem : t ∈ lk.list l)
    (hlist : lk'.list = Function.update lk.list l ((lk.list l).erase t))
    (hnext : lk'.nextTid = lk.nextTid) :
    ∃ m', listDelete m (.inr t) = some m' ∧ lk'.Linked m' := by
  obtain ⟨a, b, ha, hb, hne⟩ := h.neighbours hmem
  refine ⟨_, listDelete_eq ha hb hne, ?_⟩
  have herase := h.erase hmem ha hb
  unfold Kernel.Linked Kernel.heads Kernel.nodes
  rw [hlist, hnext]
  exact herase

theorem Kernel.Linked.firstEntry {l : Queue} (h : lk.Linked m) (hl : l ∈ lk.heads) :
    listFirstEntry m (.inl l) = (lk.list l).head?.map .inr := by
  unfold listFirstEntry
  rw [h.next_head hl]
  cases lk.list l <;> simp

theorem Kernel.Linked.isEmpty {l : Queue} (h : lk.Linked m) (hl : l ∈ lk.heads) :
    listIsEmpty m (.inl l) = (lk.list l).isEmpty := by
  unfold listIsEmpty
  rw [h.next_head hl]
  cases lk.list l <;> simp

theorem Kernel.Linked.removeHead {l : Queue} {rest : List Tid} (h : lk.Linked m) (lk' : Kernel)
    (hfirst : lk.list l = t :: rest) (hlist : lk'.list = Function.update lk.list l rest)
    (hnext : lk'.nextTid = lk.nextTid) :
    ∃ m', listRemoveHead m (.inl l) = some (some (.inr t), m') ∧ lk'.Linked m' := by
  have hmem : t ∈ lk.list l := by simp [hfirst]
  have hhead := h.next_head (h.mem_heads hmem)
  obtain ⟨m', hdelete, hl'⟩ := h.delete lk' hmem (by simpa [hfirst] using hlist) hnext
  rw [hfirst] at hhead
  exact ⟨m', by simp [listRemoveHead, hhead, hdelete], hl'⟩

theorem Kernel.Linked.removeHead_nil {l : Queue} (h : lk.Linked m) (hl : l ∈ lk.heads)
    (hlist : lk.list l = []) : listRemoveHead m (.inl l) = some (none, m) := by
  have hhead := h.next_head hl
  rw [hlist] at hhead
  exact if_neg (by simp [hhead])

theorem Kernel.list_eq (hrun : lk'.runQueue = lk.runQueue)
    (hwait : ∀ q, (lk'.wait q).list = (lk.wait q).list) : lk'.list = lk.list := by
  funext l
  cases l with
  | run p => exact congrFun hrun p
  | wait q => exact hwait q

theorem Kernel.list_run {p : Priority} {l : List Tid}
    (hrun : lk'.runQueue = Function.update lk.runQueue p l) (hwait : lk'.wait = lk.wait) :
    lk'.list = Function.update lk.list (.run p) l := by
  funext l'
  cases l' with
  | run p' => by_cases hp : p' = p <;> simp [Kernel.list, hrun, hp]
  | wait q => simp [Kernel.list, hwait]

theorem Kernel.list_wait {l : List Tid} (hrun : lk'.runQueue = lk.runQueue)
    (hwait : ∀ q', (lk'.wait q').list = if q' = q then l else (lk.wait q').list) :
    lk'.list = Function.update lk.list (.wait q) l := by
  funext l'
  cases l' with
  | run p => simp [Kernel.list, hrun]
  | wait q' => by_cases hq : q' = q <;> simp [Kernel.list, hwait, hq]

theorem Kernel.setWait_list {f : WaitQueue → WaitQueue} (q' : Wq) :
    ((lk.setWait q f).wait q').list =
      if q' = q then (f (lk.wait q)).list else (lk.wait q').list := by
  by_cases hq : q' = q <;> simp [Kernel.setWait, hq]

theorem Kernel.dequeue_list {rest : List Tid} {err : Status} :
    (lk.dequeue q rest t err).list = Function.update lk.list (.wait q) rest :=
  Kernel.list_wait rfl fun q' =>
    Kernel.setWait_list (f := fun wait => { wait with list := rest, count := wait.count - 1 }) q'

theorem Kernel.enqueue_list :
    (lk.enqueue q t).list = Function.update lk.list (.wait q) (lk.list (.wait q) ++ [t]) :=
  Kernel.list_wait rfl fun q' => Kernel.setWait_list
    (f := fun wait => { wait with list := wait.list ++ [t], count := wait.count + 1 }) q'

theorem Kernel.getTopThread_nextTid (lk : Kernel) : lk.getTopThread.2.nextTid = lk.nextTid := by
  unfold Kernel.getTopThread
  rcases lk.scan_spec (List.finRange 32).reverse with ⟨heq, -⟩ | ⟨p, ts, -, -, heq⟩ <;> rw [heq]

theorem Kernel.Linked.create (h : lk.Linked m) (priority : Priority) (entry : Entry)
    (hoff : lk.Off lk.nextTid) (hlist : (lk.wait (.retcode lk.nextTid)).list = []) :
    (lk.addThread none lk.nextTid priority entry).Linked
      (listInitialize (listClearNode m (.inr lk.nextTid))
        (.inl (.wait (.retcode lk.nextTid)))) := by
  have hempty : lk.list (.wait (.retcode lk.nextTid)) = [] := hlist
  have hset := (h.clear_node hoff).initialize_head hempty
  have hlists : (lk.addThread none lk.nextTid priority entry).list = lk.list := by
    refine Kernel.list_eq rfl fun q => ?_
    by_cases hq : q = .retcode lk.nextTid
    · simp [Kernel.addThread, hq, waitQueueInit, hlist]
    · simp [Kernel.addThread, hq]
  have hheads : (lk.addThread none lk.nextTid priority entry).heads =
      insert (.wait (.retcode lk.nextTid)) lk.heads := by
    ext l
    constructor
    · intro hl
      by_cases hnew : l = .wait (.retcode lk.nextTid)
      · exact .inl hnew
      · refine .inr fun t ht => lt_of_le_of_ne (Nat.le_of_lt_succ (hl t ht)) ?_
        rintro rfl
        exact hnew ht
    · rintro (rfl | hl) t ht
      · cases ht
        exact Nat.lt_succ_self _
      · exact Nat.lt_succ_of_lt (hl t ht)
  have hnodes : (lk.addThread none lk.nextTid priority entry).nodes =
      insert lk.nextTid lk.nodes := by
    ext u
    simp only [Kernel.nodes, Kernel.addThread, Set.mem_insert_iff, Set.mem_ofPred_eq]
    exact Nat.lt_succ_iff_lt_or_eq.trans or_comm
  unfold Kernel.Linked
  rw [hlists, hheads, hnodes]
  exact hset

/-- The calls are sound: none follows a null pointer, each returns what the kernel has, and the
rings are the queues again. -/
theorem Kernel.Call.linked (h : lk.Call calls lk') (hl : lk.Linked m) :
    ∃ m', ListCall.applyAll m calls = some m' ∧ lk'.Linked m' := by
  cases h with
  | insertHead t hready hoff hmade =>
    have hout := hl.not_inList hoff hmade
    obtain ⟨m', hadd, hl'⟩ := hl.addHead (lk.insertInRunQueueHead t) (lk.mem_heads_run _) hoff
      (Kernel.list_run rfl rfl) rfl
    exact ⟨m', by simp [ListCall.applyAll, ListCall.apply, hout, hadd], hl'⟩
  | insertTail t hready hoff hmade =>
    have hout := hl.not_inList hoff hmade
    obtain ⟨m', hadd, hl'⟩ := hl.addTail (lk.insertInRunQueueTail t) (lk.mem_heads_run _) hoff
      (Kernel.list_run rfl rfl) rfl
    exact ⟨m', by simp [ListCall.applyAll, ListCall.apply, hout, hadd], hl'⟩
  | pick p t rest hlist htop hqueues =>
    have hp := lk.mem_heads_run p
    have hmem : t ∈ lk.list (.run p) := by simp [Kernel.list, hlist]
    have hrest : (lk.list (.run p)).erase t = rest := by simp [Kernel.list, hlist]
    have hfirst := hl.firstEntry hp
    obtain ⟨m', hdelete, hl'⟩ := hl.delete _ hmem (hrest.symm ▸ hqueues) lk.getTopThread_nextTid
    have hempty := hl'.isEmpty (lk.getTopThread.2.mem_heads_run p)
    rw [hqueues, Function.update_self] at hempty
    refine ⟨m', ?_, hl'⟩
    simp [ListCall.applyAll, ListCall.apply, hfirst, hdelete, hempty, Kernel.list, hlist]
  | enqueue q t hrunning hoff hq =>
    obtain ⟨m', hadd, hl'⟩ := hl.addTail (lk.enqueue q t) hq hoff Kernel.enqueue_list rfl
    exact ⟨m', by simp [ListCall.applyAll, ListCall.apply, hadd], hl'⟩
  | dequeue q t rest err hlist hblocked =>
    obtain ⟨m', hremove, hl'⟩ := hl.removeHead (l := .wait q) (lk.dequeue q rest t err) hlist
      Kernel.dequeue_list rfl
    exact ⟨m', by simp [ListCall.applyAll, ListCall.apply, hremove], hl'⟩
  | empty q hlist hq =>
    have hremove := hl.removeHead_nil hq hlist
    exact ⟨m, by simp [ListCall.applyAll, ListCall.apply, hremove], hl⟩
  | unblock q t err hblocked hmem hmade =>
    have hin : listInList m (.inr t) = true := (hl.inList hmade).mpr ⟨.wait q, hmem⟩
    obtain ⟨m', hdelete, hl'⟩ := hl.delete (l := .wait q)
      (lk.dequeue q ((lk.wait q).list.erase t) t err) hmem Kernel.dequeue_list rfl
    exact ⟨m', by simp [ListCall.applyAll, ListCall.apply, hin, hdelete], hl'⟩
  | create priority entry hoff hlist => exact ⟨_, rfl, hl.create priority entry hoff hlist⟩
  | still hlist hnext => exact ⟨m, rfl, hl.congr hlist hnext⟩

theorem Kernel.Calls.linked (h : lk.Calls calls lk') (hl : lk.Linked m) :
    ∃ m', ListCall.applyAll m calls = some m' ∧ lk'.Linked m' := by
  induction h with
  | nil => exact ⟨m, rfl, hl⟩
  | snoc _ hmore ih =>
    obtain ⟨m₁, happly, hl₁⟩ := ih
    obtain ⟨m₂, happly', hl₂⟩ := hmore.linked hl₁
    exact ⟨m₂, (ListCall.applyAll_append happly).trans happly', hl₂⟩

end Calls

end UefiLkl.Lk
