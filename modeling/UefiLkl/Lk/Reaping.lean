import UefiLkl.Lk.Accounts
import UefiLkl.Lk.Expiry
set_option autoImplicit false

/-!
A thread is taken off the list of threads once, by itself or by who joins it, and who joins it
frees its memory, once, and is told what it exited with.
-/

namespace UefiLkl.Lk
open Coroutine

section Own

variable {lk lk' : Kernel} {c t u : Tid}

theorem Kernel.Kept.listed (h : lk.Kept t) (hunlinks : lk.unlinks t = 0) : lk.At t .listed := by
  obtain ⟨stage, hs⟩ := h.stage
  have hzero := hs.unlinks
  rw [hunlinks] at hzero
  cases stage with
  | listed => exact hs
  | _ => cases hzero

theorem Kernel.At.useThread (h : lk.At t .listed) : lk.useThread t = lk :=
  if_pos h.structFrees

theorem Kernel.popAll_woken {q : Wq} {err : Status} {list : List Tid} (hu : u ∈ list) :
    ((Kernel.popAll q err list lk).threads u).waitQueueBlockRet = err ∧
      ((Kernel.popAll q err list lk).threads u).state = .ready := by
  induction list generalizing lk with
  | nil => cases hu
  | cons v rest ih =>
    rw [Kernel.popAll]
    by_cases hrest : u ∈ rest
    · exact ih hrest
    · rw [Kernel.popAll_threads hrest, (List.mem_cons.mp hu).resolve_right hrest]
      simp [Kernel.insertInRunQueueHead, Kernel.dequeue, Kernel.note]

theorem Kernel.popAll_rest (q : Wq) (err : Status) (list : List Tid) (lk : Kernel) :
    Kernel.popAll q err list lk = { lk with
      threads := (Kernel.popAll q err list lk).threads
      runQueue := (Kernel.popAll q err list lk).runQueue
      runQueueBitmap := (Kernel.popAll q err list lk).runQueueBitmap
      wait := (Kernel.popAll q err list lk).wait
      log := (Kernel.popAll q err list lk).log } ∧
    ∀ u, ∃ state ret queue, (Kernel.popAll q err list lk).threads u = { lk.threads u with
      state := state
      waitQueueBlockRet := ret
      blockingWaitQueue := queue } := by
  induction list generalizing lk with
  | nil => exact ⟨rfl, fun _ => ⟨_, _, _, rfl⟩⟩
  | cons v rest ih =>
    obtain ⟨hrest, hthreads⟩ := ih ((lk.dequeue q rest v err).insertInRunQueueHead v)
    refine ⟨?_, fun u => ?_⟩
    · rw [Kernel.popAll, hrest]
      rfl
    · obtain ⟨state, ret, queue, hu⟩ := hthreads u
      rw [Kernel.popAll, hu]
      by_cases huv : u = v
      · subst huv
        exact ⟨state, ret, queue, by simp [Kernel.insertInRunQueueHead, Kernel.dequeue,
          Kernel.note, Kernel.setWait]⟩
      · exact ⟨state, ret, queue, by simp [Kernel.insertInRunQueueHead, Kernel.dequeue,
          Kernel.note, Kernel.setThread, Kernel.setWait, huv]⟩

theorem Kernel.Leaves.popAll (lk : Kernel) (t : Tid) (err : Status) :
    Kernel.Leaves t lk (Kernel.popAll (.retcode t) err (lk.wait (.retcode t)).list lk) := by
  obtain ⟨hrest, hthreads⟩ :=
    Kernel.popAll_rest (.retcode t) err (lk.wait (.retcode t)).list lk
  obtain ⟨-, -, -, hlog⟩ := Kernel.popAll_parts (.retcode t) err lk
    (rfl : (lk.wait (.retcode t)).list = _)
  obtain ⟨state, ret, queue, ht⟩ := hthreads t
  refine ⟨by rw [hrest], by rw [hrest], by rw [hrest], by rw [hrest], fun u => by rw [hrest],
    fun hp => by rwa [hrest], fun r hr => by rwa [hrest] at hr, fun hf => by rwa [hrest] at hf,
    fun _ => by rw [ht], fun _ => by rw [ht], fun _ => by rw [ht], fun _ => by rw [ht],
    fun _ => by rw [ht], fun _ hd => ?_, fun r hr => ?_, fun c r hr => ?_⟩
  · by_cases hmem : t ∈ (lk.wait (.retcode t)).list
    · rw [(Kernel.popAll_woken hmem).2] at hd
      cases hd
    · rwa [Kernel.popAll_threads hmem] at hd
  · rw [hlog]
    exact List.mem_append_left _ hr
  · rw [hlog] at hr
    simpa using hr

theorem Kernel.Reaped.popAll (h : lk.Reaped t) (err : Status) (herr : err < 0) :
    (Kernel.popAll (.retcode t) err (lk.wait (.retcode t)).list lk).Reaped t := by
  obtain ⟨hrest, -⟩ := Kernel.popAll_rest (.retcode t) err (lk.wait (.retcode t)).list lk
  obtain ⟨-, -, hlist, -⟩ := Kernel.popAll_parts (.retcode t) err lk
    (rfl : (lk.wait (.retcode t)).list = _)
  refine h.leave (.popAll lk t err) (fun hmade hd => ?_) (fun _ _ => hlist)
    (fun u hu => by rwa [Kernel.Joining, hrest] at hu)
    fun _ u hu => ⟨fun hmem => ?_, fun hret => ?_⟩
  · have hempty := h.queue hmade (.inl hd)
    rw [Kernel.popAll_threads (by simp [hempty])]
    exact hd
  · exact .inr (by rwa [(Kernel.popAll_woken hmem).1])
  · by_cases hmem : u ∈ (lk.wait (.retcode t)).list
    · rwa [(Kernel.popAll_woken hmem).1]
    · rwa [Kernel.popAll_threads hmem]

def Kernel.detaching (lk : Kernel) (t : Tid) : Kernel :=
  let woken := Kernel.popAll (.retcode t) ERR_THREAD_DETACHED (lk.wait (.retcode t)).list
    (lk.lock.useThread t)
  woken.setThread t fun thread =>
    { thread with detached := !decide ((woken.threads t).state = .death) }

theorem threadDetach_perform (lk : Kernel) (t : Tid) :
    ∃ r, (perform (.threadDetach t)).run lk = .done r ((lk.detaching t).unlock lk.ints) := by
  have hwait : (lk.lock.useThread t).wait = lk.wait := by
    rw [Kernel.useThread_eq]
    rfl
  simp only [perform, returning, threadDetach, Section.run_bind, lockThreads_run,
    Section.run_modify, waitQueueWakeAll_run, Section.run_read, Susp.done_bind, hwait]
  exact ⟨_, rfl⟩

theorem Kernel.Reaped.detach (h : lk.Reaped t) (hunlinks : lk.unlinks t = 0) :
    (lk.detaching t).Reaped t := by
  have huse : lk.lock.useThread t = lk.lock := if_pos (h.listed hunlinks).structFrees
  have hlock : lk.lock.Reaped t := h.stay { Kernel.Leaves.refl lk with } rfl rfl fun _ => id
  obtain ⟨hrest, -⟩ := Kernel.popAll_rest (.retcode t) ERR_THREAD_DETACHED
    (lk.wait (.retcode t)).list lk.lock
  obtain ⟨-, -, hlist, -⟩ := Kernel.popAll_parts (.retcode t) ERR_THREAD_DETACHED lk.lock
    (rfl : (lk.wait (.retcode t)).list = _)
  have hwoken := hlock.popAll ERR_THREAD_DETACHED (by decide)
  unfold Kernel.detaching
  dsimp only
  rw [huse]
  have hu : (Kernel.popAll (.retcode t) ERR_THREAD_DETACHED (lk.wait (.retcode t)).list
      lk.lock).unlinks t = 0 := by
    rw [hrest]
    exact hunlinks
  change (Kernel.popAll (.retcode t) ERR_THREAD_DETACHED (lk.wait (.retcode t)).list
    lk.lock).Reaped t at hwoken
  generalize Kernel.popAll (.retcode t) ERR_THREAD_DETACHED (lk.wait (.retcode t)).list lk.lock =
    woken at hwoken hlist hu ⊢
  have hs := hwoken.listed hu
  have hset : ∀ (b : Bool) u, ((woken.setThread t fun thread =>
      { thread with detached := b }).threads u).waitQueueBlockRet =
        (woken.threads u).waitQueueBlockRet := by
    intro b u
    by_cases hut : u = t
    · subst hut
      simp
    · simp [Kernel.setThread, hut]
  refine ⟨⟨⟨.listed, ⟨hu, hs.stackFrees, hs.structFrees, hs.todo, fun hne => absurd rfl hne⟩⟩,
    fun _ _ => hlist, hwoken.fault, fun hmade hstate => ?_, hwoken.joined, fun r hr => ?_,
    fun hmade => ?_, hwoken.plain⟩, fun u hjoin => ?_, hwoken.sole⟩
  · rw [Kernel.setThread_self] at hstate ⊢
    exact hwoken.exited hmade hstate
  · rw [Kernel.setThread_self]
    exact hwoken.exiting r hr
  · rw [Kernel.setThread_self]
    exact hwoken.magic hmade
  · obtain ⟨hmade, hwhere⟩ := hwoken.joining u hjoin
    refine ⟨hmade, hwhere.imp id (Or.imp (fun hret => by rwa [hset]) fun hj => ⟨?_, ?_, hu⟩)⟩
    · rw [Kernel.setThread_self]
      exact hj.state
    · rw [Kernel.setThread_self]
      simp [hj.state]

theorem Kernel.Dispatched.leaves (hd : lk.Dispatched lk')
    (halive : t < lk.nextTid → (lk'.threads t).state = .death → (lk.threads t).state = .death) :
    Kernel.Leaves t lk lk' := by
  obtain ⟨state, n, ht⟩ := hd.threads t
  have hrest := hd.rest
  refine ⟨by rw [hrest], by rw [hrest], by rw [hrest], by rw [hrest], fun u => by rw [hrest],
    fun hp => by rwa [hrest], fun r hr => by rwa [hrest] at hr, fun hf => by rwa [hrest] at hf,
    fun _ => by rw [ht], fun _ => by rw [ht], fun _ => by rw [ht], fun _ => by rw [ht],
    fun _ => by rw [ht], halive, fun r hr => by rwa [hrest], fun c r hr => by rwa [hrest] at hr⟩

theorem Kernel.Dispatched.joining (hd : lk.Dispatched lk') :
    lk'.Joining t u ↔ lk.Joining t u := by
  rw [Kernel.Joining, Kernel.Joining, hd.rest]

theorem Kernel.Dispatched.ret (hd : lk.Dispatched lk') (u : Tid) :
    (lk'.threads u).waitQueueBlockRet = (lk.threads u).waitQueueBlockRet := by
  obtain ⟨state, n, hu⟩ := hd.threads u
  rw [hu]

theorem Kernel.Reaped.dispatched (h : lk.Reaped t) (hd : lk.Dispatched lk')
    (hstate : (lk.threads t).state = .death) (hstate' : (lk'.threads t).state = .death) :
    lk'.Reaped t := by
  have hwait : lk'.wait = lk.wait := by rw [hd.rest]
  exact h.leave (hd.leaves fun _ _ => hstate) (fun _ _ => hstate') (fun _ hq => by rwa [hwait])
    (fun _ => hd.joining.mp) fun _ u _ => ⟨fun hmem => .inl (by rwa [hwait]), fun hret => by
      rwa [hd.ret]⟩

def Kernel.dying (lk : Kernel) (t : Tid) (r : Int) : Kernel :=
  (lk.begins t (.threadExit r)).lock.setThread t fun thread =>
    { thread with state := .death, retcode := r }

theorem Kernel.dying_self (lk : Kernel) (t : Tid) (r : Int) :
    (lk.dying t r).threads t = { lk.threads t with state := .death, retcode := r } :=
  Function.update_self _ _ _

theorem Kernel.dying_other {r : Int} (hu : u ≠ t) : (lk.dying t r).threads u = lk.threads u :=
  Function.update_of_ne hu _ _

theorem Kernel.dying_joining {r : Int} (h : (lk.dying t r).Joining t u) :
    lk.Joining t u ∧ u ≠ t := by
  by_cases hu : u = t
  · simp [Kernel.Joining, Kernel.dying, Kernel.setThread, Kernel.lock, Kernel.begins, hu,
      Op.joins] at h
  · exact ⟨by simpa [Kernel.Joining, Kernel.dying, Kernel.setThread, Kernel.lock, Kernel.begins,
      Kernel.note, hu] using h, hu⟩

theorem Kernel.dying_joined {c : Tid} {r r' : Int}
    (h : .joined c t r' ∈ (lk.dying t r).log) : .joined c t r' ∈ lk.log := by
  rcases List.mem_append.mp h with h | h
  · exact h
  · cases List.mem_singleton.mp h

theorem Kernel.dying_call (lk : Kernel) (t : Tid) (r : Int) :
    .call t (.threadExit r) ∈ (lk.dying t r).log :=
  List.mem_append_right _ List.mem_cons_self

theorem Kernel.Reaped.unlink (h : lk.Reaped t) (hlisted : lk.At t .listed) (hmade : t < lk.nextTid)
    (halive : (lk.threads t).state ≠ .death) (hdetached : (lk.threads t).detached = true)
    (r : Int) : ((lk.dying t r).unlink t).Reaped t := by
  have hempty := h.queue hmade (.inr hdetached)
  have hzero : lk.unlinks t = 0 := hlisted.unlinks
  have hself : ((lk.dying t r).unlink t).threads t =
      { lk.threads t with state := .death, retcode := r, magic := false } := by
    have hunlink : ((lk.dying t r).unlink t).threads t =
        { (lk.dying t r).threads t with magic := false } := Function.update_self _ _ _
    rw [hunlink, Kernel.dying_self]
  have hone : ((lk.dying t r).unlink t).unlinks t = 1 := by
    change Function.update lk.unlinks t (lk.unlinks t + 1) t = 1
    rw [Function.update_self, hzero]
  refine ⟨⟨⟨.left, ⟨hone, hlisted.stackFrees, hlisted.structFrees, hlisted.todo, fun _ =>
    ⟨hmade, by rw [hself], by simpa [hself] using hdetached⟩⟩⟩, fun _ _ => hempty, h.fault,
    fun _ _ => by rw [hself]; exact lk.dying_call t r, fun c r' hr =>
      List.mem_append_left _ (h.joined c r' (Kernel.dying_joined hr)),
    fun r' _ => ⟨hmade, by rw [hself]⟩, fun _ => by simp [hself, hone], h.plain⟩,
    fun u hu => ⟨hmade, ?_⟩, fun u v hu hv =>
      h.sole u v (Kernel.dying_joining hu).1 (Kernel.dying_joining hv).1⟩
  obtain ⟨hjoin, hne⟩ := Kernel.dying_joining hu
  rcases (h.joining u hjoin).2 with hmem | hret | hj
  · rw [hempty] at hmem
    cases hmem
  · have hthread : ((lk.dying t r).unlink t).threads u = lk.threads u :=
      (Function.update_of_ne hne _ _).trans (Kernel.dying_other hne)
    exact .inr (.inl (by rwa [hthread]))
  · exact absurd hj.state halive

theorem Kernel.Reaped.die (h : lk.Reaped t) (hlisted : lk.At t .listed) (hmade : t < lk.nextTid)
    (hself : t ∉ (lk.wait (.retcode t)).list) (hdetached : (lk.threads t).detached = false)
    (r : Int) : (Kernel.popAll (.retcode t) 0 ((lk.dying t r).wait (.retcode t)).list
      (lk.dying t r)).Reaped t := by
  have hl := Kernel.Leaves.popAll (lk.dying t r) t 0
  obtain ⟨-, -, hlist, -⟩ := Kernel.popAll_parts (.retcode t) 0 (lk.dying t r)
    (rfl : ((lk.dying t r).wait (.retcode t)).list = _)
  obtain ⟨hrest, -⟩ := Kernel.popAll_rest (.retcode t) 0 ((lk.dying t r).wait (.retcode t)).list
    (lk.dying t r)
  have hthread : (Kernel.popAll (.retcode t) 0 ((lk.dying t r).wait (.retcode t)).list
      (lk.dying t r)).threads t = { lk.threads t with state := .death, retcode := r } :=
    (Kernel.popAll_threads (show t ∉ ((lk.dying t r).wait (.retcode t)).list from hself)).trans
      (lk.dying_self t r)
  have hjoin : ∀ u, (Kernel.popAll (.retcode t) 0 ((lk.dying t r).wait (.retcode t)).list
      (lk.dying t r)).Joining t u → lk.Joining t u := fun u hu =>
    (Kernel.dying_joining (by rwa [Kernel.Joining, hrest] at hu)).1
  generalize Kernel.popAll (.retcode t) 0 ((lk.dying t r).wait (.retcode t)).list
    (lk.dying t r) = woken at hl hlist hthread hjoin ⊢
  have hzero : woken.unlinks t = 0 := hl.unlinks.trans hlisted.unlinks
  refine ⟨⟨⟨.listed, ⟨hzero, hl.stackFrees.trans hlisted.stackFrees,
    hl.structFrees.trans hlisted.structFrees, fun u => (hl.todo u).trans (hlisted.todo u),
    fun hne => absurd rfl hne⟩⟩, fun _ _ => hlist, fun hf => h.fault (hl.fault hf),
    fun _ _ => by rw [hthread]; exact hl.calls r (lk.dying_call t r),
    fun c r' hr => hl.calls r' (List.mem_append_left _ (h.joined c r'
      (Kernel.dying_joined (hl.joined c r' hr)))), fun r' _ => ⟨hl.made.mpr hmade, by rw [hthread]⟩,
    fun _ => ?_, hl.plain h.plain⟩, fun u _ => ⟨hl.made.mpr hmade, .inr (.inr
      ⟨by rw [hthread], by rw [hthread]; exact hdetached, hzero⟩)⟩,
    fun u v hu hv => h.sole u v (hjoin u hu) (hjoin v hv)⟩
  rw [hthread, hzero]
  simpa [hlisted.unlinks, Stage.unlinks] using h.magic hmade

theorem Kernel.Reaped.exit (h : lk.Reaped t) (hc : lk.currentThread = t) (hmade : t < lk.nextTid)
    (halive : (lk.threads t).state ≠ .death) (hself : t ∉ (lk.wait (.retcode t)).list) (r : Int) :
    ((lk.begins t (.threadExit r)).exiting r).Reaped t := by
  obtain ⟨stage, hs⟩ := h.stage
  have hlisted : stage = .listed := by
    by_contra hne
    exact halive (hs.gone hne).2.1
  subst hlisted
  have huse : (lk.begins t (.threadExit r)).lock.useThread t = (lk.begins t (.threadExit r)).lock :=
    if_pos hs.structFrees
  have hcurrent : (lk.begins t (.threadExit r)).currentThread = t := hc
  have hdetached : ((lk.dying t r).threads t).detached = (lk.threads t).detached := by
    rw [Kernel.dying_self]
  unfold Kernel.exiting
  dsimp only
  rw [hcurrent, huse]
  change (if ((lk.dying t r).threads t).detached then (lk.dying t r).unlink t else
    Kernel.popAll (.retcode t) 0 ((lk.dying t r).wait (.retcode t)).list (lk.dying t r)).Reaped t
  rw [hdetached]
  split
  · next hd => exact h.unlink hs hmade halive hd r
  · next hd => exact h.die hs hmade hself (Bool.eq_false_iff.mpr hd) r

end Own

section Join

variable {lk lk' : Kernel} {c t u : Tid} {timeout : LkTime} {b : Bool}

theorem waitQueueBlock_suspends {q : Wq} (h : lk.Wf) (hidle : lk.currentThread ≠ idleThread)
    (hq : ∀ u, q = .retcode u → u < lk.nextTid) (htimeout : timeout ≠ 0) :
    ∃ lk' k, (waitQueueBlock q timeout).run lk = .switch lk' k ∧
      (lk.enqueue q lk.currentThread).Dispatched lk' ∧
      ∀ s : Kernel, ∃ armed, k s =
        .done (s.threads lk.currentThread).waitQueueBlockRet { s with armed := armed } := by
  have hplaced := h.enqueue hidle hq
  have hblocked : ((lk.enqueue q lk.currentThread).threads lk.currentThread).state = .blocked := by
    simp [Kernel.enqueue, Kernel.note]
  have hresched : ∀ lk₁ : Kernel, (lk.enqueue q lk.currentThread).Dispatched lk₁ →
      lk₁.threads = (lk.enqueue q lk.currentThread).threads →
      lk₁.currentThread = lk.currentThread → lk₁.Placed none ∅ →
      ∃ lk', threadResched.run lk₁ = .switch lk' (fun s => .done () s) ∧
        (lk.enqueue q lk.currentThread).Dispatched lk' := by
    intro lk₁ hd hthreads hcurrent hlk₁
    have hne := hlk₁.getTopThread_ne (t := lk.currentThread)
      (by rw [hthreads, hblocked]; decide) hidle
    refine ⟨_, ?_, hd.trans ((Kernel.Dispatched.pick lk₁).trans
      (.switch _ lk₁.getTopThread.1))⟩
    simp only [threadResched]
    rw [if_neg (by rw [Kernel.getTopThread_eq]; exact fun hc => hne (hc.trans hcurrent))]
  unfold waitQueueBlock
  simp only [Section.run_bind, getCurrentThread_run, Susp.done_bind, if_neg htimeout]
  by_cases hinf : timeout ≠ INFINITE_TIME
  · obtain ⟨lk', hrun, hd⟩ := hresched _ (.arm _ lk.currentThread true) rfl rfl hplaced
    simp only [if_pos hinf, Section.run_bind, Section.run_modify, Susp.done_bind, hrun,
      Susp.switch_bind, Section.run_read]
    exact ⟨lk', _, rfl, hd, fun s => ⟨_, rfl⟩⟩
  · obtain ⟨lk', hrun, hd⟩ := hresched _ (.refl _) rfl rfl hplaced
    simp only [if_neg hinf, Section.run_bind, Section.run_modify, Susp.done_bind, hrun,
      Susp.switch_bind, Section.run_read]
    exact ⟨lk', _, rfl, hd, fun s => ⟨s.armed, rfl⟩⟩

/-- What `thread_join` does when it does not wait, or no longer. -/
def Kernel.joinDead (lk : Kernel) (c t : Tid) : Kernel :=
  let lk := lk.useThread t
  (lk.note (.joined c t (lk.threads t).retcode)).unlink t

theorem Kernel.Kept.take {stack : List Frame} (h : lk.Kept t) (hj : lk.Joinable t)
    (hmade : t < lk.nextTid) (hframes : lk.frames c = .threadJoin t timeout :: stack)
    (hnobody : ∀ u, lk.Joining t u → u = c) (state : Bool) :
    (((lk.joinDead c t).unlock state).ends c (.threadJoin t timeout) b NO_ERROR
      ([.freeStack t] ++ stack)).Reaped t := by
  have hlisted := h.listed hj.unlinks
  have huse := hlisted.useThread
  unfold Kernel.joinDead
  dsimp only
  rw [huse]
  generalize hlk' : (((lk.note (.joined c t (lk.threads t).retcode)).unlink t).unlock
    state).ends c (.threadJoin t timeout) b NO_ERROR ([.freeStack t] ++ stack) = lk'
  have hself : lk'.threads t = { lk.threads t with magic := false } := by
    rw [← hlk']
    exact Function.update_self _ _ _
  have hone : lk'.unlinks t = 1 := by
    rw [← hlk']
    change Function.update lk.unlinks t (lk.unlinks t + 1) t = 1
    rw [Function.update_self, hj.unlinks]
  have hlog : lk'.log = lk.log ++ [.joined c t (lk.threads t).retcode] ++
      [.ret c (.threadJoin t timeout) b NO_ERROR] := by
    rw [← hlk']
    rfl
  have hstack := hlisted.todo c
  rw [hframes, List.filter_cons_of_neg (by simp [Frame.frees])] at hstack
  have hc : lk'.frames c = .freeStack t :: stack := by
    rw [← hlk']
    exact Function.update_self _ _ _
  have hother : ∀ u, u ≠ c → lk'.frames u = lk.frames u := by
    intro u hu
    rw [← hlk']
    exact Function.update_of_ne hu _ _
  have hnone : ∀ u, ¬ lk'.Joining t u := by
    intro u hu
    rw [← hlk'] at hu
    obtain ⟨hu, hne⟩ := Kernel.joining_ends hu
    exact hne (hnobody u hu)
  refine ⟨⟨⟨.joined c, ⟨hone, ?_, ?_, fun u => ?_, fun _ => ⟨?_, ?_, ?_⟩⟩⟩, fun _ _ => ?_,
    fun hf => ?_, fun _ _ => ?_, fun d r hr => ?_, fun r hr => ?_, fun _ => ?_, fun u f hf => ?_⟩,
    fun u hu => absurd hu (hnone u), fun u v hu => absurd hu (hnone u)⟩
  · rw [← hlk']
    exact hlisted.stackFrees
  · rw [← hlk']
    exact hlisted.structFrees
  · by_cases hu : u = c
    · rw [hu, hc, List.filter_cons_of_pos (by simp [Frame.frees]), hstack]
      simp [Stage.todo]
    · rw [hother u hu, hlisted.todo u]
      simp [Stage.todo, hu]
  · rw [← hlk']
    exact hmade
  · rw [hself]
    exact hj.state
  · rw [hself]
    simp [hj.detached]
  · rw [← hlk']
    exact h.queue hmade (.inl hj.state)
  · rw [← hlk'] at hf
    exact h.fault hf
  · rw [hself, hlog]
    exact List.mem_append_left _ (List.mem_append_left _ (h.exited hmade hj.state))
  · rw [hlog] at hr ⊢
    refine List.mem_append_left _ (List.mem_append_left _ ?_)
    simp only [List.append_assoc, List.mem_append, List.mem_cons, List.not_mem_nil, or_false,
      Happening.joined.injEq, true_and, reduceCtorEq] at hr
    rcases hr with hr | ⟨-, rfl⟩
    · exact h.joined d r hr
    · exact h.exited hmade hj.state
  · rw [hself]
    refine ⟨?_, hj.state⟩
    rw [← hlk']
    exact hmade
  · rw [hself, hone]
    simp
  · by_cases hu : u = c
    · rw [hu, hc] at hf
      rcases List.mem_cons.mp hf with rfl | hf
      · rfl
      · exact h.plain c f (by rw [hframes]; exact List.mem_cons_of_mem _ hf)
    · rw [hother u hu] at hf
      exact h.plain u f hf

theorem threadJoin_perform (huse : lk.useThread t = lk) (timeout : LkTime) :
    (perform (.threadJoin t timeout)).run lk =
      if (lk.threads t).detached then .done ERR_THREAD_DETACHED (lk.lock.unlock lk.ints)
      else if (lk.threads t).state ≠ .death then
        ((waitQueueBlock (.retcode t) timeout).run lk.lock).bind fun err s =>
          if err < 0 then .done err (s.unlock lk.ints)
          else .done NO_ERROR ((s.joinDead lk.currentThread t).unlock lk.ints)
      else .done NO_ERROR ((lk.lock.joinDead lk.currentThread t).unlock lk.ints) := by
  have hlock : lk.lock.useThread t = lk.lock := by
    have hsame : lk.lock.useThread t = (lk.useThread t).lock := by
      unfold Kernel.useThread
      split <;> simp_all [Kernel.lock]
    rw [hsame, huse]
  have hrest : ∀ (err : Status) (s : Kernel), (if err < 0 then (do
        unlockThreads lk.ints
        pure err : Section Kernel Status) else do
          .modify fun lk => lk.useThread t
          .modify fun s => s.note (.joined lk.currentThread t (s.threads t).retcode)
          .modify fun lk => lk.unlink t
          unlockThreads lk.ints
          pure NO_ERROR).run s =
        if err < 0 then .done err (s.unlock lk.ints)
        else .done NO_ERROR ((s.joinDead lk.currentThread t).unlock lk.ints) := by
    intro err s
    split <;> rfl
  have hthread : lk.lock.threads t = lk.threads t := rfl
  simp only [perform, threadJoin, Section.run_bind, getCurrentThread_run, lockThreads_run,
    Section.run_modify, Section.run_read, Susp.done_bind, hlock, hthread]
  by_cases hdetached : (lk.threads t).detached = true
  · rw [if_pos hdetached, if_pos hdetached]
    rfl
  · rw [if_neg hdetached, if_neg hdetached]
    by_cases halive : (lk.threads t).state ≠ .death
    · rw [if_pos halive, if_pos halive]
      exact congrArg _ (funext fun err => funext fun s => hrest err s)
    · rw [if_neg halive, if_neg halive]
      rfl

theorem Kernel.Kept.unlock (h : lk.Kept t) (state : Bool) : (lk.unlock state).Kept t :=
  h.stay { Kernel.Leaves.refl lk with } rfl rfl

theorem Kernel.Reaped.unlock (h : lk.Reaped t) (state : Bool) : (lk.unlock state).Reaped t :=
  h.stay { Kernel.Leaves.refl lk with } rfl rfl fun _ => id

theorem Kernel.Kept.fails {stack : List Frame} {err : Status} (h : lk.Kept t)
    (hframes : lk.frames c = .threadJoin t timeout :: stack) (herr : err ≠ NO_ERROR)
    (hnobody : ∀ u, lk.Joining t u → u = c) :
    (lk.ends c (.threadJoin t timeout) b err ((if err = NO_ERROR then [.freeStack t] else []) ++
      stack)).Reaped t := by
  have hnone : ∀ u, ¬ (lk.ends c (.threadJoin t timeout) b err
      ((if err = NO_ERROR then [.freeStack t] else []) ++ stack)).Joining t u := by
    intro u hu
    obtain ⟨hu, hne⟩ := Kernel.joining_ends hu
    exact hne (hnobody u hu)
  exact ⟨h.stay (.ends (f := .threadJoin t timeout) hframes rfl fun _ => herr) rfl rfl,
    fun u hu => absurd hu (hnone u), fun u v hu => absurd hu (hnone u)⟩

theorem Kernel.Changes.alive {op : Op} (h : Kernel.Changes c op lk lk')
    (hexit : ∀ r, op ≠ .threadExit r) (hmade : t < lk.nextTid)
    (hstate : (lk'.threads t).state = .death) : (lk.threads t).state = .death := by
  induction h with
  | refl => exact hstate
  | tail h h' ih =>
    refine ih ?_
    rcases h'.thread t with heq | hrecast
    · rwa [heq] at hstate
    · generalize Kernel.threads _ t = thread at hrecast hstate
      cases hrecast with
      | requeued f hf =>
        rw [hf.state] at hstate
        cases hstate
      | quantum | unlinked | detached => exact hstate
      | created => exact absurd rfl (hmade.trans_le (Kernel.Changes.nextTid_le h)).ne
      | dead r hop => exact absurd hop (hexit r)
      | _ => cases hstate

theorem Kernel.Kept.wait (h : lk.Kept t) (hmade : t < lk.nextTid)
    (hdetached : (lk.threads t).detached = false) (hlive : (lk.threads t).state ≠ .death)
    (hlive' : (lk'.threads t).state ≠ .death) (hd : (lk.enqueue (.retcode t) c).Dispatched lk')
    (hnobody : ∀ u, lk.Joining t u → u = c) : lk'.Reaped t := by
  have hthread : (lk.enqueue (.retcode t) c).threads t = lk.threads t ∨
      (lk.enqueue (.retcode t) c).threads t = { lk.threads t with
        state := .blocked
        blockingWaitQueue := some (.retcode t)
        waitQueueBlockRet := NO_ERROR } := by
    by_cases hc : t = c
    · subst hc
      exact .inr (by simp [Kernel.enqueue, Kernel.note, Kernel.setWait])
    · exact .inl (by simp [Kernel.enqueue, Kernel.note, Kernel.setThread, Kernel.setWait, hc])
  have hsame : ∀ {α : Type} (f : Thread → α), (∀ thread, f { thread with
      state := .blocked
      blockingWaitQueue := some (.retcode t)
      waitQueueBlockRet := NO_ERROR } = f thread) →
      f ((lk.enqueue (.retcode t) c).threads t) = f (lk.threads t) := by
    intro α f hf
    rcases hthread with hthread | hthread
    · rw [hthread]
    · rw [hthread, hf]
  have henqueue : Kernel.Leaves t lk (lk.enqueue (.retcode t) c) :=
    { Kernel.Leaves.refl lk with
      made := Iff.rfl
      todo := fun _ => rfl
      plain := id
      exiting := fun _ => id
      magic := fun _ => hsame Thread.magic fun _ => rfl
      detached := fun _ => hsame Thread.detached fun _ => rfl
      freeStack := fun _ => hsame Thread.freeStack fun _ => rfl
      freeStruct := fun _ => hsame Thread.freeStruct fun _ => rfl
      retcode := fun _ => hsame Thread.retcode fun _ => rfl
      alive := fun _ hs => by
        rcases hthread with hthread | hthread
        · rwa [hthread] at hs
        · rw [hthread] at hs
          cases hs
      calls := fun r hr => List.mem_append_left _ hr
      joined := fun d r hr => by simpa [Kernel.enqueue, Kernel.note, Kernel.setThread,
        Kernel.setWait] using hr }
  have hl := henqueue.trans (hd.leaves fun _ hs => absurd hs hlive')
  have hwait : lk'.wait = (lk.enqueue (.retcode t) c).wait := by rw [hd.rest]
  have hjoining : ∀ u, lk'.Joining t u → u = c := fun u hu => hnobody u (hd.joining.mp hu)
  refine ⟨h.leave hl (fun _ hs => absurd hs hlive) (fun _ hor => ?_), fun u hu =>
    ⟨hl.made.mpr hmade, .inl ?_⟩, fun u v hu hv => (hjoining u hu).trans (hjoining v hv).symm⟩
  · rcases hor with hs | hs
    · exact absurd hs hlive
    · rw [hdetached] at hs
      cases hs
  · rw [hwait, hjoining u hu]
    simp [Kernel.enqueue, Kernel.note, Kernel.setThread, Kernel.setWait]

/-- `thread_join` of a listed thread that nobody else joins. -/
theorem threadJoin_reaped {stack : List Frame} {T : Kernel → Prop} (h : lk.Kept t)
    (hsound : lk.Sound) (hc : lk.currentThread = c) (hidle : c ≠ idleThread)
    (hmade : t < lk.nextTid) (hunlinks : lk.unlinks t = 0)
    (hnobody : ∀ u, lk.Joining t u → u = c)
    (hframes : lk.frames c = .threadJoin t timeout :: stack)
    (hT : ∀ s, T s → Turn c (.threadJoin t timeout) (.threadJoin t timeout :: stack) s ∧
      s.Sound ∧ s.Reaped t) :
    ((perform (.threadJoin t timeout)).run lk).Wp T (fun s => s.Reaped t)
      (fun b r s => (s.ends c (.threadJoin t timeout) b r
        ((if r = NO_ERROR then [.freeStack t] else []) ++ stack)).Reaped t) true := by
  have hlock : lk.lock.Kept t := h.stay { Kernel.Leaves.refl lk with } rfl rfl
  have hmoves := perform_changing c (.threadJoin t timeout) lk hc
  rw [threadJoin_perform (h.listed hunlinks).useThread] at hmoves ⊢
  rw [hc] at hmoves ⊢
  by_cases hdetached : (lk.threads t).detached = true
  · rw [if_pos hdetached]
    exact (hlock.unlock lk.ints).fails hframes (by decide) hnobody
  rw [if_neg hdetached] at hmoves ⊢
  rw [Bool.not_eq_true] at hdetached
  by_cases hlive : (lk.threads t).state ≠ .death
  · rw [if_pos hlive] at hmoves ⊢
    by_cases htimeout : timeout = 0
    · have hrun : (waitQueueBlock (.retcode t) timeout).run lk.lock =
          .done ERR_TIMED_OUT lk.lock := by
        simp [waitQueueBlock, htimeout]
      rw [hrun, Susp.done_bind, if_pos (by decide)]
      exact (hlock.unlock lk.ints).fails hframes (by decide) hnobody
    · have hcurrent : lk.lock.currentThread = c := hc
      have hwf : lk.lock.Wf := hsound.wf
      obtain ⟨lk', k, hrun, hd, hk⟩ := waitQueueBlock_suspends hwf (by rwa [hcurrent])
        (fun u (hu : Wq.retcode t = .retcode u) => by cases hu; exact hmade) htimeout
      rw [hcurrent] at hd hk
      rw [hrun, Susp.switch_bind] at hmoves ⊢
      have hchanges : Kernel.Changes c (.threadJoin t timeout) lk lk' := hmoves.1
      refine ⟨hlock.wait hmade hdetached hlive
        (fun hs => hlive (hchanges.alive (by simp) hmade hs)) hd hnobody, fun s hs hreaped => ?_⟩
      obtain ⟨hturn, hsound', hr⟩ := hT s hs
      obtain ⟨armed, hks⟩ := hk s
      have hjoining : s.Joining t c := by
        rw [Kernel.Joining, hturn.doing]
        rfl
      have hrest : Kernel.Kept { s with armed := armed } t :=
        hr.toKept.stay { Kernel.Leaves.refl s with } rfl rfl
      have honly : ∀ u, s.Joining t u → u = c := fun u hu => hr.sole u c hu hjoining
      obtain ⟨hmade', hwhere⟩ := hr.joining c hjoining
      dsimp only
      rw [hks, Susp.done_bind]
      by_cases herr : (s.threads c).waitQueueBlockRet < 0
      · rw [if_pos herr]
        exact (hrest.unlock lk.ints).fails hturn.frames herr.ne honly
      · rw [if_neg herr]
        have hj : s.Joinable t := by
          rcases hwhere with hmem | hret | hj
          · exact absurd hturn.current (hsound'.wf.run_ne_of_blocked hmem)
          · exact absurd hret herr
          · exact hj
        exact hrest.take ⟨hj.state, hj.detached, hj.unlinks⟩ hmade' hturn.frames honly lk.ints
  · rw [if_neg hlive]
    exact hlock.take ⟨not_not.mp hlive, hdetached, hunlinks⟩ hmade hframes hnobody lk.ints

end Join

section Opens

variable {lk : Kernel} {t : Tid} {m : Machine} {f : Frame} {stack : List Frame}
  {next : Int → List Frame} {T : Kernel → Prop}

theorem Machine.Opens.reaped_exit {r : Int} (h : m.Opens (.threadExit r) lk)
    (hlk : lk.Reaped m.current)
    (hT : ∀ s, T s → (Turn m.current (.threadExit r) (f :: stack) s ∧ s.Sound) ∧
      s.Reaped m.current) :
    ((perform (.threadExit r)).run (lk.begins m.current (.threadExit r))).Wp T
      (fun s => s.Reaped m.current)
      (fun b r' s => (s.ends m.current (.threadExit r) b r' (next r' ++ stack)).Reaped m.current)
      true := by
  have hrunning := (h.sound.wf.running m.current (Set.notMem_empty _)).mpr (congrArg some h.current)
  have hself : m.current ∉ (lk.wait (.retcode m.current)).list := fun hmem =>
    h.sound.wf.run_ne_of_blocked hmem h.current
  have hcurrent : (lk.begins m.current (.threadExit r)).currentThread = m.current := h.current
  obtain ⟨lk', k, hrun, hd, hdead⟩ := threadExit_switches h.begins.wf
    (hcurrent ▸ h.notIdle rfl) r
  have hexit := hlk.exit h.current (Queues.lt_nextTid h.sound.wf (by rw [hrunning]; decide))
    (by rw [hrunning]; decide) hself r
  have hstate := h.begins.wf.exiting_state r
  rw [hcurrent] at hdead hstate
  simp only [perform, returning, Section.run_bind, hrun, Susp.switch_bind]
  refine ⟨hexit.dispatched hd hstate hdead, fun s hs _ => ?_⟩
  obtain ⟨⟨hturn, hsound⟩, hreaped⟩ := hT s hs
  have hrunning' := (hsound.wf.running _ (Set.notMem_empty _)).mpr (congrArg some hturn.current)
  rw [(hreaped.exiting r hturn.doing).2] at hrunning'
  cases hrunning'

theorem Machine.Opens.reaped_join {timeout : LkTime} (h : m.Opens (.threadJoin t timeout) lk)
    (hmade : t < lk.nextTid) (hunlinks : lk.unlinks t = 0) (hnobody : ∀ u, ¬ lk.Joining t u)
    (hframes : lk.frames m.current = f :: stack)
    (hinstr : f.instr = .section (.threadJoin t timeout) next) (hlk : lk.Reaped t)
    (hT : ∀ s, T s → (Turn m.current (.threadJoin t timeout) (f :: stack) s ∧ s.Sound) ∧
      s.Reaped t) :
    ((perform (.threadJoin t timeout)).run (lk.begins m.current (.threadJoin t timeout))).Wp T
      (fun s => s.Reaped t)
      (fun b r s => (s.ends m.current (.threadJoin t timeout) b r (next r ++ stack)).Reaped t)
      true := by
  have hf : f = .threadJoin t timeout :=
    Frame.section_join (hlk.plain _ f (by rw [hframes]; exact List.mem_cons_self)) hinstr
  subst hf
  cases hinstr
  exact threadJoin_reaped (hlk.toKept.stay (.begins lk (by simp)) rfl rfl) h.begins h.current
    (h.notIdle rfl) hmade hunlinks
    (fun u hu => (Kernel.joining_begins hu).elim (fun hu => absurd hu (hnobody u)) And.left)
    hframes fun s hs => ⟨(hT s hs).1.1, (hT s hs).1.2, (hT s hs).2⟩

theorem Machine.Opens.reaped_detach (h : m.Opens (.threadDetach t) lk)
    (hunlinks : lk.unlinks t = 0) (hframes : lk.frames m.current = f :: stack)
    (hinstr : f.instr = .section (.threadDetach t) next) (hlk : lk.Reaped t) :
    ((perform (.threadDetach t)).run (lk.begins m.current (.threadDetach t))).Wp T
      (fun s => s.Reaped t)
      (fun b r s => (s.ends m.current (.threadDetach t) b r (next r ++ stack)).Reaped t) true := by
  have hbegun : (lk.begins m.current (.threadDetach t)).Reaped t :=
    hlk.begins (by simp [Op.joins]) (by simp)
  obtain ⟨r, hrun⟩ := threadDetach_perform (lk.begins m.current (.threadDetach t)) t
  have hmoves := perform_changing m.current (.threadDetach t)
    (lk.begins m.current (.threadDetach t)) h.current
  rw [hrun] at hmoves ⊢
  have hdetach := hbegun.detach hunlinks
  refine (hdetach.unlock _).ends (f := f) ?_ hinstr (by simp [Op.joins])
  rw [(Kernel.Changes.steady hmoves.1).frames]
  exact hframes

end Opens

section Aside

variable {lk lk' : Kernel} {t : Tid} {m : Machine}

theorem Kernel.Quiet.leaves (hq : lk.Quiet lk')
    (hunlinks : lk'.unlinks = lk.unlinks) (hstack : lk'.stackFrees t = lk.stackFrees t)
    (hstruct : lk'.structFrees t = lk.structFrees t)
    (htodo : ∀ u, (lk'.frames u).filter (Frame.frees t) = (lk.frames u).filter (Frame.frees t))
    (hplain : (∀ u, ∀ f ∈ lk.frames u, f.plain = true) → ∀ u, ∀ f ∈ lk'.frames u, f.plain = true)
    (hfault : .thread t ∈ lk'.faults → .thread t ∈ lk.faults) : Kernel.Leaves t lk lk' := by
  obtain ⟨n, hn⟩ := hq.threads t
  obtain ⟨l, hlog, hl⟩ := hq.log
  refine ⟨by rw [hq.nextTid], by rw [hunlinks], hstack, hstruct, htodo, hplain,
    fun r hr => by rwa [hq.doing] at hr, hfault, fun _ => by rw [hn], fun _ => by rw [hn],
    fun _ => by rw [hn], fun _ => by rw [hn], fun _ => by rw [hn], fun _ hs => by rwa [hn] at hs,
    fun r hr => by rw [hlog]; exact List.mem_append_left l hr, fun c r hr =>
      hq.mem_log hr (by simp)⟩

theorem Kernel.Reaped.quiet (h : lk.Reaped t) (hq : lk.Quiet lk')
    (hl : Kernel.Leaves t lk lk') : lk'.Reaped t := by
  refine h.leave hl (fun _ hs => ?_) (fun _ hlist => by rwa [hq.wait])
    (fun u hu => by rwa [Kernel.Joining, hq.doing] at hu) fun _ u _ =>
      ⟨fun hmem => .inl (by rwa [hq.wait]), fun hret => ?_⟩
  · obtain ⟨n, hn⟩ := hq.threads t
    rwa [hn]
  · obtain ⟨n, hn⟩ := hq.threads u
    rwa [hn]

theorem Frame.act_leaves {f : Frame} {g : Kernel → Kernel} {next : Kernel → List Frame}
    (hinstr : f.instr = .act g next) (hf : f.frees t = false) (lk : Kernel) :
    Kernel.Leaves t lk (g lk) ∧ (g lk).threads = lk.threads ∧ (g lk).wait = lk.wait ∧
      (g lk).doing = lk.doing := by
  have hevent : ∀ e, Kernel.Leaves t lk (lk.useEvent e) ∧ (lk.useEvent e).threads = lk.threads ∧
      (lk.useEvent e).wait = lk.wait ∧ (lk.useEvent e).doing = lk.doing := by
    intro e
    have hfault : .thread t ∈ (lk.useEvent e).faults → .thread t ∈ lk.faults :=
      Kernel.thread_mem_useEvent
    rw [Kernel.useEvent_eq]
    exact ⟨{ Kernel.Leaves.refl lk with fault := hfault }, rfl, rfl, rfl⟩
  cases f with
  | freeStack u | freeStruct u =>
    have hu : u ≠ t := by simpa [Frame.frees] using hf
    cases hinstr
    dsimp only
    have hfault : .thread t ∈ (lk.useThread u).faults → .thread t ∈ lk.faults :=
      Kernel.thread_mem_useThread (.inl hu.symm)
    rw [Kernel.useThread_eq]
    split
    · exact ⟨{ Kernel.Leaves.refl lk with
        stackFrees := by first | rfl | exact Function.update_of_ne hu.symm _ _
        structFrees := by first | rfl | exact Function.update_of_ne hu.symm _ _
        fault := hfault }, rfl, rfl, rfl⟩
    · exact ⟨{ Kernel.Leaves.refl lk with fault := hfault }, rfl, rfl, rfl⟩
  | eventUnsignal e =>
    cases hinstr
    obtain ⟨hl, hthreads, hwait, hdoing⟩ := hevent e
    refine ⟨hl.trans { Kernel.Leaves.refl _ with
      calls := fun r hr => List.mem_append_left _ hr
      joined := fun c r hr => ?_ }, hthreads, hwait, hdoing⟩
    simpa [Kernel.eventUnsignal, Kernel.setEvent, Kernel.note] using hr
  | timerCall τ =>
    cases hinstr
    obtain ⟨hl, hthreads, hwait, hdoing⟩ := hevent (.timer τ)
    refine ⟨hl.trans { Kernel.Leaves.refl _ with
      calls := fun r hr => List.mem_append_left _ hr
      joined := fun c r hr => ?_ }, hthreads, hwait, hdoing⟩
    simpa [Kernel.useTimer, Kernel.note] using hr
  | timerFreeReturn τ =>
    cases hinstr
    refine ⟨{ Kernel.Leaves.refl lk with
      calls := fun r hr => List.mem_append_left _ hr
      joined := fun c r hr => ?_ }, rfl, rfl, rfl⟩
    simpa [Kernel.note] using hr
  | timerSetOneshot τ | timerThread τ | timerCheck τ => cases hinstr; exact hevent (.timer τ)
  | timerFree τ | timerFreeStop τ | timerFreePool τ =>
    cases hinstr
    obtain ⟨hl, hthreads, hwait, hdoing⟩ := hevent (.timer τ)
    exact ⟨hl.trans { Kernel.Leaves.refl _ with }, hthreads, hwait, hdoing⟩
  | mutexLock | mutexUnlock | lklThreadDetach => cases hinstr; exact ⟨.refl lk, rfl, rfl, rfl⟩
  | timerAlloc => cases hinstr; exact ⟨{ Kernel.Leaves.refl lk with }, rfl, rfl, rfl⟩
  | _ => cases hinstr

theorem Frame.act_frees {f : Frame} {g : Kernel → Kernel} {next : Kernel → List Frame}
    (hinstr : f.instr = .act g next) (hf : f.frees t = false) (lk : Kernel) :
    (next lk).filter (Frame.frees t) = [] ∧ ∀ f' ∈ next lk, f'.plain = true := by
  cases f <;> cases hinstr
  case freeStack u =>
    have hu : u ≠ t := by simpa [Frame.frees] using hf
    exact ⟨by simp [Frame.frees, hu], by simp [Frame.plain]⟩
  case mutexLock | mutexUnlock | timerThread | timerCheck =>
    dsimp only
    split <;> exact ⟨rfl, by simp [Frame.plain]⟩
  all_goals exact ⟨rfl, by simp [Frame.plain]⟩

theorem Kernel.At.stack {stage : Stage} {c : Tid} {stack : List Frame} (h : lk.At t stage)
    (hframes : lk.frames c = .freeStack t :: stack) :
    stage = .joined c ∧ stack.filter (Frame.frees t) = [] := by
  have htodo := h.todo c
  rw [hframes, List.filter_cons_of_pos (by simp [Frame.frees])] at htodo
  cases stage with
  | joined v =>
    by_cases hc : c = v
    · subst hc
      simp only [Stage.todo, if_true, List.cons.injEq, true_and] at htodo
      exact ⟨rfl, htodo⟩
    · simp [Stage.todo, hc] at htodo
  | half v =>
    by_cases hc : c = v
    · simp [Stage.todo, hc] at htodo
    · simp [Stage.todo, hc] at htodo
  | _ => cases htodo

theorem Kernel.At.struct {stage : Stage} {c : Tid} {stack : List Frame} (h : lk.At t stage)
    (hframes : lk.frames c = .freeStruct t :: stack) :
    stage = .half c ∧ stack.filter (Frame.frees t) = [] := by
  have htodo := h.todo c
  rw [hframes, List.filter_cons_of_pos (by simp [Frame.frees])] at htodo
  cases stage with
  | half v =>
    by_cases hc : c = v
    · subst hc
      simp only [Stage.todo, if_true, List.cons.injEq, true_and] at htodo
      exact ⟨rfl, htodo⟩
    · simp [Stage.todo, hc] at htodo
  | joined v =>
    by_cases hc : c = v
    · simp [Stage.todo, hc] at htodo
    · simp [Stage.todo, hc] at htodo
  | _ => cases htodo

theorem Kernel.Reaped.frees {c : Tid} {frames : List Frame} (h : lk.Reaped t) (stage : Stage)
    (structFrees stackFrees : Tid → Nat)
    (hstage : Kernel.At (Kernel.setFrames { lk with
      structFrees := structFrees
      stackFrees := stackFrees } c frames) t stage)
    (hplain : ∀ f ∈ frames, f.plain = true) :
    (Kernel.setFrames { lk with
      structFrees := structFrees
      stackFrees := stackFrees } c frames).Reaped t := by
  refine ⟨⟨⟨stage, hstage⟩, h.queue, h.fault, h.exited, h.joined, h.exiting, h.magic,
    fun u f hf => ?_⟩, fun u hu => ?_, h.sole⟩
  · by_cases hu : u = c
    · subst hu
      exact hplain f (by simpa [Kernel.setFrames] using hf)
    · exact h.plain u f (by simpa [Kernel.setFrames, hu] using hf)
  · obtain ⟨hmade, hwhere⟩ := h.joining u hu
    exact ⟨hmade, hwhere.imp id (Or.imp id fun hj => ⟨hj.state, hj.detached, hj.unlinks⟩)⟩

theorem Kernel.Reaped.freeStack {c : Tid} {stack : List Frame} {g : Kernel → Kernel}
    {next : Kernel → List Frame} (h : lk.Reaped t) (hframes : lk.frames c = .freeStack t :: stack)
    (hinstr : (Frame.freeStack t).instr = .act g next) :
    ((g lk).setFrames c (next lk ++ stack)).Reaped t := by
  cases hinstr
  obtain ⟨stage, hs⟩ := h.stage
  obtain ⟨rfl, hstack⟩ := hs.stack hframes
  obtain ⟨hmade, hstate, hdetached⟩ := hs.gone (by simp)
  have huse : lk.useThread t = lk := if_pos hs.structFrees
  have hzero : lk.stackFrees t = 0 := hs.stackFrees
  have htodo : ∀ u, ((Kernel.setFrames lk c ([.freeStruct t] ++ stack)).frames u).filter
      (Frame.frees t) = (Stage.half c).todo t u := by
    intro u
    by_cases hu : u = c
    · simp [Kernel.setFrames, hu, Frame.frees, hstack, Stage.todo]
    · simpa [Kernel.setFrames, hu, Stage.todo] using hs.todo u
  have hplain : ∀ f ∈ [.freeStruct t] ++ stack, f.plain = true := by
    intro f hf
    rcases List.mem_append.mp hf with hf | hf
    · rw [List.mem_singleton.mp hf]
      rfl
    · exact h.plain c f (by rw [hframes]; exact List.mem_cons_of_mem _ hf)
  dsimp only
  rw [huse]
  split
  · next hflag =>
    refine h.frees (.half c) lk.structFrees _
      ⟨hs.unlinks, ?_, hs.structFrees, htodo, fun _ => ⟨hmade, hstate, hdetached.trans (by simp)⟩⟩
      hplain
    simp [Kernel.setFrames, hzero, hflag, Stage.stackFreed]
  · next hflag =>
    refine h.frees (.half c) lk.structFrees lk.stackFrees
      ⟨hs.unlinks, ?_, hs.structFrees, htodo, fun _ => ⟨hmade, hstate, hdetached.trans (by simp)⟩⟩
      hplain
    rw [Bool.not_eq_true] at hflag
    simp [Kernel.setFrames, hzero, hflag]

/-- The structure is freed, if it was allocated, and not used after that. -/
theorem Kernel.Reaped.freeStruct {c : Tid} {stack : List Frame} {g : Kernel → Kernel}
    {next : Kernel → List Frame} (h : lk.Reaped t)
    (hframes : lk.frames c = .freeStruct t :: stack)
    (hinstr : (Frame.freeStruct t).instr = .act g next) :
    ((g lk).setFrames c (next lk ++ stack)).Reaped t := by
  cases hinstr
  obtain ⟨stage, hs⟩ := h.stage
  obtain ⟨rfl, hstack⟩ := hs.struct hframes
  obtain ⟨hmade, hstate, hdetached⟩ := hs.gone (by simp)
  have huse : lk.useThread t = lk := if_pos hs.structFrees
  have hzero : lk.structFrees t = 0 := hs.structFrees
  have htodo : ∀ u, ((Kernel.setFrames lk c stack).frames u).filter (Frame.frees t) = [] := by
    intro u
    by_cases hu : u = c
    · simp [Kernel.setFrames, hu, hstack]
    · simpa [Kernel.setFrames, hu, Stage.todo] using hs.todo u
  have hplain : ∀ f ∈ stack, f.plain = true := fun f hf =>
    h.plain c f (by rw [hframes]; exact List.mem_cons_of_mem _ hf)
  dsimp only
  rw [huse, List.nil_append]
  split
  · next hflag =>
    refine h.frees .freed _ lk.stackFrees
      ⟨hs.unlinks, hs.stackFrees, ?_, htodo, fun _ => ⟨hmade, hstate, hdetached.trans (by simp)⟩⟩
      hplain
    simp [Kernel.setFrames, hzero, hflag, Stage.structFreed]
  · next hflag =>
    refine h.frees .freed lk.structFrees lk.stackFrees
      ⟨hs.unlinks, hs.stackFrees, ?_, htodo, fun _ => ⟨hmade, hstate, hdetached.trans (by simp)⟩⟩
      hplain
    rw [Bool.not_eq_true] at hflag
    simp [Kernel.setFrames, hzero, hflag]

theorem Kernel.Reaped.setFrames {c : Tid} {frames : List Frame} (h : lk.Reaped t)
    (htodo : frames.filter (Frame.frees t) = (lk.frames c).filter (Frame.frees t))
    (hplain : ∀ f ∈ frames, f.plain = true) : (lk.setFrames c frames).Reaped t :=
  h.stay (.setFrames htodo fun _ => hplain) rfl rfl fun _ => id

theorem Machine.Aside.reaped (ha : m.Aside lk') (h : m.kernel.Reaped t)
    (hfresh : m.code m.current = .fresh → m.kernel.frames m.current = []) : lk'.Reaped t := by
  have hplain : ∀ f ∈ m.kernel.frames m.current, f.plain = true := h.plain m.current
  cases ha with
  | fresh hcode =>
    have hlock : Kernel.Reaped { m.kernel with threadLock := false } t :=
      h.stay { Kernel.Leaves.refl m.kernel with } rfl rfl fun _ => id
    have hnil : Kernel.frames { m.kernel with threadLock := false } m.current = [] := hfresh hcode
    refine hlock.setFrames ?_ ?_
    · rw [hnil]
      cases (m.kernel.threads m.current).entry <;> rfl
    · cases (m.kernel.threads m.current).entry <;> simp [Entry.frames, Frame.plain]
  | @act f stack g next hframes hinstr =>
    rw [hframes, List.forall_mem_cons] at hplain
    by_cases hf : f.frees t = false
    · obtain ⟨hl, hthreads, hwait, hdoing⟩ := Frame.act_leaves hinstr hf m.kernel
      obtain ⟨hnext, hnextPlain⟩ := Frame.act_frees hinstr hf m.kernel
      have hg : (g m.kernel).Reaped t := h.stay hl hthreads hwait fun u hu => by
        rwa [Kernel.Joining, hdoing] at hu
      refine hg.setFrames ?_ fun f' hf' => ?_
      · rw [Frame.act_frames hinstr, hframes, List.filter_append, hnext, List.nil_append,
          List.filter_cons_of_neg (by simp [hf])]
      · exact (List.mem_append.mp hf').elim (hnextPlain f') (hplain.2 f')
    · rw [Bool.not_eq_false] at hf
      cases f with
      | freeStack u =>
        have hu : u = t := by simpa [Frame.frees] using hf
        subst hu
        exact h.freeStack hframes hinstr
      | freeStruct u =>
        have hu : u = t := by simpa [Frame.frees] using hf
        subst hu
        exact h.freeStruct hframes hinstr
      | _ => cases hf
  | @call f stack hframes hf =>
    obtain ⟨hfplain, hfrees⟩ := Frame.callable_plain hf
    rw [hframes] at hplain
    refine h.setFrames ?_ (List.forall_mem_cons.mpr ⟨hfplain, hplain⟩)
    rw [hframes, List.filter_cons_of_neg (by simp [hfrees t])]
  | ret hframes =>
    rw [hframes, List.forall_mem_cons] at hplain
    refine h.setFrames ?_ hplain.2
    rw [hframes, List.filter_cons_of_neg (by simp [Frame.frees])]
  | exit hframes =>
    refine h.setFrames ?_ (by simp [Frame.plain])
    rw [hframes]
    rfl
  | tick =>
    have hq := Kernel.Quiet.tick m.kernel
    refine h.quiet hq (hq.leaves ?_ ?_ ?_ ?_ ?_ ?_) <;> rw [Kernel.threadTimerTick_eq]
    · exact fun _ => rfl
    · exact id
    · exact id

theorem Machine.Ground.reaped (hg : m.Ground lk') (h : m.kernel.Reaped t) : lk'.Reaped t := by
  cases hg with
  | run => exact h
  | @interrupt lk op hi =>
    have hlk : lk.Reaped t := by
      cases hi with
      | tick =>
        have hq := Kernel.Quiet.tick m.kernel
        refine h.quiet hq (hq.leaves ?_ ?_ ?_ ?_ ?_ ?_) <;> rw [Kernel.threadTimerTick_eq]
        · exact fun _ => rfl
        · exact id
        · exact id
      | expire u => exact h.stay { Kernel.Leaves.refl m.kernel with } rfl rfl fun _ => id
      | _ => exact h
    refine hlk.setFrames ?_ ?_
    · rw [List.filter_cons_of_neg (by simp [Frame.frees])]
    · refine List.forall_mem_cons.mpr ⟨?_, hlk.plain m.current⟩
      cases hi <;> rfl

end Aside

/-- `thread_join`, `thread_detach`, `thread_resume` and `thread_unblock_from_wait_queue` are called
only of threads that were made and are still listed, the last of those whose timer is set as well,
and `thread_join` only while no other thread is in it; who joins is unblocked from outside with an
error only. -/
def Kernel.JoinsInTurn (lk : Kernel) : Op → Prop
  | .threadJoin t _ => t < lk.nextTid ∧ lk.unlinks t = 0 ∧ ∀ u < lk.nextTid, ¬ lk.Joining t u
  | .threadDetach t | .threadResume t => t < lk.nextTid ∧ lk.unlinks t = 0
  | .threadUnblock u err => (lk.armed u = true ∨ u < lk.nextTid ∧ lk.unlinks u = 0) ∧
      ((lk.doing u).bind Op.joins = none ∨ err < 0)
  | _ => True

def Machine.JoinsInTurn (m : Machine) (label : Label) : Prop :=
  ∀ op ∈ m.begins label, m.kernel.JoinsInTurn op

instance (lk : Kernel) (t : Tid) : Decidable (∀ u < lk.nextTid, ¬ lk.Joining t u) :=
  Nat.decidableBallLT lk.nextTid fun u _ => ¬ lk.Joining t u

instance (lk : Kernel) (op : Op) : Decidable (lk.JoinsInTurn op) :=
  match op with
  | .threadJoin t _ => inferInstanceAs (Decidable (t < lk.nextTid ∧ lk.unlinks t = 0 ∧
      ∀ u < lk.nextTid, ¬ lk.Joining t u))
  | .threadDetach t | .threadResume t =>
    inferInstanceAs (Decidable (t < lk.nextTid ∧ lk.unlinks t = 0))
  | .threadUnblock u err =>
    inferInstanceAs (Decidable ((lk.armed u = true ∨ u < lk.nextTid ∧ lk.unlinks u = 0) ∧
      ((lk.doing u).bind Op.joins = none ∨ err < 0)))
  | .threadCreate _ _ | .threadYield | .threadPreempt | .threadSetPriority _ | .threadExit _
  | .waitQueueBlock _ _ | .waitQueueWakeOne _ _ _ | .waitQueueWakeAll _ _ _
  | .waitQueueDestroy _ _ | .semPost _ _ | .semWait _ | .semTrywait _ | .semTimedwait _ _
  | .semDestroy _ | .mutexAcquire _ _ | .mutexRelease _ | .mutexDestroy _ | .eventWait _ _
  | .eventSignal _ _ | .eventDestroy _ => isTrue trivial

instance (m : Machine) (label : Label) : Decidable (m.JoinsInTurn label) :=
  inferInstanceAs (Decidable (∀ op ∈ m.begins label, m.kernel.JoinsInTurn op))

section Runs

variable {ok : Machine → Label → Prop} {objects : Objects} {m : Machine} {lk : Kernel}

theorem Machine.Ground.unlinks (h : m.Ground lk) : lk.unlinks = m.kernel.unlinks := by
  cases h with
  | run => rfl
  | interrupt hi =>
    cases hi with
    | tick => rw [Kernel.threadTimerTick_eq]; rfl
    | _ => rfl

theorem Machine.Ground.structFrees (h : m.Ground lk) : lk.structFrees = m.kernel.structFrees := by
  cases h with
  | run => rfl
  | interrupt hi =>
    cases hi with
    | tick => rw [Kernel.threadTimerTick_eq]; rfl
    | _ => rfl

/-- Who resumes or unblocks a thread finds its structure not freed. -/
theorem Kernel.JoinsInTurn.structFrees {t : Tid} {op : Op} (h : m.kernel.JoinsInTurn op)
    (hreaped : m.kernel.Reaped t) (harmed : m.Keeping Kernel.Armed) (hop : op.uses = some t) :
    m.kernel.structFrees t = 0 := by
  have hlisted : m.kernel.unlinks t = 0 → m.kernel.structFrees t = 0 := fun hunlinks =>
    (hreaped.listed hunlinks).structFrees
  cases op with
  | threadResume u =>
    cases hop
    exact hlisted h.2
  | threadUnblock u err =>
    cases hop
    rcases h.1 with hset | ⟨-, hunlinks⟩
    · obtain ⟨-, -, -, -, halive⟩ := harmed.armed_waits hset
      obtain ⟨stage, hs⟩ := hreaped.stage
      have hstage : stage = .listed := by
        by_contra hne
        exact halive (hs.gone hne).2.1
      rw [hs.structFrees, hstage]
      rfl
    · exact hlisted hunlinks
  | _ => cases hop

theorem Kernel.idleStart_reaped (objects : Objects) (t : Tid) :
    (Kernel.idleStart objects).Reaped t ∧ (t < (Kernel.idleStart objects).nextTid →
      ((Kernel.idleStart objects).threads t).state ≠ .death) := by
  have hlive : t < bootstrapThread + 1 → (startThreads t).state ≠ .death ∧
      (startThreads t).magic = true := by
    intro ht
    rcases Nat.lt_succ_iff_lt_or_eq.mp ht with ht | rfl
    · have hidle : t = idleThread := Nat.lt_one_iff.mp ht
      rw [hidle]
      simp [startThreads]
    · simp [startThreads, idleThread, bootstrapThread]
  refine ⟨⟨⟨⟨.listed, rfl, rfl, rfl, fun u => ?_, fun hne => absurd rfl hne⟩, fun _ _ => rfl,
    List.not_mem_nil, fun ht hs => absurd hs (hlive ht).1, fun _ _ hr => absurd hr List.not_mem_nil,
    fun r hr => ?_, fun ht => iff_of_true (hlive ht).2 rfl, fun u f hf => ?_⟩,
    fun u hu => ?_, fun u v hu => ?_⟩, fun ht => (hlive ht).1⟩
  · by_cases hu : u = bootstrapThread
    · simp [Kernel.idleStart, Kernel.start, hu, Frame.frees, Stage.todo]
    · simp [Kernel.idleStart, Kernel.start, hu, Stage.todo]
  · cases hr
  · by_cases hu : u = bootstrapThread
    · have hf : f = .user := by simpa [Kernel.idleStart, Kernel.start, hu] using hf
      rw [hf]
      rfl
    · simp [Kernel.idleStart, Kernel.start, hu] at hf
  · cases hu
  · cases hu

theorem Machine.Run.reaped (hrun : Machine.Run ok (.boot objects) m)
    (hok : ∀ m label, ok m label → m.JoinsInTurn label) :
    m.Keeping fun lk => ∀ t, lk.Reaped t := by
  have hrun' := hrun.through (P := fun m => m.Keeping Kernel.Armed) fun m₁ h _ => h.armed
  refine hrun'.keeping (Machine.boot_keeping objects fun _ _ _ hchanges t => ?_) ?_ ?_
  · obtain ⟨hstart, hlive⟩ := Kernel.idleStart_reaped objects t
    exact hstart.leave (hchanges.leaves (by simp [Op.on]) (by simp [Op.uses]) (by simp))
      (fun ht hs => absurd hs (hlive ht)) (fun _ => id) (fun _ => id) fun _ u hu => by cases hu
  · intro m label lk _ hm ha t
    exact ha.reaped (hm.kernel.2 t) fun hcode => (hm.fresh _ hcode).2
  · intro m label lk f stack op next hm' hm hg hframes hinstr hbegins
    have hopens := hm.opens hg hframes hinstr hbegins
    have hlk : ∀ t, lk.Reaped t := fun t => hg.reaped (hm.kernel.2 t)
    have hturn : m.kernel.JoinsInTurn op := hok m label hm'.1 op hbegins
    refine Susp.Wp.forall fun t => ?_
    by_cases hon : op.on m.current = some (.retcode t)
    · cases op with
      | threadExit r =>
        cases hon
        exact hopens.reaped_exit (hlk _) fun s hs => ⟨hs.1, hs.2 _⟩
      | threadJoin u timeout =>
        cases hon
        obtain ⟨hmade, hunlinks, hnobody⟩ := hturn
        rw [← hg.quiet.nextTid] at hmade
        rw [← hg.unlinks] at hunlinks
        refine hopens.reaped_join hmade hunlinks (fun v hv => ?_) hframes hinstr (hlk _)
          fun s hs => ⟨hs.1, hs.2 _⟩
        obtain ⟨op, hop, -⟩ := Option.bind_eq_some_iff.mp hv
        have hborn := (hopens.sound.tracked.alive v op hop).1
        rw [hg.quiet.nextTid] at hborn
        rw [Kernel.Joining, hg.quiet.doing] at hv
        exact hnobody v hborn hv
      | threadDetach u =>
        cases hon
        obtain ⟨-, hunlinks⟩ := hturn
        rw [← hg.unlinks] at hunlinks
        exact hopens.reaped_detach hunlinks hframes hinstr (hlk _)
      | _ => cases hon
    · refine hopens.reaped hon (fun hop => ?_) (fun u err hop hu => ?_) hframes hinstr (hlk t)
        fun s hs => hs.1
      · rw [hg.structFrees]
        exact hturn.structFrees (hm.kernel.2 t) hm'.2 hop
      · subst hop
        rw [Kernel.Joining, hg.quiet.doing] at hu
        exact hturn.2.resolve_left (by simp [hu])

/-- A thread is taken off the list once, and is used no more when its structure is freed; nothing
is freed but of a thread that died and was joined; what was allocated for it is freed when nobody
is still to free it; who joins is told what the thread exited with, and waits while it lives. -/
theorem threads_reaped (hrun : Machine.Run ok (.boot objects) m)
    (hok : ∀ m label, ok m label → m.JoinsInTurn label) (t : Tid) :
    m.kernel.unlinks t ≤ 1 ∧ m.kernel.stackFrees t ≤ 1 ∧ m.kernel.structFrees t ≤ 1 ∧
    .thread t ∉ m.kernel.faults ∧
    (t < m.kernel.nextTid → ((m.kernel.threads t).magic = true ↔ m.kernel.unlinks t = 0)) ∧
    (m.kernel.unlinks t = 1 → (m.kernel.threads t).state = .death) ∧
    (0 < m.kernel.stackFrees t + m.kernel.structFrees t → m.kernel.unlinks t = 1 ∧
      (m.kernel.threads t).detached = false) ∧
    (m.kernel.unlinks t = 1 → (m.kernel.threads t).detached = false →
      (∀ u, ∀ f ∈ m.kernel.frames u, f.frees t = false) →
      m.kernel.stackFrees t = (m.kernel.threads t).freeStack.toNat ∧
      m.kernel.structFrees t = (m.kernel.threads t).freeStruct.toNat) ∧
    (∀ c r, .joined c t r ∈ m.kernel.log → .call t (.threadExit r) ∈ m.kernel.log) ∧
    (t < m.kernel.nextTid → (m.kernel.threads t).state = .death →
      (m.kernel.wait (.retcode t)).list = []) := by
  have h := (hrun.reaped hok).kernel.2 t
  obtain ⟨stage, hs⟩ := h.stage
  have hunlinks := hs.unlinks
  have hgone : m.kernel.unlinks t = 1 → stage ≠ .listed := by
    rintro hone rfl
    rw [hone] at hunlinks
    cases hunlinks
  refine ⟨?_, ?_, ?_, h.fault, h.magic, fun hone => (hs.gone (hgone hone)).2.1, fun hpos => ?_,
    fun hone hdetached hdone => ?_, h.joined, fun ht hd => h.queue ht (.inl hd)⟩
  · rw [hunlinks]
    cases stage <;> simp [Stage.unlinks]
  · rw [hs.stackFrees]
    exact Bool.toNat_le _
  · rw [hs.structFrees]
    exact Bool.toNat_le _
  · rw [hs.stackFrees, hs.structFrees] at hpos
    have hne : stage ≠ .listed ∧ stage ≠ .left := by
      constructor <;> rintro rfl <;> simp [Stage.stackFreed, Stage.structFreed] at hpos
    refine ⟨?_, ?_⟩
    · rw [hunlinks]
      cases stage <;> first | rfl | exact absurd rfl hne.1
    · rw [← Bool.not_eq_true, (hs.gone hne.1).2.2]
      exact hne.2
  · have hleft : stage ≠ .left := by
      rintro rfl
      rw [(hs.gone (hgone hone)).2.2.mpr rfl] at hdetached
      cases hdetached
    have htodo : ∀ u, stage.todo t u = [] := fun u => by
      rw [← hs.todo u, List.filter_eq_nil_iff]
      exact fun f hf => by simp [hdone u f hf]
    have hfreed : stage = .freed := by
      cases stage with
      | freed => rfl
      | listed => exact absurd rfl (hgone hone)
      | left => exact absurd rfl hleft
      | joined u => simpa [Stage.todo] using htodo u
      | half u => simpa [Stage.todo] using htodo u
    subst hfreed
    exact ⟨by simpa [Stage.stackFreed] using hs.stackFrees,
      by simpa [Stage.structFreed] using hs.structFrees⟩

/-- The bootstrap thread makes another and joins it before it exits. -/
def joiningRun : List Label :=
  [.call .lklThreadCreate, .run, .run, .run, .run, .call (.op .threadYield), .run, .run,
    .call (.threadJoin 2 INFINITE_TIME), .run, .run, .ret 7, .run, .run, .run, .run]

theorem threads_reaped_joined : ∃ m,
    Machine.Run Machine.JoinsInTurn (.boot .assorted) m ∧
    m.kernel.stackFrees 2 = 1 ∧ m.kernel.structFrees 2 = 1 ∧ m.kernel.unlinks 2 ≤ 1 ∧
    .thread 2 ∉ m.kernel.faults ∧ .call 2 (.threadExit 7) ∈ m.kernel.log := by
  have hresult : ((Machine.boot .assorted).after Machine.JoinsInTurn joiningRun).map
      (fun m => (m.kernel.stackFrees 2, m.kernel.structFrees 2,
        decide (Happening.joined bootstrapThread 2 7 ∈ m.kernel.log))) = some (1, 1, true) := by
    decide +kernel
  obtain ⟨m, hm, hresult⟩ := Option.map_eq_some_iff.mp hresult
  simp only [Prod.mk.injEq, decide_eq_true_eq] at hresult
  obtain ⟨hstack, hstruct, hjoined⟩ := hresult
  have hrun : Machine.Run Machine.JoinsInTurn (.boot .assorted) m := (Machine.Run.nil _).after hm
  obtain ⟨hunlinks, -, -, hfault, -, -, -, -, hcall, -⟩ :=
    threads_reaped hrun (fun _ _ h => h) 2
  exact ⟨m, hrun, hstack, hstruct, hunlinks, hfault, hcall _ _ hjoined⟩

/-- `thread_detach_and_resume` of a thread that is dead joins it, which frees its memory, and then
resumes it: all the calls but this last one are in turn, and the freed structure is used. -/
theorem thread_resumed_freed : ∃ m,
    Machine.Run (fun m label => ∀ op ∈ m.begins label, op.uses = none → m.kernel.JoinsInTurn op)
      (.boot .assorted) m ∧
    m.kernel.structFrees 2 = 1 ∧ .thread 2 ∈ m.kernel.faults := by
  have hresult : ((Machine.boot .assorted).after
      (fun m label => ∀ op ∈ m.begins label, op.uses = none → m.kernel.JoinsInTurn op)
      [.call .lklThreadCreate, .run, .run, .run, .run, .ret 7, .run, .run,
        .call (.threadDetachAndResume 2), .run, .run, .run, .run, .run]).map
      (fun m => (m.kernel.structFrees 2, m.kernel.faults)) = some (1, [.thread 2]) := by
    decide +kernel
  obtain ⟨m, hm, hresult⟩ := Option.map_eq_some_iff.mp hresult
  obtain ⟨hfrees, hfaults⟩ := Prod.mk.inj hresult
  exact ⟨m, (Machine.Run.nil _).after hm, hfrees, by rw [hfaults]; exact List.mem_cons_self⟩

end Runs

end UefiLkl.Lk
