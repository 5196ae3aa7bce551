import UefiLkl.Lk.Objects
set_option autoImplicit false

/-!
A thread that has exited is on no queue, and nothing brings it back.
-/

namespace UefiLkl.Lk
open Coroutine

/-- The thread is dead, and nowhere. -/
structure Kernel.Dead (lk : Kernel) (t : Tid) : Prop where
  state : (lk.threads t).state = .death
  born : t < lk.nextTid
  notIdle : t ≠ idleThread
  unready : ∀ p, t ∉ lk.runQueue p
  unqueued : ∀ q, t ∉ (lk.wait q).list

section Dead

variable {lk lk' : Kernel} {c t : Tid} {op : Op}

theorem Kernel.Sound.dead (h : lk.Sound) (ht : (lk.threads t).state = .death)
    (hborn : t < lk.nextTid) : lk.Dead t where
  state := ht
  born := hborn
  notIdle hidle := by
    have hi := h.wf.idle
    rw [← hidle, ht] at hi
    simp at hi
  unready p hmem := by
    have hready := ((h.wf.ready p t).mp hmem).2.1
    rw [ht] at hready
    cases hready
  unqueued q hmem := by
    have hblocked := ((h.wf.blocked q t).mp hmem).2.1
    rw [ht] at hblocked
    cases hblocked

theorem Kernel.getTopThread_mem (lk : Kernel) :
    (lk.getTopThread.1 = idleThread ∨ ∃ p, lk.getTopThread.1 ∈ lk.runQueue p) ∧
      ∀ p u, u ∈ lk.getTopThread.2.runQueue p → u ∈ lk.runQueue p := by
  unfold Kernel.getTopThread
  rcases lk.scan_spec (List.finRange 32).reverse with ⟨heq, -⟩ | ⟨p, ts, hq, -, heq⟩
  · rw [heq]
    exact ⟨.inl rfl, fun _ _ hu => hu⟩
  · rw [heq]
    refine ⟨.inr ⟨p, by simp [hq]⟩, fun p' u hu => ?_⟩
    dsimp only at hu
    by_cases hp : p' = p
    · subst hp
      rw [Function.update_self] at hu
      rw [hq]
      exact List.mem_cons_of_mem _ hu
    · rwa [Function.update_of_ne hp] at hu

theorem Kernel.Change.mem_runQueue {p : Priority} {u : Tid} (h : Kernel.Change c op lk lk')
    (hu : u ∈ lk'.runQueue p) : u ∈ lk.runQueue p ∨ (lk.threads u).state = .ready := by
  have hinsert : ∀ v list, list.Perm (v :: lk.runQueue (lk.threads v).priority) →
      (lk.threads v).state = .ready →
      u ∈ Function.update lk.runQueue (lk.threads v).priority list p →
      u ∈ lk.runQueue p ∨ (lk.threads u).state = .ready := by
    intro v list hlist hready hmem
    by_cases hp : p = (lk.threads v).priority
    · rw [hp, Function.update_self, hlist.mem_iff, List.mem_cons] at hmem
      rcases hmem with rfl | hmem
      · exact .inr hready
      · exact .inl (hp ▸ hmem)
    · rw [Function.update_of_ne hp] at hmem
      exact .inl hmem
  cases h with
  | pick => exact .inl (lk.getTopThread_mem.2 p u hu)
  | switch => rw [Kernel.setUpQuantum_eq] at hu; exact .inl hu
  | useThread => rw [Kernel.useThread_eq] at hu; exact .inl hu
  | useEvent => rw [Kernel.useEvent_eq] at hu; exact .inl hu
  | insertHead v hv => exact hinsert v _ (List.Perm.refl _) hv hu
  | insertTail v hv => exact hinsert v _ (List.perm_append_singleton v _) hv hu
  | _ => exact .inl hu

/-- What another thread does leaves a dead thread dead. -/
theorem Kernel.Dead.change (h : lk.Dead t) (hc : t ≠ c) (hchange : Kernel.Change c op lk lk') :
    lk'.Dead t where
  state := by
    cases hchange with
    | pick =>
      have hne : t ≠ lk.getTopThread.1 := by
        rintro rfl
        rcases lk.getTopThread_mem.1 with hidle | ⟨p, hmem⟩
        · exact h.notIdle hidle
        · exact h.unready p hmem
      rw [Kernel.getTopThread_eq]
      simp [Kernel.setState, Kernel.setThread, hne, h.state]
    | switch u =>
      unfold Kernel.setUpQuantum
      split
      · by_cases hu : t = u
        · subst hu
          simp [h.state]
        · simp [Kernel.setThread, hu, h.state]
      · exact h.state
    | dequeue q rest u err hu hrest hq =>
      have hne : t ≠ u := by
        rintro rfl
        rcases hu with hmem | ⟨hblocked, -⟩
        · exact h.unqueued q hmem
        · rw [h.state] at hblocked
          cases hblocked
      simp [Kernel.dequeue, Kernel.note, Kernel.setThread, Kernel.setWait, hne, h.state]
    | resume u hop hu =>
      have hne : t ≠ u := by
        rintro rfl
        rw [h.state] at hu
        cases hu
      simp [Kernel.setState, Kernel.setThread, hne, h.state]
    | create priority entry hop => simp [Kernel.addThread, h.born.ne, h.state]
    | unlink u hq =>
      by_cases hu : t = u
      · subst hu
        simp [Kernel.unlink, h.state]
      · simp [Kernel.unlink, Kernel.setThread, hu, h.state]
    | detach u b hop =>
      by_cases hu : t = u
      · subst hu
        simp [h.state]
      · simp [Kernel.setThread, hu, h.state]
    | requeue f hf => simp [Kernel.setThread, hc, h.state]
    | enqueue q hq =>
      simp [Kernel.enqueue, Kernel.note, Kernel.setThread, Kernel.setWait, hc, h.state]
    | exit r hop => simp [Kernel.setThread, hc, h.state]
    | useThread => rw [Kernel.useThread_eq]; exact h.state
    | useEvent => rw [Kernel.useEvent_eq]; exact h.state
    | _ => exact h.state
  born := h.born.trans_le hchange.nextTid_le
  notIdle := h.notIdle
  unready p hmem := by
    rcases hchange.mem_runQueue hmem with hmem | hready
    · exact h.unready p hmem
    · rw [h.state] at hready
      cases hready
  unqueued q hmem := by
    rcases hchange.mem_wait hmem with hmem | ⟨rfl, -⟩
    · exact h.unqueued q hmem
    · exact hc rfl

theorem Kernel.Dead.changes (h : lk.Dead t) (hc : t ≠ c) (hchanges : Kernel.Changes c op lk lk') :
    lk'.Dead t := by
  induction hchanges with
  | refl => exact h
  | tail _ hchange ih => exact ih.change hc hchange

theorem Kernel.Quiet.state (h : lk.Quiet lk') (t : Tid) :
    (lk'.threads t).state = (lk.threads t).state := by
  obtain ⟨n, hn⟩ := h.threads t
  rw [hn]

theorem Kernel.popAll_threads {q : Wq} {err : Status} {list : List Tid} (ht : t ∉ list) :
    (Kernel.popAll q err list lk).threads t = lk.threads t := by
  induction list generalizing lk with
  | nil => rfl
  | cons u rest ih =>
    rw [List.mem_cons, not_or] at ht
    rw [Kernel.popAll, ih ht.2]
    simp [Kernel.insertInRunQueueHead, Kernel.dequeue, Kernel.note, Kernel.setThread,
      Kernel.setWait, ht.1]

theorem Kernel.Wf.exiting_state (h : lk.Wf) (retcode : Int) :
    ((lk.exiting retcode).threads lk.currentThread).state = .death := by
  have hnot : lk.currentThread ∉ (lk.wait (.retcode lk.currentThread)).list :=
    fun hmem => h.run_ne_of_blocked hmem rfl
  unfold Kernel.exiting
  dsimp only
  rw [Kernel.useThread_eq]
  split
  · simp [Kernel.unlink]
  · refine (congrArg Thread.state (Kernel.popAll_threads ?_)).trans (by simp)
    exact hnot

/-- The thread switches, dead, and so to another. -/
theorem threadExit_switches (h : lk.Wf) (hidle : lk.currentThread ≠ idleThread) (retcode : Int) :
    ∃ lk' k, (threadExit retcode).run lk = .switch lk' k ∧
      (lk.exiting retcode).Dispatched lk' ∧ (lk'.threads lk.currentThread).state = .death := by
  have hplaced := h.exiting hidle retcode
  have hdead := h.exiting_state retcode
  have hcurrent := lk.exiting_currentThread retcode
  have hne := hplaced.getTopThread_ne (by rw [hdead]; decide) hidle
  have hpick : (((lk.exiting retcode).getTopThread.2.setState
      (lk.exiting retcode).getTopThread.1 .running).threads lk.currentThread).state = .death := by
    rw [Kernel.getTopThread_eq]
    simp [Kernel.setState, Kernel.setThread, hne.symm, hdead]
  rw [threadExit_run]
  simp only [threadResched]
  rw [if_neg (by rw [Kernel.getTopThread_eq]; exact fun hc => hne (hc.trans hcurrent))]
  refine ⟨_, _, rfl, (Kernel.Dispatched.pick _).trans (.switch _ _), ?_⟩
  unfold Kernel.setUpQuantum
  split
  · simpa [Kernel.setThread, hne.symm] using hpick
  · exact hpick

end Dead

def Kernel.Exited (lk : Kernel) : Prop :=
  ∀ t r, lk.doing t = some (.threadExit r) → (lk.threads t).state = .death

section Runs

variable {ok : Machine → Label → Prop} {objects : Objects} {m : Machine} {lk lk' : Kernel}

theorem Kernel.Exited.of_eq (h : lk.Exited) (hdoing : lk'.doing = lk.doing)
    (hstate : ∀ t, (lk'.threads t).state = (lk.threads t).state) : lk'.Exited := by
  intro t r ht
  rw [hdoing] at ht
  rw [hstate]
  exact h t r ht

theorem Kernel.Exited.ends {c : Tid} {op : Op} {b : Bool} {r : Int} {frames : List Frame}
    (h : ∀ t r, t ≠ c → lk.doing t = some (.threadExit r) → (lk.threads t).state = .death) :
    (lk.ends c op b r frames).Exited := by
  intro t r' ht
  by_cases hc : t = c
  · simp [Kernel.ends, hc] at ht
  · exact h t r' hc (by simpa [Kernel.ends, Kernel.setFrames, Kernel.note, hc] using ht)

theorem Kernel.Exited.changes {c : Tid} {op : Op} (hsound : lk.Sound)
    (h : ∀ t r, t ≠ c → lk.doing t = some (.threadExit r) → (lk.threads t).state = .death)
    (hchanges : Kernel.Changes c op lk lk') (t : Tid) (r : Int) (hc : t ≠ c)
    (ht : lk'.doing t = some (.threadExit r)) : (lk'.threads t).state = .death := by
  rw [hchanges.steady.doing] at ht
  have hdead := hsound.dead (h t r hc ht) (hsound.tracked.alive t _ ht).1
  exact (hdead.changes hc hchanges).state

theorem Machine.Run.exited (hrun : Machine.Run ok (.boot objects) m) :
    m.Keeping Kernel.Exited := by
  refine hrun.keeping (Machine.boot_keeping objects fun _ _ _ _ => fun t r ht => ?_) ?_ ?_
  · simp [Kernel.idleStart, Kernel.start] at ht
  · intro m label lk _ hm ha
    rcases ha.quiet with hq | ⟨e, -, hq⟩
    · exact hm.kernel.2.of_eq hq.doing hq.state
    · refine hm.kernel.2.of_eq ha.doing fun t => (hq.state t).trans ?_
      rw [Kernel.eventUnsignal, Kernel.useEvent_eq]
      rfl
  · intro m label lk f stack op next _ hm hg hframes hinstr hbegins
    have hopens := hm.opens hg hframes hinstr hbegins
    have hlk : lk.Exited := hm.kernel.2.of_eq hg.quiet.doing hg.quiet.state
    have hbegun : ∀ t r, t ≠ m.current → (lk.begins m.current op).doing t = some (.threadExit r) →
        ((lk.begins m.current op).threads t).state = .death := by
      intro t r hc ht
      exact hlk t r (by simpa [Kernel.begins, Kernel.note, hc] using ht)
    by_cases hexit : ∃ r, op = .threadExit r
    · obtain ⟨r, rfl⟩ := hexit
      have hmoves := perform_changing m.current (.threadExit r)
        (lk.begins m.current (.threadExit r)) hopens.current
      obtain ⟨lk', k, hrun, -, hdead⟩ := threadExit_switches hopens.begins.wf
        (hopens.current ▸ hopens.notIdle rfl) r
      have hcurrent : (lk.begins m.current (.threadExit r)).currentThread = m.current :=
        hopens.current
      rw [hcurrent] at hdead
      simp only [perform, returning, Section.run_bind, hrun, Susp.switch_bind] at hmoves ⊢
      refine ⟨fun t r' ht => ?_, fun s ht hj => ?_⟩
      · by_cases hc : t = m.current
        · rw [hc]
          exact hdead
        · exact Kernel.Exited.changes hopens.begins hbegun hmoves.1 t r' hc ht
      · have hrunning := (ht.2.wf.running _ (Set.notMem_empty _)).mpr (congrArg some ht.1.current)
        rw [hj _ r ht.1.doing] at hrunning
        cases hrunning
    · have hdoing : (lk.begins m.current op).doing m.current = some op := by simp [Kernel.begins]
      have hother : ∀ s : Kernel, s.doing m.current = some op → ∀ t r,
          s.doing t = some (.threadExit r) → t ≠ m.current := by
        rintro s hs t r ht rfl
        rw [hs] at ht
        exact hexit ⟨r, Option.some_inj.mp ht⟩
      refine hopens.keeps hframes (fun t r ht => hbegun t r (hother _ hdoing t r ht) ht)
        (fun s s' ht hsound hs hj t r hdo => ?_) fun b r s _ _ hj => .ends fun t r _ => hj t r
      refine Kernel.Exited.changes hsound (fun t r _ => hj t r) hs t r (hother s' ?_ t r hdo) hdo
      rw [hs.steady.doing, ht.doing]

end Runs

end UefiLkl.Lk
