import UefiLkl.Lk.Objects
set_option autoImplicit false

/-!
Every host timer has one thread, and nobody else runs the steps of `timer_thread`.
-/

namespace UefiLkl.Lk
open Coroutine

def Frame.ofTimer : Frame → Option Nat
  | .timerThread τ | .timerWait τ | .timerCheck τ | .timerCall τ => some τ
  | .timerDestroy τ | .timerFreePool τ => some τ
  | _ => none

/-- Operations that are not called as such: a timer has its own thread made, waits for its own
event and destroys it. -/
def Frame.lawful : Frame → Bool
  | .op (.threadCreate _ entry) => entry = .user
  | .op (.eventWait (.timer _) _) | .op (.eventDestroy (.timer _)) => false
  | .eventUnsignal (.timer _) => false
  | _ => true

section Frames

variable {f f' : Frame} {op : Op} {next : Int → List Frame} {r : Int}

theorem Frame.callable_lawful (h : f.callable = true) :
    f.lawful = true ∧ f.ofTimer = none ∧ ∀ τ, f ≠ .timerAllocThread τ := by
  cases f with
  | op o =>
    refine ⟨?_, rfl, by simp⟩
    cases o with
    | eventWait e => cases e <;> simp_all [Frame.callable, Frame.lawful]
    | eventDestroy e => cases e <;> simp_all [Frame.callable, Frame.lawful]
    | _ => simp_all [Frame.callable, Frame.lawful]
  | eventUnsignal e => cases e <;> simp_all [Frame.callable, Frame.lawful, Frame.ofTimer]
  | _ => simp_all [Frame.callable, Frame.lawful, Frame.ofTimer]

theorem Frame.section_next (hinstr : f.instr = .section op next) (hf' : f' ∈ next r) :
    f'.lawful = true ∧ (∀ τ, f' ≠ .timerAllocThread τ) ∧
      ∀ τ, f'.ofTimer = some τ → f.ofTimer = some τ := by
  cases f <;> cases hinstr
  case threadDetachAndResume t =>
    rcases List.mem_append.mp hf' with hf' | hf'
    · split at hf' <;> simp_all [Frame.lawful, Frame.ofTimer]
    · simp_all [Frame.lawful, Frame.ofTimer]
  case threadResume | threadJoin | threadDetach | semDownWait =>
    dsimp only at hf'
    split at hf' <;> simp_all [Frame.lawful, Frame.ofTimer]
  all_goals simp_all [Frame.lawful, Frame.ofTimer]

theorem Frame.act_next {g : Kernel → Kernel} {next : Kernel → List Frame} {lk : Kernel}
    (hinstr : f.instr = .act g next) (hf' : f' ∈ next lk) :
    f'.lawful = true ∧ (∀ τ, f' = .timerAllocThread τ → f = .timerAlloc ∧ τ = lk.nextTimer) ∧
      ∀ τ, f'.ofTimer = some τ → f.ofTimer = some τ := by
  cases f <;> cases hinstr
  case mutexLock | mutexUnlock | timerThread | timerCheck =>
    dsimp only at hf'
    split at hf' <;> simp_all [Frame.lawful, Frame.ofTimer]
  case timerCall τ =>
    simp only [List.mem_cons, List.not_mem_nil, or_false] at hf'
    rcases hf' with rfl | rfl <;> simp [Frame.lawful, Frame.ofTimer]
  all_goals simp_all [Frame.lawful, Frame.ofTimer]

theorem Frame.section_create {priority : Priority} {τ : Nat}
    (hinstr : f.instr = .section (.threadCreate priority (.timer τ)) next) (hf : f.lawful = true) :
    f = .timerAllocThread τ := by
  cases f <;> cases hinstr
  · simp [Frame.lawful] at hf
  · rfl

theorem Frame.section_wait {τ : Nat}
    (hinstr : f.instr = .section op next) (hf : f.lawful = true)
    (hop : (∃ timeout, op = .eventWait (.timer τ) timeout) ∨ op = .eventDestroy (.timer τ)) :
    f.ofTimer = some τ := by
  cases f <;> cases hinstr <;> rcases hop with ⟨timeout, hop⟩ | hop <;> cases hop
  · simp [Frame.lawful] at hf
  · simp [Frame.lawful] at hf
  · rfl
  · rfl

end Frames

/-- There is one thread for a timer, or it is about to be made, once. -/
structure Kernel.Timed (lk : Kernel) : Prop where
  lawful : ∀ t, ∀ f ∈ lk.frames t, f.lawful = true
  owned : ∀ t τ, ∀ f ∈ lk.frames t, f.ofTimer = some τ → (lk.threads t).entry = .timer τ
  born : ∀ t τ, (lk.threads t).entry = .timer τ → τ < lk.nextTimer
  single : ∀ t t' τ, (lk.threads t).entry = .timer τ → (lk.threads t').entry = .timer τ → t = t'
  unmade : ∀ t τ, .timerAllocThread τ ∈ lk.frames t →
    τ < lk.nextTimer ∧ ∀ t', (lk.threads t').entry ≠ .timer τ
  alloc : ∀ t t' τ, .timerAllocThread τ ∈ lk.frames t → .timerAllocThread τ ∈ lk.frames t' → t = t'
  once : ∀ t τ, (lk.frames t).count (.timerAllocThread τ) ≤ 1
  unborn : ∀ t, lk.nextTid ≤ t → (lk.threads t).entry = .user

section Timed

variable {lk lk' : Kernel} {c : Tid}

theorem Kernel.Timed.setFrames (frames : List Frame) (h : lk.Timed)
    (hlawful : ∀ f ∈ frames, f.lawful = true)
    (howned : ∀ τ, ∀ f ∈ frames, f.ofTimer = some τ → (lk.threads c).entry = .timer τ)
    (hcount : ∀ τ, frames.count (.timerAllocThread τ) ≤ (lk.frames c).count (.timerAllocThread τ)) :
    (lk.setFrames c frames).Timed := by
  have hmem : ∀ t τ, .timerAllocThread τ ∈ (lk.setFrames c frames).frames t →
      .timerAllocThread τ ∈ lk.frames t := by
    intro t τ ht
    by_cases hc : t = c
    · subst hc
      have hpos : 0 < frames.count (.timerAllocThread τ) :=
        List.count_pos_iff.mpr (by simpa [Kernel.setFrames] using ht)
      exact List.count_pos_iff.mp (hpos.trans_le (hcount τ))
    · simpa [Kernel.setFrames, hc] using ht
  refine ⟨fun t f hf => ?_, fun t τ f hf hτ => ?_, h.born, h.single,
    fun t τ ht => h.unmade t τ (hmem t τ ht),
    fun t t' τ ht ht' => h.alloc t t' τ (hmem t τ ht) (hmem t' τ ht'), fun t τ => ?_, h.unborn⟩
  · by_cases hc : t = c
    · subst hc
      exact hlawful f (by simpa [Kernel.setFrames] using hf)
    · exact h.lawful t f (by simpa [Kernel.setFrames, hc] using hf)
  · by_cases hc : t = c
    · subst hc
      exact howned τ f (by simpa [Kernel.setFrames] using hf) hτ
    · exact h.owned t τ f (by simpa [Kernel.setFrames, hc] using hf) hτ
  · by_cases hc : t = c
    · subst hc
      simpa [Kernel.setFrames] using (hcount τ).trans (h.once t τ)
    · simpa [Kernel.setFrames, hc] using h.once t τ

theorem Kernel.Timed.of_eq (h : lk.Timed) (hframes : lk'.frames = lk.frames)
    (hentry : ∀ t, (lk'.threads t).entry = (lk.threads t).entry)
    (htimer : lk'.nextTimer = lk.nextTimer) (htid : lk.nextTid ≤ lk'.nextTid) : lk'.Timed := by
  constructor
  · simpa only [hframes] using h.lawful
  · simpa only [hframes, hentry] using h.owned
  · simpa only [hentry, htimer] using h.born
  · simpa only [hentry] using h.single
  · simpa only [hframes, hentry, htimer] using h.unmade
  · simpa only [hframes] using h.alloc
  · simpa only [hframes] using h.once
  · intro t ht
    rw [hentry]
    exact h.unborn t (htid.trans ht)

theorem Kernel.Timed.advance {f : Frame} {stack : List Frame} (frames : List Frame) (h : lk.Timed)
    (hframes : lk.frames c = f :: stack)
    (hnext : ∀ f' ∈ frames, f'.lawful = true ∧ (∀ τ, f' ≠ .timerAllocThread τ) ∧
      ∀ τ, f'.ofTimer = some τ → f.ofTimer = some τ) :
        (lk.setFrames c (frames ++ stack)).Timed := by
  refine h.setFrames _ (fun f' hf' => ?_) (fun τ f' hf' hτ => ?_) fun τ => ?_
  · rcases List.mem_append.mp hf' with hf' | hf'
    · exact (hnext f' hf').1
    · exact h.lawful c f' (by rw [hframes]; exact List.mem_cons_of_mem f hf')
  · rcases List.mem_append.mp hf' with hf' | hf'
    · exact h.owned c τ f (by rw [hframes]; exact List.mem_cons_self) ((hnext f' hf').2.2 τ hτ)
    · exact h.owned c τ f' (by rw [hframes]; exact List.mem_cons_of_mem f hf') hτ
  · have hnone : frames.count (.timerAllocThread τ) = 0 :=
      List.count_eq_zero_of_not_mem fun hmem => (hnext _ hmem).2.1 τ rfl
    rw [List.count_append, hnone, hframes, List.count_cons]
    omega

/-- Once its thread is made, a timer does not get another. -/
theorem Kernel.Timed.unallocated {f : Frame} {frames stack : List Frame} {τ : Nat} (h : lk.Timed)
    (hframes : lk.frames c = f :: stack) (hf : f = .timerAllocThread τ)
    (hnew : .timerAllocThread τ ∉ frames) (t : Tid) :
    .timerAllocThread τ ∉ (lk.setFrames c (frames ++ stack)).frames t := by
  subst hf
  intro hmem
  have hself : .timerAllocThread τ ∈ lk.frames c := by simp [hframes]
  by_cases hc : t = c
  · subst hc
    have hone := h.once t τ
    rw [hframes, List.count_cons_self] at hone
    simp only [Kernel.setFrames, Function.update_self] at hmem
    rcases List.mem_append.mp hmem with hmem | hmem
    · exact hnew hmem
    · have hpos := List.count_pos_iff.mpr hmem
      omega
  · simp only [Kernel.setFrames, Function.update_of_ne hc] at hmem
    exact hc (h.alloc t c τ hmem hself)

theorem Kernel.Quiet.timed (hq : lk.Quiet lk') (h : lk.Timed) (hframes : lk'.frames = lk.frames)
    (htimer : lk'.nextTimer = lk.nextTimer) : lk'.Timed := by
  refine h.of_eq hframes (fun t => ?_) htimer hq.nextTid.ge
  obtain ⟨n, hn⟩ := hq.threads t
  rw [hn]

theorem Kernel.Timed.alloc_timer {stack : List Frame} (h : lk.Timed)
    (hframes : lk.frames c = .timerAlloc :: stack) :
    (lk.allocTimer.setFrames c (.timerAllocThread lk.nextTimer :: stack)).Timed := by
  have hnew : ∀ t, .timerAllocThread lk.nextTimer ∉ lk.frames t := fun t ht =>
    (h.unmade t _ ht).1.ne rfl
  have hstack : ∀ f ∈ stack, f ∈ lk.frames c := fun f hf => by
    rw [hframes]
    exact List.mem_cons_of_mem _ hf
  have hmem : ∀ t τ, .timerAllocThread τ ∈ (lk.allocTimer.setFrames c
      (.timerAllocThread lk.nextTimer :: stack)).frames t →
      .timerAllocThread τ ∈ lk.frames t ∨ t = c ∧ τ = lk.nextTimer := by
    intro t τ ht
    by_cases hc : t = c
    · subst hc
      simp only [Kernel.setFrames, Function.update_self, List.mem_cons,
        Frame.timerAllocThread.injEq] at ht
      exact ht.symm.imp (fun hf => hstack _ hf) fun hτ => ⟨rfl, hτ⟩
    · exact .inl (by simpa [Kernel.setFrames, Kernel.allocTimer, hc] using ht)
  refine ⟨fun t f hf => ?_, fun t τ f hf hτ => ?_, fun t τ ht => (h.born t τ ht).trans
    (Nat.lt_succ_self _), h.single, fun t τ ht => ?_, fun t t' τ ht ht' => ?_, fun t τ => ?_,
      h.unborn⟩
  · by_cases hc : t = c
    · subst hc
      simp only [Kernel.setFrames, Function.update_self, List.mem_cons] at hf
      rcases hf with rfl | hf
      · rfl
      · exact h.lawful t f (hstack f hf)
    · exact h.lawful t f (by simpa [Kernel.setFrames, Kernel.allocTimer, hc] using hf)
  · by_cases hc : t = c
    · subst hc
      simp only [Kernel.setFrames, Function.update_self, List.mem_cons] at hf
      rcases hf with rfl | hf
      · cases hτ
      · exact h.owned t τ f (hstack f hf) hτ
    · exact h.owned t τ f (by simpa [Kernel.setFrames, Kernel.allocTimer, hc] using hf) hτ
  · rcases hmem t τ ht with ht | ⟨-, rfl⟩
    · obtain ⟨hlt, hnone⟩ := h.unmade t τ ht
      exact ⟨hlt.trans (Nat.lt_succ_self _), hnone⟩
    · exact ⟨Nat.lt_succ_self _, fun t' ht' => (h.born t' _ ht').ne rfl⟩
  · rcases hmem t τ ht with hold | ⟨rfl, rfl⟩
    · rcases hmem t' τ ht' with hold' | ⟨rfl, rfl⟩
      · exact h.alloc t t' τ hold hold'
      · exact absurd hold (hnew t)
    · rcases hmem t' _ ht' with hold' | ⟨rfl, -⟩
      · exact absurd hold' (hnew t')
      · rfl
  · by_cases hc : t = c
    · subst hc
      have hone := h.once t τ
      rw [hframes, List.count_cons] at hone
      simp only [Kernel.setFrames, Function.update_self, List.count_cons]
      by_cases hτ : τ = lk.nextTimer
      · have hzero : stack.count (.timerAllocThread τ) = 0 :=
          List.count_eq_zero_of_not_mem fun hf => hnew t (hτ ▸ hstack _ hf)
        rw [hzero]
        split <;> omega
      · simp [Ne.symm hτ]
        omega
    · simpa [Kernel.setFrames, Kernel.allocTimer, hc] using h.once t τ

theorem Kernel.Timed.create (entry : Entry) (h : lk.Timed)
    (hentry : ∀ τ, entry = .timer τ → τ < lk.nextTimer ∧
      (∀ t, .timerAllocThread τ ∉ lk.frames t) ∧ ∀ t, (lk.threads t).entry ≠ .timer τ)
    (hframes : lk'.frames = lk.frames) (htimer : lk'.nextTimer = lk.nextTimer)
    (htid : lk'.nextTid = lk.nextTid + 1)
    (hthreads : ∀ t,
      (lk'.threads t).entry = if t = lk.nextTid then entry else (lk.threads t).entry) :
    lk'.Timed := by
  have hnew : ∀ t τ, (lk'.threads t).entry = .timer τ →
      t = lk.nextTid ∧ entry = .timer τ ∨ t ≠ lk.nextTid ∧ (lk.threads t).entry = .timer τ := by
    intro t τ ht
    rw [hthreads] at ht
    by_cases hc : t = lk.nextTid
    · exact .inl ⟨hc, by simpa [hc] using ht⟩
    · exact .inr ⟨hc, by simpa [hc] using ht⟩
  refine ⟨by simpa only [hframes] using h.lawful, fun t τ f hf hτ => ?_, fun t τ ht => ?_,
    fun t t' τ ht ht' => ?_, fun t τ ht => ?_, by simpa only [hframes] using h.alloc,
    by simpa only [hframes] using h.once, fun t ht => ?_⟩
  · rw [hframes] at hf
    have hold := h.owned t τ f hf hτ
    rw [hthreads, if_neg, hold]
    rintro rfl
    rw [h.unborn _ le_rfl] at hold
    cases hold
  · rw [htimer]
    rcases hnew t τ ht with ⟨-, he⟩ | ⟨-, hold⟩
    · exact (hentry τ he).1
    · exact h.born t τ hold
  · rcases hnew t τ ht with ⟨rfl, he⟩ | ⟨-, hold⟩
    · rcases hnew t' τ ht' with ⟨rfl, -⟩ | ⟨-, hold'⟩
      · rfl
      · exact absurd hold' ((hentry τ he).2.2 t')
    · rcases hnew t' τ ht' with ⟨-, he⟩ | ⟨-, hold'⟩
      · exact absurd hold ((hentry τ he).2.2 t)
      · exact h.single t t' τ hold hold'
  · rw [hframes] at ht
    obtain ⟨hlt, hnone⟩ := h.unmade t τ ht
    refine ⟨htimer ▸ hlt, fun t' ht' => ?_⟩
    rcases hnew t' τ ht' with ⟨-, he⟩ | ⟨-, hold⟩
    · exact (hentry τ he).2.1 t ht
    · exact hnone t' hold
  · rw [htid] at ht
    have hlt : lk.nextTid < t := ht
    rw [hthreads, if_neg hlt.ne']
    exact h.unborn t hlt.le

end Timed

theorem Frame.act_nextTimer {f : Frame} {g : Kernel → Kernel} {next : Kernel → List Frame}
    (hinstr : f.instr = .act g next) (hf : f ≠ .timerAlloc) (lk : Kernel) :
    (g lk).nextTimer = lk.nextTimer := by
  have huse : ∀ τ, (lk.useTimer τ).nextTimer = lk.nextTimer := fun τ => by
    rw [Kernel.useTimer, Kernel.useEvent_eq]
  cases f with
  | freeStack t =>
    cases hinstr
    dsimp only
    rw [Kernel.useThread_eq]
    split <;> rfl
  | freeStruct t =>
    cases hinstr
    dsimp only
    rw [Kernel.useThread_eq]
    split <;> rfl
  | eventUnsignal e =>
    cases hinstr
    dsimp only
    rw [Kernel.eventUnsignal, Kernel.useEvent_eq]
    rfl
  | timerAlloc => exact absurd rfl hf
  | _ => cases hinstr <;> first | rfl | exact huse _

section Runs

variable {ok : Machine → Label → Prop} {objects : Objects} {m : Machine} {lk : Kernel}

theorem Frame.act_timed {f : Frame} {g : Kernel → Kernel} {next : Kernel → List Frame}
    (hinstr : f.instr = .act g next) (hf : f ≠ .timerAlloc) (h : lk.Timed) : (g lk).Timed := by
  refine h.of_eq (Frame.act_frames hinstr lk) (fun t => ?_) (Frame.act_nextTimer hinstr hf lk) ?_
  all_goals
    rcases Frame.act_quiet hinstr lk with hq | ⟨e, -, hq⟩
  · obtain ⟨n, hn⟩ := hq.threads t
    rw [hn]
  · rw [hq, Kernel.eventUnsignal, Kernel.useEvent_eq]
    rfl
  · exact hq.nextTid.ge
  · rw [hq, Kernel.eventUnsignal, Kernel.useEvent_eq]
    exact le_rfl

theorem Machine.Aside.timed (h : m.Aside lk) (ht : m.kernel.Timed) : lk.Timed := by
  cases h with
  | fresh =>
    have hbase : Kernel.Timed { m.kernel with threadLock := false } :=
      ht.of_eq rfl (fun _ => rfl) rfl le_rfl
    have hentry := hbase.setFrames (c := m.current) (m.kernel.threads m.current).entry.frames
    refine hentry (fun f hf => ?_) (fun τ f hf hτ => ?_) fun τ => ?_
    all_goals cases he : (m.kernel.threads m.current).entry <;>
      simp_all [Entry.frames, Frame.lawful, Frame.ofTimer]
  | @act f stack g next hframes hinstr =>
    by_cases halloc : f = .timerAlloc
    · subst halloc
      cases hinstr
      exact ht.alloc_timer hframes
    · have hframes' : (g m.kernel).frames m.current = f :: stack := by
        rw [Frame.act_frames hinstr, hframes]
      refine (Frame.act_timed hinstr halloc ht).advance _ hframes' fun f' hf' => ?_
      obtain ⟨hlawful, halloc', hown⟩ := Frame.act_next hinstr hf'
      exact ⟨hlawful, fun τ hτ => halloc (halloc' τ hτ).1, hown⟩
  | @call f stack hframes hf =>
    obtain ⟨hlawful, htimer, halloc⟩ := Frame.callable_lawful hf
    refine ht.advance [f, .user] hframes fun f' hf' => ?_
    rcases List.mem_cons.mp hf' with rfl | hf'
    · exact ⟨hlawful, halloc, fun τ hτ => by rw [htimer] at hτ; cases hτ⟩
    · rw [List.mem_singleton.mp hf']
      simp [Frame.lawful, Frame.ofTimer]
  | ret hframes => exact ht.advance [] hframes (by simp)
  | @exit r hframes =>
    exact ht.advance [.exit r] hframes (by simp [Frame.lawful, Frame.ofTimer])
  | tick =>
    exact (Kernel.Quiet.tick m.kernel).timed ht (by rw [Kernel.threadTimerTick_eq])
      (by rw [Kernel.threadTimerTick_eq])

theorem Machine.Ground.timed (h : m.Ground lk) (ht : m.kernel.Timed) : lk.Timed := by
  cases h with
  | run => exact ht
  | @interrupt lk op hi =>
    have htimer : lk.nextTimer = m.kernel.nextTimer := by
      cases hi with
      | tick => rw [Kernel.threadTimerTick_eq]
      | _ => rfl
    have hbase : lk.Timed := hi.quiet.timed ht hi.frames htimer
    refine hbase.setFrames _ (fun f hf => ?_) (fun τ f hf hτ => ?_) fun τ => ?_
    · rcases List.mem_cons.mp hf with rfl | hf
      · cases hi <;> rfl
      · exact hbase.lawful _ f hf
    · rcases List.mem_cons.mp hf with rfl | hf
      · cases hτ
      · exact hbase.owned _ τ f hf hτ
    · rw [List.count_cons]
      simp

/-- In every state there is at most one thread for each timer. -/
theorem Machine.Run.timed (hrun : Machine.Run ok (.boot objects) m) :
    m.Keeping Kernel.Timed := by
  refine hrun.keeping (J := Kernel.Timed) ?_ (fun _ _ _ _ hm ha => ha.timed hm.kernel.2) ?_
  · refine Machine.boot_keeping objects fun threads rq bitmap hchanges => ?_
    have hentry : ∀ t, (threads t).entry = (startThreads t).entry :=
      hchanges.entry_eq (by simp)
    have hstart : ∀ t τ, (startThreads t).entry ≠ .timer τ := by
      intro t τ
      simp only [startThreads, Function.update_apply]
      split
      · simp
      · split <;> simp [Thread.zero]
    have hframes : ∀ t, (Kernel.idleStart objects).frames t =
        if t = bootstrapThread then [.user] else [] := fun _ => rfl
    constructor
    · intro t f hf
      simp only [hframes] at hf
      split at hf <;> simp_all [Frame.lawful]
    · intro t τ f hf hτ
      simp only [hframes] at hf
      split at hf <;> simp_all [Frame.ofTimer]
    · exact fun t τ ht => absurd ((hentry t).symm.trans ht) (hstart t τ)
    · exact fun t t' τ ht => absurd ((hentry t).symm.trans ht) (hstart t τ)
    · intro t τ ht
      simp only [hframes] at ht
      split at ht <;> simp_all
    · intro t t' τ ht
      simp only [hframes] at ht
      split at ht <;> simp_all
    · intro t τ
      simp only [hframes]
      split <;> simp
    · intro t ht
      have hlt : bootstrapThread < t := ht
      have hne : t ≠ idleThread := (Nat.zero_lt_of_lt hlt).ne'
      change (threads t).entry = .user
      rw [hentry, startThreads, Function.update_of_ne hne, Function.update_of_ne hlt.ne']
      rfl
  · intro m label lk f stack op next _ hm hg hframes hinstr hbegins
    have hlk : lk.Timed := hg.timed hm.kernel.2
    have hopens := hm.opens hg hframes hinstr hbegins
    have hend : ∀ (s : Kernel) b r, s.Timed → s.frames m.current = f :: stack →
        (s.ends m.current op b r (next r ++ stack)).Timed := by
      intro s b r hs hf
      have hframes' := hs.advance (next r) hf fun f' hf' => Frame.section_next hinstr hf'
      exact hframes'.of_eq rfl (fun _ => rfl) rfl le_rfl
    have hbegun : (lk.begins m.current op).Timed := hlk.of_eq rfl (fun _ => rfl) rfl le_rfl
    by_cases hcreate : ∃ priority entry, op = .threadCreate priority entry
    · obtain ⟨priority, entry, rfl⟩ := hcreate
      have hbase : (lk.setFrames m.current (next (lk.nextTid : Int) ++ stack)).Timed :=
        hlk.advance _ hframes fun f' hf' => Frame.section_next hinstr hf'
      refine hbase.create entry ?_ rfl rfl rfl fun t => ?_
      · rintro τ rfl
        have hf := Frame.section_create hinstr (hlk.lawful m.current f (by simp [hframes]))
        subst hf
        obtain ⟨hlt, hnone⟩ := hlk.unmade m.current τ (by simp [hframes])
        refine ⟨hlt, hlk.unallocated hframes rfl fun hmem => ?_, hnone⟩
        exact (Frame.section_next hinstr hmem).2.1 τ rfl
      · by_cases ht : t = lk.nextTid
        · subst ht
          simp [Kernel.ends, Kernel.unlock, Kernel.lock, Kernel.addThread, Kernel.begins,
            Kernel.note, Kernel.setFrames]
        · simp [Kernel.ends, Kernel.unlock, Kernel.lock, Kernel.addThread, Kernel.begins,
            Kernel.note, Kernel.setFrames, ht]
    · have hop : ∀ priority entry, op ≠ .threadCreate priority entry := fun p e he =>
        hcreate ⟨p, e, he⟩
      refine hopens.keeps hframes hbegun (fun s s' _ _ hs hj => ?_) fun b r s hframes' _ hj =>
        hend s b r hj hframes'
      exact hj.of_eq hs.steady.frames (hs.entry_eq hop) hs.steady.nextTimer hs.nextTid_le

theorem Machine.Holds.frame {J : Kernel → Prop} {t : Tid} {op : Op} (h : m.Holds J)
    (hdoing : m.kernel.doing t = some op) : ∃ f stack next,
    m.kernel.frames t = f :: stack ∧ f.instr = .section op next := by
  cases hcode : m.code t with
  | fresh =>
    rw [(h.fresh t hcode).1] at hdoing
    cases hdoing
  | outside =>
    rw [h.outside t hcode] at hdoing
    cases hdoing
  | inside k =>
    obtain ⟨f, stack, op', next, hframes, hinstr, hdoing', -, -⟩ := h.inside t k hcode
    rw [hdoing] at hdoing'
    cases hdoing'
    exact ⟨f, stack, next, hframes, hinstr⟩

/-- Who waits for the event of a timer is the thread of the timer, and waits without a timeout. -/
theorem Machine.Run.timer_waits {τ : Nat} {t : Tid} (hrun : Machine.Run ok (.boot objects) m)
    (ht : t ∈ (m.kernel.wait (.event (.timer τ))).list) :
    (m.kernel.threads t).entry = .timer τ := by
  have htimed := hrun.timed
  obtain ⟨op, hdoing, hwaits⟩ := htimed.kernel.1.tracked.queued _ t ht
  obtain ⟨f, stack, next, hframes, hinstr⟩ := htimed.frame hdoing
  have hmem : f ∈ m.kernel.frames t := by simp [hframes]
  exact htimed.kernel.2.owned t τ f hmem (Frame.section_wait hinstr
    (htimed.kernel.2.lawful t f hmem) (.inl (Op.eq_eventWait hwaits)))

theorem Machine.Step.entry {J : Kernel → Prop} {m' : Machine} {label : Label} {t : Tid}
    (h : m.Step label m') (hm : m.Keeping J) (ht : t < m.kernel.nextTid) :
    (m'.kernel.threads t).entry = (m.kernel.threads t).entry ∧ t < m'.kernel.nextTid := by
  have hsettle : ∀ (lk : Kernel) op after b (x : Susp Kernel Int),
      (lk.threads t).entry = (m.kernel.threads t).entry → t < lk.nextTid →
      x.Moves (fun lk => lk.currentThread = m.current) (Kernel.Changes m.current op) lk →
      (((m.settle m.current op after b x).kernel.threads t).entry =
        (m.kernel.threads t).entry ∧ t < (m.settle m.current op after b x).kernel.nextTid) := by
    intro lk op after b x hentry hlt hmoves
    cases x with
    | done r lk' => exact ⟨(hmoves.1.entry hlt).trans hentry, hlt.trans_le hmoves.1.nextTid_le⟩
    | switch lk' k => exact ⟨(hmoves.1.entry hlt).trans hentry, hlt.trans_le hmoves.1.nextTid_le⟩
  have hquiet : ∀ lk lk' : Kernel, lk.Quiet lk' → (lk.threads t).entry = (lk'.threads t).entry := by
    intro lk lk' hq
    obtain ⟨n, hn⟩ := hq.threads t
    rw [hn]
  cases h with
  | aside hcode ha =>
    rcases ha.quiet with hq | ⟨e, -, hq⟩
    · exact ⟨(hquiet _ _ hq).symm, ht.trans_eq hq.nextTid.symm⟩
    · have heq : m.kernel.eventUnsignal e = { m.kernel with
          event := (m.kernel.eventUnsignal e).event
          log := (m.kernel.eventUnsignal e).log
          faults := (m.kernel.eventUnsignal e).faults } := by
        unfold Kernel.eventUnsignal
        rw [Kernel.useEvent_eq]
        rfl
      refine ⟨(hquiet _ _ hq).symm.trans (by rw [heq]), ht.trans_eq ?_⟩
      rw [Machine.aside, hq.nextTid, heq]
  | @enter lk f stack op next hcode hg hframes hinstr hbegins =>
    have hcurrent : (lk.begins m.current op).currentThread = m.current := hg.quiet.currentThread
    exact hsettle (lk.begins m.current op) op _ _ _ (hquiet _ _ hg.quiet).symm
      (ht.trans_eq hg.quiet.nextTid.symm) (perform_changing _ _ _ hcurrent)
  | @resume k f stack op next hcode hframes hinstr =>
    obtain ⟨f', stack', op', next', hframes', hinstr', -, hmoves, -⟩ := hm.inside _ k hcode
    rw [hframes] at hframes'
    cases hframes'
    rw [hinstr] at hinstr'
    cases hinstr'
    exact hsettle _ _ _ _ _ rfl ht (hmoves _ rfl)

theorem Machine.Run.entry {m₀ : Machine} {t : Tid} {τ : Nat}
    (h : Machine.Run ok (.boot objects) m₀) (hrun : Machine.Run ok m₀ m)
    (ht : (m₀.kernel.threads t).entry = .timer τ) : (m.kernel.threads t).entry = .timer τ := by
  induction hrun with
  | nil => exact ht
  | snoc hrun _ hstep ih =>
    have htimed := (h.trans hrun).timed
    have hlt : t < _ := lt_of_not_ge fun hle => by
      have huser := htimed.kernel.2.unborn t hle
      rw [ih] at huser
      cases huser
    exact ((Machine.step_cases hstep).entry htimed hlt).1.trans ih

theorem Machine.Run.sole {t : Tid} {τ : Nat} (hrun : Machine.Run ok (.boot objects) m)
    (ht : (m.kernel.threads t).entry = .timer τ) :
    Machine.Run (fun m label => ok m label ∧ ∀ u ∈ (m.kernel.wait (.event (.timer τ))).list, u = t)
      (.boot objects) m := by
  refine hrun.through fun m₁ h h' u hu => ?_
  exact hrun.timed.kernel.2.single u t τ (h.entry h' (h.timer_waits hu)) ht

end Runs

def Frame.isTimer (f : Frame) : Bool := f.ofTimer.isSome

def Frame.ends : Frame → Bool
  | .timerDestroy _ | .timerFreePool _ => true
  | _ => false

section Frames

variable {f f' : Frame} {op : Op} {next : Int → List Frame} {r : Int} {lk : Kernel}

theorem Frame.callable_isTimer (h : f.callable = true) : f.isTimer = false := by
  simp [Frame.isTimer, (Frame.callable_lawful h).2.1]

theorem Frame.section_next_isTimer (hinstr : f.instr = .section op next) :
    (next r).countP Frame.isTimer ≤ [f].countP Frame.isTimer := by
  cases f <;> cases hinstr
  case threadResume | threadJoin | threadDetach | threadDetachAndResume | semDownWait =>
    dsimp only
    split <;> simp [Frame.isTimer, Frame.ofTimer]
  all_goals simp [Frame.isTimer, Frame.ofTimer]

theorem Frame.act_next_isTimer {g : Kernel → Kernel} {next : Kernel → List Frame}
    (hinstr : f.instr = .act g next) :
    (next lk).countP Frame.isTimer ≤ [f].countP Frame.isTimer := by
  cases f <;> cases hinstr
  case mutexLock | mutexUnlock | timerThread | timerCheck =>
    dsimp only
    split <;> simp [Frame.isTimer, Frame.ofTimer]
  all_goals simp [Frame.isTimer, Frame.ofTimer]

theorem Frame.section_next_ends (hinstr : f.instr = .section op next) (hf : f.ends = true)
    (hf' : f' ∈ next r) : f'.ends = true := by
  cases f <;> cases hinstr <;> simp_all [Frame.ends]

theorem Frame.act_next_ends {g : Kernel → Kernel} {next : Kernel → List Frame}
    (hinstr : f.instr = .act g next) (hf : f.ends = true) (hf' : f' ∈ next lk) :
    f'.isTimer = false := by
  cases f <;> cases hinstr <;> simp_all [Frame.ends, Frame.isTimer, Frame.ofTimer]

end Frames

/-- A thread is in one frame of a timer at most, and once it has called `event_destroy` the loop is
behind it. -/
structure Kernel.Ending (lk : Kernel) : Prop where
  alone : ∀ t, (lk.frames t).countP Frame.isTimer ≤ 1
  behind : ∀ t τ, .call t (.eventDestroy (.timer τ)) ∈ lk.log → ∀ f ∈ lk.frames t,
    f.isTimer = true → f.ends = true

section Ending

variable {ok : Machine → Label → Prop} {objects : Objects} {m m' : Machine} {label : Label}
  {lk lk' : Kernel} {c : Tid}

theorem Kernel.Ending.of_eq (h : lk.Ending) (hframes : lk'.frames = lk.frames)
    (hlog : ∀ t op, .call t op ∈ lk'.log → .call t op ∈ lk.log) : lk'.Ending where
  alone := by simpa only [hframes] using h.alone
  behind t τ ht f hf := h.behind t τ (hlog t _ ht) f (by rwa [hframes] at hf)

theorem Kernel.Ending.setFrames {old new : List Frame} (h : lk.Ending)
    (hframes : lk.frames c = old) (hcount : new.countP Frame.isTimer ≤ old.countP Frame.isTimer)
    (hends : (∀ f ∈ old, f.isTimer = true → f.ends = true) →
      ∀ f ∈ new, f.isTimer = true → f.ends = true) : (lk.setFrames c new).Ending := by
  subst hframes
  refine ⟨fun t => ?_, fun t τ ht f hf => ?_⟩
  · by_cases hc : t = c
    · subst hc
      simpa [Kernel.setFrames] using hcount.trans (h.alone t)
    · simpa [Kernel.setFrames, hc] using h.alone t
  · by_cases hc : t = c
    · subst hc
      exact hends (h.behind t τ ht) f (by simpa [Kernel.setFrames] using hf)
    · exact h.behind t τ ht f (by simpa [Kernel.setFrames, hc] using hf)

theorem Kernel.Ending.advance {f : Frame} {stack : List Frame} (frames : List Frame)
    (h : lk.Ending) (hframes : lk.frames c = f :: stack)
    (hcount : frames.countP Frame.isTimer ≤ [f].countP Frame.isTimer)
    (hends : f.ends = true → ∀ f' ∈ frames, f'.isTimer = true → f'.ends = true) :
    (lk.setFrames c (frames ++ stack)).Ending := by
  refine h.setFrames hframes ?_ fun hold f' hf' hτ => ?_
  · rw [List.countP_append, ← List.singleton_append (l := stack), List.countP_append]
    exact Nat.add_le_add_right hcount _
  · rcases List.mem_append.mp hf' with hf' | hf'
    · refine hends (hold f List.mem_cons_self ?_) f' hf' hτ
      have hpos : 0 < frames.countP Frame.isTimer := List.countP_pos_iff.mpr ⟨f', hf', hτ⟩
      have hone := List.countP_pos_iff.mp (hpos.trans_le hcount)
      simpa using hone
    · exact hold f' (List.mem_cons_of_mem f hf') hτ

theorem Kernel.Quiet.mem_log {x : Happening} (h : lk.Quiet lk') (hx : x ∈ lk'.log)
    (hfn : ∀ τ, x ≠ .fnBegins τ ∧ x ≠ .timerFreed τ) : x ∈ lk.log := by
  obtain ⟨l, hl, hq⟩ := h.log
  rw [hl] at hx
  rcases List.mem_append.mp hx with hx | hx
  · exact hx
  · obtain ⟨τ, hτ | hτ⟩ := hq x hx
    · exact absurd hτ (hfn τ).1
    · exact absurd hτ (hfn τ).2

theorem Kernel.Changes.mem_log {op : Op} {x : Happening} (h : Kernel.Changes c op lk lk')
    (hx : x ∈ lk'.log) (hqueue : x.queue = none) : x ∈ lk.log := by
  obtain ⟨l, hl, hq⟩ := h.log
  rw [hl] at hx
  rcases List.mem_append.mp hx with hx | hx
  · exact hx
  · exact absurd hqueue (hq x hx)

theorem Kernel.eventUnsignal_mem_log {x : Happening} (e : EventId)
    (hx : x ∈ (lk.eventUnsignal e).log) (hqueue : x.queue = none) : x ∈ lk.log := by
  unfold Kernel.eventUnsignal at hx
  rw [Kernel.useEvent_eq] at hx
  rcases List.mem_append.mp hx with hx | hx
  · exact hx
  · rw [List.mem_singleton.mp hx] at hqueue
    cases hqueue

theorem Machine.Aside.mem_log {t : Tid} {op : Op} (h : m.Aside lk) (hx : .call t op ∈ lk.log) :
    .call t op ∈ m.kernel.log := by
  rcases h.quiet with hq | ⟨e, -, hq⟩
  · exact hq.mem_log hx (by simp)
  · exact Kernel.eventUnsignal_mem_log e (hq.mem_log hx (by simp)) rfl

theorem Machine.Run.called (hrun : Machine.Run ok (.boot objects) m) :
    ∀ t op, .call t op ∈ m.kernel.log → m.code t ≠ .fresh := by
  generalize hboot : Machine.boot objects = m₀ at hrun
  induction hrun with
  | nil =>
    subst hboot
    have hnone := (Machine.boot_keeping (J := fun lk => ∀ t op, .call t op ∉ lk.log) objects
      fun _ _ _ _ t op => List.not_mem_nil).kernel.2
    exact fun t op ht => absurd ht (hnone t op)
  | @snoc m m' label hrun _ hstep ih =>
    subst hboot
    have hsettle : ∀ (lk : Kernel) op₁ after b (x : Susp Kernel Int),
        x.Moves (fun lk => lk.currentThread = m.current) (Kernel.Changes m.current op₁) lk →
        (∀ t op, t ≠ m.current → .call t op ∈ lk.log → .call t op ∈ m.kernel.log) →
        ∀ t op, .call t op ∈ (m.settle m.current op₁ after b x).kernel.log →
          (m.settle m.current op₁ after b x).code t ≠ .fresh := by
      intro lk op₁ after b x hmoves hlog t op ht
      by_cases hc : t = m.current
      · cases x <;> simp [Machine.settle, hc]
      · have hold : .call t op ∈ m.kernel.log := by
          cases x with
          | done r lk' =>
            have ht' : .call t op ∈ lk'.log := by
              simpa [Machine.settle, Kernel.ends, Kernel.note, Kernel.setFrames] using ht
            exact hlog t op hc (Kernel.Changes.mem_log hmoves.1 ht' rfl)
          | switch lk' k => exact hlog t op hc (Kernel.Changes.mem_log hmoves.1 ht rfl)
        cases x <;> simpa [Machine.settle, hc] using ih t op hold
    cases Machine.step_cases hstep with
    | aside hcode ha =>
      intro t op ht
      by_cases hc : t = m.current
      · simp [Machine.aside, hc]
      · simpa [Machine.aside, hc] using ih t op (ha.mem_log ht)
    | @enter lk f stack op next hcode hg hframes hinstr hbegins =>
      have hcurrent : (lk.begins m.current op).currentThread = m.current := hg.quiet.currentThread
      refine hsettle (lk.begins m.current op) op _ _ _ (perform_changing _ _ _ hcurrent) ?_
      intro t op' hc ht
      have ht' : .call t op' ∈ lk.log := by
        simpa [Kernel.begins, Kernel.note, hc] using ht
      exact hg.quiet.mem_log ht' (by simp)
    | @resume k f stack op next hcode hframes hinstr =>
      obtain ⟨f', stack', op', next', hframes', hinstr', -, hmoves, -⟩ :=
        hrun.timed.inside _ k hcode
      rw [hframes] at hframes'
      cases hframes'
      rw [hinstr] at hinstr'
      cases hinstr'
      exact hsettle m.kernel op _ _ _ (hmoves _ rfl) fun _ _ _ ht => ht

theorem Machine.Aside.ending (h : m.Aside lk) (hending : m.kernel.Ending)
    (hcalled : ∀ t op, .call t op ∈ m.kernel.log → m.code t ≠ .fresh) : lk.Ending := by
  have hlog : ∀ t op, .call t op ∈ lk.log → .call t op ∈ m.kernel.log := fun _ _ => h.mem_log
  cases h with
  | fresh hcode =>
    refine ⟨fun t => ?_, fun t τ ht f hf => ?_⟩
    · by_cases hc : t = m.current
      · subst hc
        cases (m.kernel.threads m.current).entry <;>
          simp [Kernel.setFrames, Entry.frames, Frame.isTimer, Frame.ofTimer]
      · simpa [Kernel.setFrames, hc] using hending.alone t
    · by_cases hc : t = m.current
      · subst hc
        exact absurd hcode (hcalled _ _ ht)
      · exact hending.behind t τ ht f (by simpa [Kernel.setFrames, hc] using hf)
  | @act f stack g next hframes hinstr =>
    have hbase : (g m.kernel).Ending := hending.of_eq (Frame.act_frames hinstr _) hlog
    refine hbase.advance _ (by rw [Frame.act_frames hinstr, hframes])
      (Frame.act_next_isTimer hinstr) fun hf f' hf' hτ => ?_
    rw [Frame.act_next_ends hinstr hf hf'] at hτ
    cases hτ
  | @call f stack hframes hf =>
    refine hending.advance [f, .user] hframes ?_ fun h => by cases h
    rw [List.countP_cons_of_neg (by simp [Frame.callable_isTimer hf])]
  | ret hframes => exact hending.advance [] hframes (by simp) (by simp)
  | @exit r hframes =>
    exact hending.advance [.exit r] hframes
      (by simp [Frame.isTimer, Frame.ofTimer]) (by simp [Frame.ends])
  | tick => exact hending.of_eq (by rw [Kernel.threadTimerTick_eq]) hlog

theorem Machine.Ground.ending (h : m.Ground lk) (hending : m.kernel.Ending) : lk.Ending := by
  cases h with
  | run => exact hending
  | @interrupt lk op hi =>
    have hbase : lk.Ending :=
      hending.of_eq hi.frames fun t op ht => hi.quiet.mem_log ht (by simp)
    refine hbase.setFrames rfl (by simp [Frame.isTimer, Frame.ofTimer]) fun hold f hf hτ => ?_
    rcases List.mem_cons.mp hf with rfl | hf
    · cases hτ
    · exact hold f hf hτ

theorem Kernel.Ending.begins {f : Frame} {stack : List Frame} {op : Op} {next : Int → List Frame}
    (h : lk.Ending) (hframes : lk.frames c = f :: stack) (hinstr : f.instr = .section op next)
    (hf : f.lawful = true) : (lk.begins c op).Ending := by
  refine ⟨h.alone, fun t τ ht f' hf' hτ => ?_⟩
  have ht' : .call t (.eventDestroy (.timer τ)) ∈ lk.log ∨
      t = c ∧ .eventDestroy (.timer τ) = op := by
    simpa [Kernel.begins, Kernel.note] using ht
  rcases ht' with ht' | ⟨rfl, rfl⟩
  · exact h.behind t τ ht' f' hf' hτ
  · have htimer : f.ofTimer = some τ := Frame.section_wait hinstr hf (.inr rfl)
    have hmem : f' ∈ f :: stack := hframes ▸ hf'
    rcases List.mem_cons.mp hmem with rfl | hmem
    · cases f' <;> cases hinstr <;> first | rfl | cases htimer
    · have halone := h.alone t
      rw [hframes, List.countP_cons_of_pos (by simp [Frame.isTimer, htimer])] at halone
      have hpos : 0 < stack.countP Frame.isTimer := List.countP_pos_iff.mpr ⟨f', hmem, hτ⟩
      omega

theorem Machine.Run.ending (hrun : Machine.Run ok (.boot objects) m) :
    m.Keeping Kernel.Ending := by
  have hrun' := hrun.through (P := fun m => m.kernel.Timed ∧
    ∀ t op, .call t op ∈ m.kernel.log → m.code t ≠ .fresh)
    fun m₁ h _ => ⟨h.timed.kernel.2, h.called⟩
  refine hrun'.keeping (Machine.boot_keeping objects fun _ _ _ _ => ⟨fun t => ?_, ?_⟩) ?_ ?_
  · have hframes : (Kernel.idleStart objects).frames t =
        if t = bootstrapThread then [.user] else [] := rfl
    simp only [hframes]
    split <;> simp [Frame.isTimer, Frame.ofTimer]
  · intro t τ ht
    cases ht
  · rintro m label lk ⟨-, -, hcalled⟩ hm ha
    exact ha.ending hm.kernel.2 hcalled
  · rintro m label lk f stack op next ⟨-, htimed, -⟩ hm hg hframes hinstr hbegins
    have hopens := hm.opens hg hframes hinstr hbegins
    have hbegun : (lk.begins m.current op).Ending := by
      refine (hg.ending hm.kernel.2).begins hframes hinstr ?_
      exact (hg.timed htimed).lawful m.current f (by simp [hframes])
    refine hopens.keeps hframes hbegun
      (fun s s' _ _ hs hj => hj.of_eq hs.steady.frames fun t op' ht => hs.mem_log ht rfl)
      fun b r s hframes' _ hj => ?_
    have hadvanced := hj.advance (next r) hframes'
      (Frame.section_next_isTimer hinstr) fun hf f' hf' _ => Frame.section_next_ends hinstr hf hf'
    refine hadvanced.of_eq rfl fun t op' ht => ?_
    simpa [Kernel.ends, Kernel.note, Kernel.setFrames] using ht

end Ending

end UefiLkl.Lk
