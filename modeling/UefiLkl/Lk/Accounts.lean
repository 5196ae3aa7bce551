import UefiLkl.Lk.Events
import UefiLkl.Lk.Exits
set_option autoImplicit false

/-!
The account of a thread that is to be put away: whether it is listed, what of it is freed, and who
joins it; and what leaves the account alone.
-/

namespace UefiLkl.Lk
open Coroutine

/-- How far a thread has been put away: it is listed; it has exited, detached, and its memory
stays; thread `u` is to free its stack and its structure, or only the structure; it is freed. -/
inductive Stage where
  | listed
  | left
  | joined (u : Tid)
  | half (u : Tid)
  | freed
  deriving DecidableEq, Repr

def Stage.unlinks : Stage → Nat
  | .listed => 0
  | _ => 1

def Stage.stackFreed : Stage → Bool
  | .half _ | .freed => true
  | _ => false

def Stage.structFreed : Stage → Bool
  | .freed => true
  | _ => false

/-- What thread `u` has still to free of thread `t`. -/
def Stage.todo (t u : Tid) : Stage → List Frame
  | .joined v => if u = v then [.freeStack t] else []
  | .half v => if u = v then [.freeStruct t] else []
  | _ => []

def Frame.frees (t : Tid) : Frame → Bool
  | .freeStack u | .freeStruct u => u = t
  | _ => false

structure Kernel.At (lk : Kernel) (t : Tid) (stage : Stage) : Prop where
  unlinks : lk.unlinks t = stage.unlinks
  stackFrees : lk.stackFrees t = (stage.stackFreed && (lk.threads t).freeStack).toNat
  structFrees : lk.structFrees t = (stage.structFreed && (lk.threads t).freeStruct).toNat
  todo : ∀ u, (lk.frames u).filter (Frame.frees t) = stage.todo t u
  gone : stage ≠ .listed → t < lk.nextTid ∧ (lk.threads t).state = .death ∧
    ((lk.threads t).detached = true ↔ stage = .left)

def Op.joins : Op → Option Tid
  | .threadJoin t _ => some t
  | _ => none

def Kernel.Joining (lk : Kernel) (t u : Tid) : Prop := (lk.doing u).bind Op.joins = some t

instance (lk : Kernel) (t u : Tid) : Decidable (lk.Joining t u) :=
  inferInstanceAs (Decidable (_ = _))

structure Kernel.Joinable (lk : Kernel) (t : Tid) : Prop where
  state : (lk.threads t).state = .death
  detached : (lk.threads t).detached = false
  unlinks : lk.unlinks t = 0

/-- `thread_join` is not called as an operation, but through its frame. -/
def Frame.plain : Frame → Bool
  | .op (.threadJoin _ _) => false
  | _ => true

/-- The account of a thread, but for who joins it. -/
structure Kernel.Kept (lk : Kernel) (t : Tid) : Prop where
  stage : ∃ stage, lk.At t stage
  queue : t < lk.nextTid → (lk.threads t).state = .death ∨ (lk.threads t).detached = true →
    (lk.wait (.retcode t)).list = []
  fault : .thread t ∉ lk.faults
  exited : t < lk.nextTid → (lk.threads t).state = .death →
    .call t (.threadExit (lk.threads t).retcode) ∈ lk.log
  joined : ∀ c r, .joined c t r ∈ lk.log → .call t (.threadExit r) ∈ lk.log
  exiting : ∀ r, lk.doing t = some (.threadExit r) →
    t < lk.nextTid ∧ (lk.threads t).state = .death
  magic : t < lk.nextTid → ((lk.threads t).magic = true ↔ lk.unlinks t = 0)
  plain : ∀ u, ∀ f ∈ lk.frames u, f.plain = true

/-- One thread at most joins it, and is still in the queue, or was woken with an error, or is to
find it dead. -/
structure Kernel.Reaped (lk : Kernel) (t : Tid) : Prop extends Kernel.Kept lk t where
  joining : ∀ u, lk.Joining t u → t < lk.nextTid ∧ (u ∈ (lk.wait (.retcode t)).list ∨
    (lk.threads u).waitQueueBlockRet < 0 ∨ lk.Joinable t)
  sole : ∀ u v, lk.Joining t u → lk.Joining t v → u = v

/-- What the account of thread `t` is about is left alone. -/
structure Kernel.Leaves (t : Tid) (lk lk' : Kernel) : Prop where
  made : t < lk'.nextTid ↔ t < lk.nextTid
  unlinks : lk'.unlinks t = lk.unlinks t
  stackFrees : lk'.stackFrees t = lk.stackFrees t
  structFrees : lk'.structFrees t = lk.structFrees t
  todo : ∀ u, (lk'.frames u).filter (Frame.frees t) = (lk.frames u).filter (Frame.frees t)
  plain : (∀ u, ∀ f ∈ lk.frames u, f.plain = true) → ∀ u, ∀ f ∈ lk'.frames u, f.plain = true
  exiting : ∀ r, lk'.doing t = some (.threadExit r) → lk.doing t = some (.threadExit r)
  fault : .thread t ∈ lk'.faults → .thread t ∈ lk.faults
  magic : t < lk.nextTid → (lk'.threads t).magic = (lk.threads t).magic
  detached : t < lk.nextTid → (lk'.threads t).detached = (lk.threads t).detached
  freeStack : t < lk.nextTid → (lk'.threads t).freeStack = (lk.threads t).freeStack
  freeStruct : t < lk.nextTid → (lk'.threads t).freeStruct = (lk.threads t).freeStruct
  retcode : t < lk.nextTid → (lk'.threads t).retcode = (lk.threads t).retcode
  alive : t < lk.nextTid → (lk'.threads t).state = .death → (lk.threads t).state = .death
  calls : ∀ r, .call t (.threadExit r) ∈ lk.log → .call t (.threadExit r) ∈ lk'.log
  joined : ∀ c r, .joined c t r ∈ lk'.log → .joined c t r ∈ lk.log

section Leaves

variable {lk lk' lk'' : Kernel} {c t : Tid} {op : Op}

theorem Kernel.Leaves.refl (lk : Kernel) : Kernel.Leaves t lk lk := by
  constructor <;> first | exact fun _ => id | exact id | exact fun _ _ => id | exact fun _ => rfl |
    rfl

theorem Kernel.Leaves.trans (h : Kernel.Leaves t lk lk') (h' : Kernel.Leaves t lk' lk'') :
    Kernel.Leaves t lk lk'' where
  made := h'.made.trans h.made
  unlinks := h'.unlinks.trans h.unlinks
  stackFrees := h'.stackFrees.trans h.stackFrees
  structFrees := h'.structFrees.trans h.structFrees
  todo u := (h'.todo u).trans (h.todo u)
  plain hplain := h'.plain (h.plain hplain)
  exiting r hr := h.exiting r (h'.exiting r hr)
  fault hf := h.fault (h'.fault hf)
  magic ht := (h'.magic (h.made.mpr ht)).trans (h.magic ht)
  detached ht := (h'.detached (h.made.mpr ht)).trans (h.detached ht)
  freeStack ht := (h'.freeStack (h.made.mpr ht)).trans (h.freeStack ht)
  freeStruct ht := (h'.freeStruct (h.made.mpr ht)).trans (h.freeStruct ht)
  retcode ht := (h'.retcode (h.made.mpr ht)).trans (h.retcode ht)
  alive ht hd := h.alive ht (h'.alive (h.made.mpr ht) hd)
  calls r hr := h'.calls r (h.calls r hr)
  joined c r hr := h.joined c r (h'.joined c r hr)

theorem Kernel.At.leave {stage : Stage} (h : lk.At t stage) (hl : Kernel.Leaves t lk lk')
    (hdead : t < lk.nextTid → (lk.threads t).state = .death → (lk'.threads t).state = .death) :
    lk'.At t stage where
  unlinks := hl.unlinks.trans h.unlinks
  stackFrees := by
    rw [hl.stackFrees, h.stackFrees]
    by_cases hs : stage = .listed
    · rw [hs]
      rfl
    · rw [hl.freeStack (h.gone hs).1]
  structFrees := by
    rw [hl.structFrees, h.structFrees]
    by_cases hs : stage = .listed
    · rw [hs]
      rfl
    · rw [hl.freeStruct (h.gone hs).1]
  todo u := (hl.todo u).trans (h.todo u)
  gone hs := by
    obtain ⟨hmade, hstate, hdetached⟩ := h.gone hs
    rw [hl.detached hmade]
    exact ⟨hl.made.mpr hmade, hdead hmade hstate, hdetached⟩

theorem Kernel.Kept.leave (h : lk.Kept t) (hl : Kernel.Leaves t lk lk')
    (hdead : t < lk.nextTid → (lk.threads t).state = .death → (lk'.threads t).state = .death)
    (hqueue : t < lk.nextTid → (lk.threads t).state = .death ∨ (lk.threads t).detached = true →
      (lk.wait (.retcode t)).list = [] → (lk'.wait (.retcode t)).list = []) : lk'.Kept t where
  stage := by
    obtain ⟨stage, hs⟩ := h.stage
    exact ⟨stage, hs.leave hl hdead⟩
  queue hmade hor := by
    rw [hl.made] at hmade
    rw [hl.detached hmade] at hor
    have hor := hor.imp_left (hl.alive hmade)
    exact hqueue hmade hor (h.queue hmade hor)
  fault hf := h.fault (hl.fault hf)
  exited hmade hstate := by
    rw [hl.made] at hmade
    rw [hl.retcode hmade]
    exact hl.calls _ (h.exited hmade (hl.alive hmade hstate))
  joined c r hr := hl.calls r (h.joined c r (hl.joined c r hr))
  exiting r hr := by
    obtain ⟨hmade, hstate⟩ := h.exiting r (hl.exiting r hr)
    exact ⟨hl.made.mpr hmade, hdead hmade hstate⟩
  magic hmade := by
    rw [hl.made] at hmade
    rw [hl.magic hmade, hl.unlinks]
    exact h.magic hmade
  plain := hl.plain h.plain

theorem Kernel.Kept.stay (h : lk.Kept t) (hl : Kernel.Leaves t lk lk')
    (hthreads : lk'.threads = lk.threads) (hwait : lk'.wait = lk.wait) : lk'.Kept t :=
  h.leave hl (fun _ hd => by rwa [hthreads]) fun _ _ hq => by rwa [hwait]

theorem Kernel.Reaped.leave (h : lk.Reaped t) (hl : Kernel.Leaves t lk lk')
    (hdead : t < lk.nextTid → (lk.threads t).state = .death → (lk'.threads t).state = .death)
    (hqueue : t < lk.nextTid → (lk.wait (.retcode t)).list = [] →
      (lk'.wait (.retcode t)).list = [])
    (hjoining : ∀ u, lk'.Joining t u → lk.Joining t u)
    (hjoins : t < lk.nextTid → ∀ u, lk.Joining t u →
      (u ∈ (lk.wait (.retcode t)).list → u ∈ (lk'.wait (.retcode t)).list ∨
        (lk'.threads u).waitQueueBlockRet < 0) ∧
      ((lk.threads u).waitQueueBlockRet < 0 → (lk'.threads u).waitQueueBlockRet < 0)) :
    lk'.Reaped t := by
  refine ⟨h.toKept.leave hl hdead fun hmade _ => hqueue hmade, fun u hu => ?_, fun u v hu hv =>
    h.sole u v (hjoining u hu) (hjoining v hv)⟩
  have hu := hjoining u hu
  obtain ⟨hmade, hwhere⟩ := h.joining u hu
  refine ⟨hl.made.mpr hmade, ?_⟩
  rcases hwhere with hmem | hret | hjoinable
  · exact ((hjoins hmade u hu).1 hmem).imp_right Or.inl
  · exact .inr (.inl ((hjoins hmade u hu).2 hret))
  · exact .inr (.inr ⟨hdead hmade hjoinable.state,
      (hl.detached hmade).trans hjoinable.detached, hl.unlinks.trans hjoinable.unlinks⟩)

theorem Kernel.Reaped.stay (h : lk.Reaped t) (hl : Kernel.Leaves t lk lk')
    (hthreads : lk'.threads = lk.threads) (hwait : lk'.wait = lk.wait)
    (hjoining : ∀ u, lk'.Joining t u → lk.Joining t u) : lk'.Reaped t := by
  refine h.leave hl (fun _ hd => by rwa [hthreads]) (fun _ hq => by rwa [hwait]) hjoining
    fun _ u _ => ⟨fun hmem => .inl (by rwa [hwait]), fun hret => by rwa [hthreads]⟩

end Leaves

section Changes

variable {lk lk' : Kernel} {c t : Tid} {op : Op}

theorem Kernel.thread_mem_useThread {u : Tid} (hu : t ≠ u ∨ lk.structFrees u = 0)
    (h : .thread t ∈ (lk.useThread u).faults) : .thread t ∈ lk.faults := by
  unfold Kernel.useThread at h
  split at h
  · exact h
  · next hfrees =>
    have hne : t ≠ u := hu.resolve_right hfrees
    simpa [hne] using h

theorem Kernel.thread_mem_useEvent {e : EventId} (h : .thread t ∈ (lk.useEvent e).faults) :
    .thread t ∈ lk.faults := by
  unfold Kernel.useEvent at h
  cases e with
  | host e => exact h
  | timer τ =>
    dsimp only at h
    split at h
    · exact h
    · simpa using h

theorem Kernel.Change.thread_leaves (h : Kernel.Change c op lk lk')
    (hon : op.on c ≠ some (.retcode t)) (hmade : t < lk.nextTid) :
    (lk'.threads t).magic = (lk.threads t).magic ∧
      (lk'.threads t).detached = (lk.threads t).detached ∧
      (lk'.threads t).freeStack = (lk.threads t).freeStack ∧
      (lk'.threads t).freeStruct = (lk.threads t).freeStruct ∧
      (lk'.threads t).retcode = (lk.threads t).retcode ∧
      ((lk'.threads t).state = .death → (lk.threads t).state = .death) := by
  rcases h.thread t with heq | hrecast
  · rw [heq]
    exact ⟨rfl, rfl, rfl, rfl, rfl, id⟩
  · generalize lk'.threads t = thread at hrecast ⊢
    cases hrecast with
    | requeued f hf =>
      exact ⟨hf.magic _, hf.detached _, hf.freeStack _, hf.freeStruct _, hf.retcode _,
        fun hd => by rw [hf.state] at hd; cases hd⟩
    | quantum => exact ⟨rfl, rfl, rfl, rfl, rfl, id⟩
    | created => exact absurd rfl hmade.ne
    | unlinked u hq => exact absurd hq hon
    | detached u b hop => exact absurd (by rw [hop]; rfl) hon
    | dead r hop => exact absurd (by rw [hop]; rfl) hon
    | _ => exact ⟨rfl, rfl, rfl, rfl, rfl, fun hd => by cases hd⟩

theorem Kernel.Change.unlinks_eq (h : Kernel.Change c op lk lk')
    (hon : op.on c ≠ some (.retcode t)) : lk'.unlinks t = lk.unlinks t := by
  cases h with
  | pick => rw [Kernel.getTopThread_eq]; rfl
  | switch => rw [Kernel.setUpQuantum_eq]
  | useThread => rw [Kernel.useThread_eq]
  | useEvent => rw [Kernel.useEvent_eq]
  | unlink u hq =>
    refine Function.update_of_ne ?_ _ _
    rintro rfl
    exact hon hq
  | _ => rfl

theorem Kernel.Change.joined_mem {d : Tid} {r : Int} (h : Kernel.Change c op lk lk')
    (hon : op.on c ≠ some (.retcode t)) : .joined d t r ∈ lk'.log → .joined d t r ∈ lk.log := by
  cases h with
  | pick => rw [Kernel.getTopThread_eq]; exact id
  | switch => rw [Kernel.setUpQuantum_eq]; exact id
  | useThread => rw [Kernel.useThread_eq]; exact id
  | useEvent => rw [Kernel.useEvent_eq]; exact id
  | enqueue | dequeue | signal => exact fun hx => by simpa [Kernel.enqueue, Kernel.dequeue,
      Kernel.note, Kernel.setThread, Kernel.setWait] using hx
  | joined u r' hq =>
    have hne : t ≠ u := by
      rintro rfl
      exact hon hq
    exact fun hx => by simpa [Kernel.note, hne] using hx
  | _ => exact id

/-- Only an operation on the thread changes what the account is about. -/
theorem Kernel.Change.leaves (h : Kernel.Change c op lk lk') (hon : op.on c ≠ some (.retcode t))
    (huses : op.uses = some t → lk.structFrees t = 0)
    (hcreate : ∀ priority entry, op ≠ .threadCreate priority entry) : Kernel.Leaves t lk lk' := by
  have hsteady := h.steady
  have hthread : t < lk.nextTid → _ := h.thread_leaves hon
  have hnextTid : lk'.nextTid = lk.nextTid := by
    cases h with
    | pick => rw [Kernel.getTopThread_eq]; rfl
    | switch => rw [Kernel.setUpQuantum_eq]
    | useThread => rw [Kernel.useThread_eq]
    | useEvent => rw [Kernel.useEvent_eq]
    | create priority entry hop => exact absurd hop (hcreate priority entry)
    | _ => rfl
  have hfault : .thread t ∈ lk'.faults → .thread t ∈ lk.faults := by
    cases h with
    | pick => rw [Kernel.getTopThread_eq]; exact id
    | switch => rw [Kernel.setUpQuantum_eq]; exact id
    | useThread u hq =>
      refine Kernel.thread_mem_useThread ?_
      by_cases hu : t = u
      · subst hu
        exact .inr (hq.elim (fun hop => absurd hop hon) huses)
      · exact .inl hu
    | useEvent e => exact Kernel.thread_mem_useEvent
    | _ => exact id
  obtain ⟨l, hlog, -⟩ := h.log
  refine ⟨by rw [hnextTid], h.unlinks_eq hon, by rw [hsteady.stackFrees],
    by rw [hsteady.structFrees], fun u => by rw [hsteady.frames],
    fun hp => by rwa [hsteady.frames], fun r hr => by rwa [hsteady.doing] at hr, hfault,
    fun ht => (hthread ht).1, fun ht => (hthread ht).2.1, fun ht => (hthread ht).2.2.1,
    fun ht => (hthread ht).2.2.2.1, fun ht => (hthread ht).2.2.2.2.1,
    fun ht => (hthread ht).2.2.2.2.2, fun r hr => ?_, fun d r => h.joined_mem hon⟩
  rw [hlog]
  exact List.mem_append_left l hr

theorem Kernel.Changes.leaves (h : Kernel.Changes c op lk lk') (hon : op.on c ≠ some (.retcode t))
    (huses : op.uses = some t → lk.structFrees t = 0)
    (hcreate : ∀ priority entry, op ≠ .threadCreate priority entry) : Kernel.Leaves t lk lk' := by
  induction h with
  | refl => exact .refl lk
  | tail _ h ih =>
    exact ih.trans (h.leaves hon (fun hop => ih.structFrees.trans (huses hop)) hcreate)

end Changes

section Frames

variable {f : Frame} {op : Op} {next : Int → List Frame} {r : Int} {t : Tid}

theorem Op.on_of_joins (h : op.joins = some t) (c : Tid) : op.on c = some (.retcode t) := by
  cases op with
  | threadJoin u timeout =>
    cases h
    rfl
  | _ => cases h

theorem Op.on_of_exit {r : Int} : (Op.threadExit r).on t = some (.retcode t) := rfl

/-- An operation leaves something to free only after it has joined. -/
theorem Frame.section_frees (hinstr : f.instr = .section op next) :
    f.frees t = false ∧ (∀ r, (∀ f' ∈ next r, f'.plain = true)) ∧
      ((op.joins = some t → r ≠ NO_ERROR) → (next r).filter (Frame.frees t) = []) := by
  cases f <;> cases hinstr
  case threadJoin u timeout =>
    refine ⟨rfl, fun r => ?_, fun hr => ?_⟩
    · dsimp only
      split <;> simp [Frame.plain]
    · dsimp only
      split
      · next hzero =>
        have hne : u ≠ t := fun hu => hr (congrArg some hu) hzero
        simp [Frame.frees, hne]
      · rfl
  case threadDetachAndResume u =>
    refine ⟨rfl, fun r => ?_, fun _ => ?_⟩
    · dsimp only
      split <;> simp [Frame.plain]
    · dsimp only
      split <;> rfl
  case threadResume | threadDetach | semDownWait =>
    refine ⟨rfl, fun r => ?_, fun _ => ?_⟩
    · dsimp only
      split <;> simp [Frame.plain]
    · dsimp only
      split <;> rfl
  all_goals exact ⟨rfl, fun r => by simp [Frame.plain], fun _ => rfl⟩

theorem Frame.section_join {timeout : LkTime} (hf : f.plain = true)
    (hinstr : f.instr = .section (.threadJoin t timeout) next) :
    f = .threadJoin t timeout := by
  cases f <;> cases hinstr
  · cases hf
  · rfl

theorem Frame.callable_plain (h : f.callable = true) :
    f.plain = true ∧ ∀ t, f.frees t = false := by
  cases f with
  | op o =>
    refine ⟨?_, fun _ => rfl⟩
    cases o <;> first | rfl | cases h
  | freeStack | freeStruct => cases h
  | _ => exact ⟨rfl, fun _ => rfl⟩

end Frames

section Steps

variable {lk lk' : Kernel} {c t : Tid} {op : Op}

theorem Kernel.Leaves.begins (lk : Kernel) (hexit : ∀ r, op = .threadExit r → t ≠ c) :
    Kernel.Leaves t lk (lk.begins c op) where
  made := Iff.rfl
  unlinks := rfl
  stackFrees := rfl
  structFrees := rfl
  todo _ := rfl
  plain := id
  exiting r hr := by
    by_cases hc : t = c
    · subst hc
      exact absurd rfl (hexit r (by simpa [Kernel.begins] using hr))
    · simpa [Kernel.begins, Kernel.note, hc] using hr
  fault := id
  magic _ := rfl
  detached _ := rfl
  freeStack _ := rfl
  freeStruct _ := rfl
  retcode _ := rfl
  alive _ := id
  calls r hr := List.mem_append_left _ hr
  joined d r hr := by simpa [Kernel.begins, Kernel.note] using hr

theorem Kernel.Leaves.setFrames {frames : List Frame}
    (htodo : frames.filter (Frame.frees t) = (lk.frames c).filter (Frame.frees t))
    (hplain : (∀ f ∈ lk.frames c, f.plain = true) → ∀ f ∈ frames, f.plain = true) :
    Kernel.Leaves t lk (lk.setFrames c frames) := by
  refine { Kernel.Leaves.refl lk with todo := fun u => ?_, plain := fun hp u f hf => ?_ }
  · by_cases hc : u = c
    · subst hc
      simpa [Kernel.setFrames] using htodo
    · simp [Kernel.setFrames, hc]
  · by_cases hc : u = c
    · subst hc
      exact hplain (hp u) f (by simpa [Kernel.setFrames] using hf)
    · exact hp u f (by simpa [Kernel.setFrames, hc] using hf)

theorem Kernel.Leaves.ends {f : Frame} {stack : List Frame} {next : Int → List Frame} {b : Bool}
    {r : Int} (hframes : lk.frames c = f :: stack) (hinstr : f.instr = .section op next)
    (hr : op.joins = some t → r ≠ NO_ERROR) :
    Kernel.Leaves t lk (lk.ends c op b r (next r ++ stack)) := by
  obtain ⟨hf, hplain, hnext⟩ := Frame.section_frees (t := t) (r := r) hinstr
  have hset : Kernel.Leaves t lk (lk.setFrames c (next r ++ stack)) := by
    refine .setFrames ?_ fun hp f' hf' => ?_
    · rw [hframes, List.filter_append, hnext hr, List.nil_append,
        List.filter_cons_of_neg (by simp [hf])]
    · rw [hframes] at hp
      rcases List.mem_append.mp hf' with hf' | hf'
      · exact hplain r f' hf'
      · exact hp f' (List.mem_cons_of_mem f hf')
  refine { hset with exiting := fun r' hr' => ?_, calls := fun r hr => ?_,
                     joined := fun d r hr => ?_, todo := hset.todo, plain := hset.plain }
  · by_cases hc : t = c
    · simp [Kernel.ends, hc] at hr'
    · simpa [Kernel.ends, Kernel.note, Kernel.setFrames, hc] using hr'
  · exact List.mem_append_left _ hr
  · simpa [Kernel.ends, Kernel.note, Kernel.setFrames] using hr

theorem Kernel.joining_begins {u : Tid} (h : (lk.begins c op).Joining t u) :
    lk.Joining t u ∨ u = c ∧ op.joins = some t := by
  by_cases hc : u = c
  · exact .inr ⟨hc, by simpa [Kernel.Joining, Kernel.begins, hc] using h⟩
  · exact .inl (by simpa [Kernel.Joining, Kernel.begins, Kernel.note, hc] using h)

theorem Kernel.joining_ends {u : Tid} {b : Bool} {r : Int} {frames : List Frame}
    (h : (lk.ends c op b r frames).Joining t u) : lk.Joining t u ∧ u ≠ c := by
  by_cases hc : u = c
  · simp [Kernel.Joining, Kernel.ends, hc] at h
  · exact ⟨by simpa [Kernel.Joining, Kernel.ends, Kernel.note, Kernel.setFrames, hc] using h, hc⟩

theorem Kernel.Reaped.begins (h : lk.Reaped t) (hjoins : op.joins ≠ some t)
    (hexit : ∀ r, op = .threadExit r → t ≠ c) : (lk.begins c op).Reaped t :=
  h.stay (.begins lk hexit) rfl rfl fun _ hu =>
    (Kernel.joining_begins hu).elim id fun hc => absurd hc.2 hjoins

theorem Kernel.Reaped.ends {f : Frame} {stack : List Frame} {next : Int → List Frame} {b : Bool}
    {r : Int} (h : lk.Reaped t) (hframes : lk.frames c = f :: stack)
    (hinstr : f.instr = .section op next) (hr : op.joins = some t → r ≠ NO_ERROR) :
    (lk.ends c op b r (next r ++ stack)).Reaped t :=
  h.stay (.ends hframes hinstr hr) rfl rfl fun _ hu => (Kernel.joining_ends hu).1

theorem Kernel.Reaped.unmade (h : lk.Reaped t) (hmade : ¬ t < lk.nextTid) :
    lk.At t .listed ∧ (∀ u, ¬ lk.Joining t u) ∧ ∀ r, lk.doing t ≠ some (.threadExit r) := by
  obtain ⟨stage, hs⟩ := h.stage
  have hlisted : stage = .listed := by
    by_contra hne
    exact hmade (hs.gone hne).1
  exact ⟨hlisted ▸ hs, fun u hu => hmade (h.joining u hu).1, fun r hr => hmade (h.exiting r hr).1⟩

theorem Kernel.Reaped.create (h : lk.Reaped t) (hsound : lk.Sound) (priority : Priority)
    (entry : Entry) {threadList : List Tid} {threadLock ints : Bool} :
    Kernel.Reaped { lk.addThread none lk.nextTid priority entry with
      threadList := threadList
      threadLock := threadLock
      ints := ints } t := by
  by_cases ht : t = lk.nextTid
  · subst ht
    obtain ⟨hs, hjoining, hexiting⟩ := h.unmade (lt_irrefl _)
    refine ⟨⟨⟨.listed, ⟨hs.unlinks, hs.stackFrees, hs.structFrees, hs.todo,
      fun hne => absurd rfl hne⟩⟩, fun _ _ => ?_, h.fault, fun _ hstate => ?_, h.joined,
      fun r hr => absurd hr (hexiting r), fun _ => ?_, h.plain⟩,
      fun u hu => absurd hu (hjoining u), h.sole⟩
    · simp [Kernel.addThread, waitQueueInit]
    · simp [Kernel.addThread] at hstate
    · have hzero : lk.unlinks lk.nextTid = 0 := hs.unlinks
      simpa [Kernel.addThread] using hzero
  · have hthread : (lk.addThread none lk.nextTid priority entry).threads t = lk.threads t :=
      Function.update_of_ne ht _ _
    have hwait : (lk.addThread none lk.nextTid priority entry).wait (.retcode t) =
        lk.wait (.retcode t) := Function.update_of_ne (by simpa using ht) _ _
    have hmade : t < (lk.addThread none lk.nextTid priority entry).nextTid ↔ t < lk.nextTid :=
      Nat.lt_succ_iff_lt_or_eq.trans (or_iff_left ht)
    refine h.leave { Kernel.Leaves.refl lk with
      made := hmade
      todo := fun _ => rfl
      plain := id
      exiting := fun _ => id
      magic := fun _ => by rw [hthread]
      detached := fun _ => by rw [hthread]
      freeStack := fun _ => by rw [hthread]
      freeStruct := fun _ => by rw [hthread]
      retcode := fun _ => by rw [hthread]
      alive := fun _ hd => by rwa [hthread] at hd
      calls := fun _ => id
      joined := fun _ _ => id } (fun _ hd => by rwa [hthread]) (fun _ hq => by rwa [hwait])
      (fun _ => id) ?_
    intro _ u hu
    have hborn : u < lk.nextTid := by
      obtain ⟨op, hop, -⟩ := Option.bind_eq_some_iff.mp hu
      exact (hsound.tracked.alive u op hop).1
    have huthread : (lk.addThread none lk.nextTid priority entry).threads u = lk.threads u :=
      Function.update_of_ne hborn.ne _ _
    exact ⟨fun hmem => .inl (by rwa [hwait]), fun hret => by rwa [huthread]⟩

end Steps

section Others

variable {lk lk' : Kernel} {c t u : Tid} {op : Op} {m : Machine} {err : Status}

theorem Kernel.Reaped.changes (h : lk.Reaped t) (hsound : lk.Sound) (hdoing : lk.doing c = some op)
    (hon : op.on c ≠ some (.retcode t)) (huses : op.uses = some t → lk.structFrees t = 0)
    (hcreate : ∀ priority entry, op ≠ .threadCreate priority entry)
    (hunblock : ∀ u err, op ≠ .threadUnblock u err) (hchanges : Kernel.Changes c op lk lk') :
    lk'.Reaped t := by
  refine h.leave (hchanges.leaves hon huses hcreate) (fun hmade hstate => ?_) (fun hmade hq => ?_)
    (fun u hu => by rwa [Kernel.Joining, hchanges.steady.doing] at hu) fun hmade u hu => ?_
  · have hc : t ≠ c := by
      rintro rfl
      have halive := (hsound.tracked.alive t op hdoing).2 fun r hr =>
        hon (by rw [hr]; exact Op.on_of_exit)
      rw [hstate] at halive
      rcases halive with h | h | h <;> cases h
    exact ((hsound.dead hstate hmade).changes hc hchanges).state
  all_goals
    have hspares : lk.Spares c op (.retcode t) :=
      ⟨hon, fun u err hop => absurd hop (hunblock u err), fun u hu => by cases hu; exact hmade⟩
    have helse := hspares.elsewhere hsound hdoing hchanges
  · rwa [helse.wait]
  · obtain ⟨op', hop', hjoins⟩ := Option.bind_eq_some_iff.mp hu
    exact ⟨fun hmem => .inl (by rwa [helse.wait]),
      fun hret => by rwa [helse.ret u op' hop' (Op.on_of_joins hjoins u)]⟩

theorem threadUnblock_parts (lk : Kernel) (u : Tid) (err : Status) :
    ∃ r lk', (perform (.threadUnblock u err)).run lk = .done r lk' ∧
      (∀ q v, v ∈ (lk'.wait q).list → v ∈ (lk.wait q).list) ∧
      (∀ q v, v ∈ (lk.wait q).list → v ∈ (lk'.wait q).list ∨
        v = u ∧ (lk'.threads v).waitQueueBlockRet = err) ∧
      ∀ v, (lk'.threads v).waitQueueBlockRet = (lk.threads v).waitQueueBlockRet ∨
        v = u ∧ (lk'.threads v).waitQueueBlockRet = err := by
  obtain ⟨faults, huse⟩ : ∃ faults, lk.lock.useThread u = { lk.lock with faults := faults } :=
    ⟨_, Kernel.useThread_eq _ _⟩
  simp only [perform, locked, threadUnblockFromWaitQueue, Section.run_bind, lockThreads_run,
    Section.run_modify, Section.run_read, Susp.done_bind, Section.run_ite, huse]
  split
  · exact ⟨_, _, rfl, fun _ _ => id, fun _ _ => .inl, fun _ => .inl rfl⟩
  · split
    · exact ⟨_, _, rfl, fun _ _ => id, fun _ _ => .inl, fun _ => .inl rfl⟩
    · next q _ =>
      refine ⟨_, _, rfl, fun q' v hv => ?_, fun q' v hv => ?_, fun v => ?_⟩
      · by_cases hq : q' = q
        · subst hq
          exact List.mem_of_mem_erase (by simpa [Kernel.unlock, Kernel.insertInRunQueueHead,
            Kernel.dequeue, Kernel.note, Kernel.setThread, Kernel.setWait, Kernel.lock] using hv)
        · simpa [Kernel.unlock, Kernel.insertInRunQueueHead, Kernel.dequeue, Kernel.note,
            Kernel.setThread, Kernel.setWait, Kernel.lock, hq] using hv
      · by_cases hvu : v = u
        · exact .inr ⟨hvu, by simp [hvu, Kernel.unlock, Kernel.insertInRunQueueHead,
            Kernel.dequeue, Kernel.note]⟩
        · refine .inl ?_
          by_cases hq : q' = q
          · subst hq
            simpa [Kernel.unlock, Kernel.insertInRunQueueHead, Kernel.dequeue, Kernel.note,
              Kernel.setThread, Kernel.setWait, Kernel.lock, List.mem_erase_of_ne hvu] using hv
          · simpa [Kernel.unlock, Kernel.insertInRunQueueHead, Kernel.dequeue, Kernel.note,
              Kernel.setThread, Kernel.setWait, Kernel.lock, hq] using hv
      · by_cases hvu : v = u
        · exact .inr ⟨hvu, by simp [hvu, Kernel.unlock, Kernel.insertInRunQueueHead,
            Kernel.dequeue, Kernel.note]⟩
        · exact .inl (by simp [hvu, Kernel.unlock, Kernel.insertInRunQueueHead, Kernel.dequeue,
            Kernel.note, Kernel.setThread, Kernel.setWait, Kernel.lock])

theorem threadUnblock_reaped (h : lk.Reaped t) (hsound : lk.Sound)
    (hdoing : lk.doing lk.currentThread = some (.threadUnblock u err))
    (huses : u = t → lk.structFrees t = 0) (herr : lk.Joining t u → err < 0) :
    ∃ r lk', (perform (.threadUnblock u err)).run lk = .done r lk' ∧
      Kernel.Changes lk.currentThread (.threadUnblock u err) lk lk' ∧ lk'.Reaped t := by
  obtain ⟨r, lk', hrun, hless, hlist, hret⟩ := threadUnblock_parts lk u err
  have hmoves := perform_changing lk.currentThread (.threadUnblock u err) lk rfl
  rw [hrun] at hmoves
  have hchanges : Kernel.Changes lk.currentThread (.threadUnblock u err) lk lk' := hmoves.1
  refine ⟨r, lk', hrun, hchanges, h.leave (hchanges.leaves (by simp [Op.on])
    (fun hop => huses (Option.some_inj.mp hop)) (by simp)) (fun hmade hstate => ?_) (fun _ hq => ?_)
    (fun v hv => by rwa [Kernel.Joining, hchanges.steady.doing] at hv)
    fun _ v hv => ⟨fun hmem => ?_, fun hneg => ?_⟩⟩
  · have hc : t ≠ lk.currentThread := by
      intro hc
      have hrunning := (hsound.wf.running t (Set.notMem_empty t)).mpr (congrArg some hc.symm)
      rw [hstate] at hrunning
      cases hrunning
    exact ((hsound.dead hstate hmade).changes hc hchanges).state
  · refine List.eq_nil_iff_forall_not_mem.mpr fun v hv => ?_
    have hold := hless (.retcode t) v hv
    rw [hq] at hold
    cases hold
  · rcases hlist (.retcode t) v hmem with hmem | ⟨rfl, hv'⟩
    · exact .inl hmem
    · exact .inr (by rw [hv']; exact herr hv)
  · rcases hret v with heq | ⟨rfl, hv'⟩
    · rwa [heq]
    · rw [hv']
      exact herr hv

theorem threadResume_done (u : Tid) (lk : Kernel) :
    ∃ r lk', (perform (.threadResume u)).run lk = .done r lk' := by
  simp only [perform, returning, threadResume, Section.run_bind, Section.run_read, lockThreads_run,
    Section.run_modify, Susp.done_bind, Section.run_ite]
  split <;> exact ⟨_, _, rfl⟩

theorem threadCreate_perform (lk : Kernel) (priority : Priority) (entry : Entry) :
    (perform (.threadCreate priority entry)).run lk = .done (Int.ofNat lk.nextTid)
      { lk.addThread none lk.nextTid priority entry with
        threadList := lk.nextTid :: lk.threadList
        threadLock := false
        ints := false || lk.ints } := rfl

theorem Machine.Opens.reaped {f : Frame} {stack : List Frame} {next : Int → List Frame}
    {T : Kernel → Prop}
    (h : m.Opens op lk) (hon : op.on m.current ≠ some (.retcode t))
    (huses : op.uses = some t → lk.structFrees t = 0)
    (herr : ∀ u err, op = .threadUnblock u err → lk.Joining t u → err < 0)
    (hframes : lk.frames m.current = f :: stack) (hinstr : f.instr = .section op next)
    (hlk : lk.Reaped t) (hT : ∀ s, T s → Turn m.current op (f :: stack) s ∧ s.Sound) :
    ((perform op).run (lk.begins m.current op)).Wp T (fun s => s.Reaped t)
      (fun b r s => (s.ends m.current op b r (next r ++ stack)).Reaped t) true := by
  have hbegun : (lk.begins m.current op).Reaped t :=
    hlk.begins (fun hj => hon (Op.on_of_joins hj _)) fun r hr ht =>
      hon (by rw [hr, ht]; exact Op.on_of_exit)
  have hdoing : (lk.begins m.current op).doing m.current = some op := by simp [Kernel.begins]
  have hjoins : ∀ r, op.joins = some t → r ≠ NO_ERROR := fun _ hj =>
    absurd (Op.on_of_joins hj m.current) hon
  by_cases hcreate : ∃ priority entry, op = .threadCreate priority entry
  · obtain ⟨priority, entry, rfl⟩ := hcreate
    rw [threadCreate_perform]
    exact (hbegun.create h.begins priority entry).ends (f := f) hframes hinstr (hjoins _)
  by_cases hunblock : ∃ u err, op = .threadUnblock u err
  · obtain ⟨u, err, rfl⟩ := hunblock
    have hcurrent : (lk.begins m.current (.threadUnblock u err)).currentThread = m.current :=
      h.current
    obtain ⟨r, lk', hrun, hchanges, hreaped⟩ := threadUnblock_reaped hbegun h.begins
      (by rw [hcurrent]; exact hdoing) (fun hu => huses (congrArg some hu)) fun hu =>
        herr u err rfl (by
        by_cases hc : u = m.current
        · simp [Kernel.Joining, Kernel.begins, hc, Op.joins] at hu
        · simpa [Kernel.Joining, Kernel.begins, Kernel.note, hc] using hu)
    rw [hrun]
    refine hreaped.ends (f := f) ?_ hinstr (hjoins _)
    rw [hchanges.steady.frames]
    exact hframes
  by_cases hresume : ∃ u, op = .threadResume u
  · obtain ⟨u, rfl⟩ := hresume
    obtain ⟨r, lk', hrun⟩ := threadResume_done u (lk.begins m.current (.threadResume u))
    have hmoves := perform_changing m.current (.threadResume u)
      (lk.begins m.current (.threadResume u)) h.current
    rw [hrun] at hmoves ⊢
    have hchanges : Kernel.Changes m.current (.threadResume u)
      (lk.begins m.current (.threadResume u)) lk' := hmoves.1
    refine (hbegun.changes h.begins hdoing hon huses (by simp) (by simp) hchanges).ends (f := f) ?_
      hinstr (hjoins _)
    rw [hchanges.steady.frames]
    exact hframes
  · have huses' : op.uses ≠ some t := by
      intro hop
      cases op with
      | threadResume u => exact hresume ⟨u, rfl⟩
      | threadUnblock u err => exact hunblock ⟨u, err, rfl⟩
      | _ => cases hop
    have hcreate' : ∀ priority entry, op ≠ .threadCreate priority entry := fun p e he =>
      hcreate ⟨p, e, he⟩
    have hunblock' : ∀ u err, op ≠ .threadUnblock u err := fun u err he => hunblock ⟨u, err, he⟩
    refine (h.keeps (J := fun s => s.Reaped t) hframes hbegun (fun s s' ht hsound hs hj => ?_)
      fun b r s hframes' _ hj => ?_).weaken hT
    · exact hj.changes hsound ht.doing hon (fun hop => absurd hop huses') hcreate' hunblock' hs
    · exact hj.ends (f := f) hframes' hinstr (hjoins _)

end Others

end UefiLkl.Lk
