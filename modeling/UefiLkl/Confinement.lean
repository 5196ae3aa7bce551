import UefiLkl.Open
set_option autoImplicit false

/-!
Where `LKLOpen` creates and opens objects, compared with the mount point.
-/

namespace UefiLkl
open Interaction PathWalk

def Linux.mkdirTarget (k : Linux) (path : Bytes) : Option (List Name) :=
  match k.walkPath false (removeTrailingSlashes path) with
  | .missing d a => if validName a then some (d ++ [a]) else none
  | _ => none

def Linux.openTarget (k : Linux) (path : Bytes) (flags : Nat) : Option (List Name) :=
  let creat := flags &&& O_CREAT ≠ 0
  if creat ∧ path.getLast? = some slash then none
  else match k.walkPath true path with
  | .found p => match k.fs.node p with
    | none => none
    | some n =>
      if n.entry = .dir ∧ (creat ∨ flags &&& 3 ≠ O_RDONLY) then none else some p
  | .missing d a => if creat ∧ validName a then some (d ++ [a]) else none
  | .fail _ => none

/-- After a call that reaches `target`, only it is new. -/
def Reaches (k : Linux) (target : Option (List Name)) (k' : Linux) : Prop :=
  ∀ p, p ∈ k'.reached ↔ p ∈ k.reached ∨ target = some p

theorem Reaches.none (k : Linux) : Reaches k none k := by
  simp [Reaches]

theorem Failure.errno_pos (e : Failure) : 0 < e.errno := by
  cases e <;> decide

theorem Linux.mkdir_target (k : Linux) (path : Bytes) (mode : Nat) :
    Reaches k (k.mkdirTarget path) (k.mkdir path mode).2 ∧
      ((k.mkdir path mode).1 = 0 ↔ (k.mkdirTarget path).isSome = true) := by
  unfold Linux.mkdir Linux.mkdirTarget
  cases k.walkPath false (removeTrailingSlashes path) with
  | found p => exact ⟨.none k, by simp [EEXIST]⟩
  | missing d a =>
    by_cases ha : validName a = true
    · simp [ha, Reaches, Linux.create, eq_comm]
    · simp [ha, Reaches.none, ENAMETOOLONG]
  | fail e =>
    have := Failure.errno_pos e
    exact ⟨.none k, by simp; omega⟩

theorem Linux.open_target (k : Linux) (path : Bytes) (flags mode : Nat) :
    Reaches k (k.openTarget path flags) (k.open path flags mode).2 ∧
      (0 ≤ (k.open path flags mode).1 ↔ (k.openTarget path flags).isSome = true) := by
  unfold Linux.open Linux.openTarget
  by_cases hslash : flags &&& O_CREAT ≠ 0 ∧ path.getLast? = some slash
  · simp only [if_pos hslash]
    exact ⟨.none k, by decide⟩
  simp only [if_neg hslash]
  cases k.walkPath true path with
  | found p =>
    dsimp only
    cases k.fs.node p with
    | none => exact ⟨.none k, by simp [ENOENT]⟩
    | some n =>
      dsimp only
      split
      · exact ⟨.none k, by simp [EISDIR]⟩
      · simp [Reaches, Linux.install, eq_comm]
  | missing d a =>
    dsimp only
    by_cases hc : flags &&& O_CREAT = 0
    · simp [hc, Reaches.none, ENOENT]
    by_cases ha : validName a = true
    · simp [hc, ha, Reaches, Linux.install, Linux.create, eq_comm]
    · simp [hc, ha, Reaches.none, ENAMETOOLONG]
  | fail e =>
    have := Failure.errno_pos e
    exact ⟨.none k, by simp; omega⟩

theorem Linux.handle_faulted (c : Call) (k : Linux) :
    (Linux.handle c k).2.faulted = k.faulted := by
  cases c <;> simp only [Linux.handle, Linux.alloc, Linux.mkdir, Linux.open, Linux.close,
    Linux.read, Linux.write, Linux.lseek, Linux.ftruncate, Linux.utime, Linux.chmod,
    Linux.unlink] <;> (repeat' split) <;> rfl

theorem Linux.run_faulted {α : Type} (p : Lkl α) (k : Linux) :
    (p.run Linux.handle k).2.faulted = k.faulted := by
  induction p generalizing k with
  | ret a => rfl
  | call c f ih => exact (ih _ _).trans (Linux.handle_faulted c k)

theorem Linux.handle_reached {c : Call} (hc : c.passive = true) (k : Linux) :
    (Linux.handle c k).2.reached = k.reached := by
  cases c
  case sysMkdir => exact Bool.noConfusion hc
  case sysOpen => exact Bool.noConfusion hc
  all_goals
    simp only [Linux.handle, Linux.alloc, Linux.close, Linux.read, Linux.write, Linux.lseek,
      Linux.ftruncate, Linux.utime, Linux.chmod, Linux.unlink]
    repeat' split
    all_goals rfl

/-- At the end, `target` was reached unless something failed, and nothing else was. -/
structure OpenPost (k : Linux) (target : Option (List Name)) (k' : Linux) : Prop where
  kept : ∀ p ∈ k.reached, p ∈ k'.reached
  only : ∀ p ∈ k'.reached, p ∈ k.reached ∨ target = some p
  done : k'.faulted = true ∨ ∀ p, target = some p → p ∈ k'.reached

theorem Reaches.post {k k' : Linux} {target : Option (List Name)} (h : Reaches k target k') :
    OpenPost k target k' :=
  ⟨fun p hp => (h p).mpr (.inl hp), fun p hp => (h p).mp hp,
    .inr fun p hp => (h p).mpr (.inr hp)⟩

theorem OpenPost.faulted {k k' : Linux} (target : Option (List Name))
    (hr : k'.reached = k.reached) (hf : k'.faulted = true) : OpenPost k target k' :=
  ⟨fun _ hp => hr ▸ hp, fun _ hp => .inl (hr ▸ hp), .inl hf⟩

theorem OpenPost.of_core {k k0 k' : Linux} {target : Option (List Name)} (hk : k.core = k0.core)
    (h : OpenPost k target k') : OpenPost k0 target k' := by
  have hr : k.reached = k0.reached :=
    show k.core.reached = k0.core.reached from congrArg Linux.reached hk
  exact ⟨hr ▸ h.kept, hr ▸ h.only, h.done⟩

section Passive

variable {α : Type} {p : Lkl α} {k k0 : Linux} {target : Option (List Name)}

theorem Linux.always_passive (hp : p.Only (fun c => c.passive = true)) :
    Linux.faulty.Always p
      (fun _ k' => k'.reached = k.reached ∧ (k.faulted = true → k'.faulted = true)) k := by
  refine Env.always_of_invariant ?_ hp ⟨rfl, id⟩
  rintro g c x g' hc ⟨hr, hf⟩ (hx | ⟨-, rfl⟩)
  · obtain ⟨-, rfl⟩ := Prod.mk.inj hx
    exact ⟨(Linux.handle_reached hc g).trans hr, fun h => (Linux.handle_faulted c g).trans (hf h)⟩
  · exact ⟨hr, fun _ => rfl⟩

theorem Linux.always_post_of_passive (hp : p.Only (fun c => c.passive = true))
    (h : OpenPost k0 target k) : Linux.faulty.Always p (fun _ => OpenPost k0 target) k := by
  refine (Linux.always_passive hp).mono ?_
  rintro _ k' ⟨hr, hf⟩
  exact ⟨hr ▸ h.kept, hr ▸ h.only, hr ▸ h.done.imp_left hf⟩

end Passive

def openFileTarget (k : Linux) (volume : LklVolume) (path : Bytes) (flags : Nat) :
    Option (List Name) :=
  if startsWith path volume.lklMountPoint then k.openTarget path flags else none

theorem openFile_always {k : Linux} (volume : LklVolume) (l : OpenLocals) (path : Bytes)
    (flags mode : Nat) : Linux.faulty.Always (openFile volume l path flags mode)
      (fun _ => OpenPost k (openFileTarget k volume path flags)) k := by
  unfold openFile openFileTarget
  by_cases hpre : startsWith path volume.lklMountPoint = true
  swap
  · rw [if_neg hpre, if_pos (by simpa using hpre)]
    exact Linux.always_post_of_passive (openDone_passive _ _ _) (Reaches.none k).post
  rw [if_pos hpre, if_neg (by simp [hpre])]
  apply Linux.always_open
  · refine Linux.always_post_of_passive ?_ (k.open_target path flags mode).1.post
    split
    · exact openDone_passive _ _ _
    · refine (lklAllocateIFile_passive _ _).bind fun r => ?_
      dsimp only
      split <;> exact openDone_passive _ _ _
  · intro fd hfd
    rw [if_pos hfd]
    exact Linux.always_post_of_passive (openDone_passive _ _ _) (.faulted _ rfl rfl)

theorem removeTrailingSlashes_eq_self {s : Bytes} (h : s.getLast? ≠ some slash) :
    removeTrailingSlashes s = s := by
  cases s with
  | nil => rfl
  | cons c s =>
    rcases List.eq_nil_or_concat' s with rfl | ⟨t, x, rfl⟩
    · rfl
    · rw [removeTrailingSlashes, List.rdropWhile_concat_neg]
      rw [← List.cons_append, List.getLast?_concat] at h
      simpa using h

section CreateName

variable {k : Linux} {q : List Name} {base : Name}

theorem createName_getLast {abs : Bytes} (hb : slash ∉ base) (hne : base ≠ []) :
    (createName abs base).getLast? ≠ some slash := by
  obtain ⟨s, x, rfl⟩ := (List.eq_nil_or_concat' base).resolve_left hne
  rw [createName, ← List.cons_append, ← List.append_assoc, List.getLast?_concat]
  intro hx
  exact hb (by simp [Option.some.inj hx])

theorem Linux.walkPath_createName (f : Bool) (hq : k.fs.tree.Canonical q) (hb : slash ∉ base) :
    k.walkPath f (createName (render q) base) =
      if 4096 ≤ (createName (render q) base).length then .fail .tooLong
      else walk k.fs.tree ⟨true, f⟩ .unlimited 40 q [base] := by
  have hcomp : components (createName (render q) base) = components (render q) ++ [base] := by
    rw [createName, components_append_slash, components_of_not_mem hb]
  rw [Linux.walkPath, if_neg (by simp [createName]), hcomp, walk_render [base] hq fun _ _ _ => rfl]

theorem isDir_dropLast {F : FsTree} (h : F.tree.isDir q = true) :
    F.tree.isDir q.dropLast = true := by
  rw [F.tree.isDir_iff] at h ⊢
  rcases List.eq_nil_or_concat' q with rfl | ⟨p, a, rfl⟩
  · exact h
  · rw [List.dropLast_concat]
    exact F.tree.parent p a (by rw [h]; simp)

theorem Linux.mkdirTarget_createName (hq : k.fs.tree.Canonical q) (hb : slash ∉ base)
    (hne : base ≠ []) (p : List Name) :
    k.mkdirTarget (createName (render q) base) = some p ↔
      p = q ++ [base] ∧ k.fs.tree.isDir q = true ∧ k.fs.node (q ++ [base]) = none ∧
        validName base = true ∧ (createName (render q) base).length < 4096 := by
  rw [Linux.mkdirTarget, removeTrailingSlashes_eq_self (createName_getLast hb hne),
    Linux.walkPath_createName false hq hb]
  by_cases hlen : 4096 ≤ (createName (render q) base).length
  · simp [hlen, Nat.not_lt.mpr hlen]
  rw [if_neg hlen]
  by_cases hd : k.fs.tree.isDir q = true
  swap
  · rw [walk_notDir (m := ⟨true, false⟩) rfl (Bool.eq_false_iff.mpr hd)]
    simp [hd]
  cases hk : PathName.kind base with
  | here => simp [walk_here (fun _ => hd) hk, validName, hk]
  | up => simp [walk_up (fun _ => hd) hk, validName, hk]
  | name =>
    rw [walk_name (fun _ => hd) hk]
    cases hn : k.fs.node (q ++ [base]) with
    | some n => cases n <;> simp [hn, Limits.unlimited, FsNode.entry]
    | none =>
      by_cases hv : validName base = true
      · simp [hn, Limits.unlimited, hv, hd, Nat.not_le.mp hlen, eq_comm]
      · simp [hn, Limits.unlimited, hv]

theorem FsTree.insert_node {F : FsTree} {n : FsNode} (hd : F.tree.isDir q = true)
    (hn : F.node (q ++ [base]) = none) (hv : validName base = true) (hnv : n.valid = true) :
    (F.insert q base n).node = Function.update F.node (q ++ [base]) (some n) := by
  rw [FsTree.insert, dif_pos ⟨hd, hn, hv, hnv⟩]

theorem Linux.mkdir_createName (hq : k.fs.tree.Canonical q) (hb : slash ∉ base)
    (hne : base ≠ []) {p : List Name} (mode : Nat)
    (hp : k.mkdirTarget (createName (render q) base) = some p) :
    k.mkdir (createName (render q) base) mode = (0, k.create q base true mode) := by
  obtain ⟨rfl, hd, hn, hv, hlen⟩ := (Linux.mkdirTarget_createName hq hb hne p).mp hp
  have hk : PathName.kind base = .name := by simp_all [validName]
  have hw := Linux.walkPath_createName (k := k) false hq hb
  rw [if_neg (Nat.not_le.mpr hlen), walk_name (fun _ => hd) hk] at hw
  simp only [Limits.unlimited, FsTree.tree_entry, hn] at hw
  simp only [Linux.mkdir, removeTrailingSlashes_eq_self (createName_getLast hb hne), hw]
  simp [hv]

theorem Linux.openTarget_after_mkdir (hq : k.fs.tree.Canonical q) (hb : slash ∉ base)
    (hne : base ≠ []) {p : List Name} (mode : Nat)
    (hp : k.mkdirTarget (createName (render q) base) = some p) :
    (k.mkdir (createName (render q) base) mode).2.openTarget (createName (render q) base)
      O_RDONLY = some p := by
  have hmk := congrArg Prod.snd (Linux.mkdir_createName hq hb hne mode hp)
  obtain ⟨rfl, hd, hn, hv, hlen⟩ := (Linux.mkdirTarget_createName hq hb hne p).mp hp
  have hk : PathName.kind base = .name := by simp_all [validName]
  have hnode : (k.create q base true mode).fs.node =
      Function.update k.fs.node (q ++ [base]) (some (.dir k.nextIno)) :=
    FsTree.insert_node hd hn hv rfl
  have hq0 : q ≠ q ++ [base] := by simp
  have hd' : (k.create q base true mode).fs.tree.isDir q = true := by
    rw [PathTree.isDir_iff, FsTree.tree_entry, hnode, Function.update_of_ne hq0] at *
    exact hd
  have hq' : (k.create q base true mode).fs.tree.Canonical q :=
    PathTree.canonical_of_dir ((PathTree.isDir_iff _ _).mp hd') hq.names
  have hw : (k.create q base true mode).walkPath true (createName (render q) base) =
      .found (q ++ [base]) := by
    rw [Linux.walkPath_createName true hq' hb, if_neg (Nat.not_le.mpr hlen),
      walk_name (fun _ => hd') hk]
    simp [Limits.unlimited, hnode, FsNode.entry]
  simp [hmk, Linux.openTarget, hw, hnode, O_RDONLY, O_CREAT]

end CreateName

def openCreateTarget (k : Linux) (volume : LklVolume) (path : Bytes) (flags : Nat)
    (attributes : UInt64) : Option (List Name) :=
  if attributes &&& EFI_FILE_DIRECTORY ≠ 0 then k.mkdirTarget path
  else openFileTarget k volume path flags

theorem openCreate_always {k : Linux} {q : List Name} {base : Name}
    (hq : k.fs.tree.Canonical q) (hb : slash ∉ base) (hne : base ≠ []) (volume : LklVolume)
    (l : OpenLocals) (flags mode : Nat) (attributes : UInt64) :
    Linux.faulty.Always (openCreate volume l (render q) base flags mode attributes)
      (fun _ => OpenPost k
        (openCreateTarget k volume (createName (render q) base) flags attributes)) k := by
  unfold openCreate
  apply Linux.always_allocatePool
  swap
  · exact Linux.always_post_of_passive (openDone_passive _ _ _) (.faulted _ rfl rfl)
  have hfree : Linux.faulty.Always (freeUnlessNull l.absFilePath)
      (fun _ k' => k' = k.alloc.2) k.alloc.2 := by
    cases l.absFilePath with
    | none => rfl
    | some p => exact Linux.always_freePool.mpr rfl
  dsimp only
  rw [Env.always_bind]
  refine hfree.mono ?_
  rintro _ _ rfl
  refine Env.Always.mono ?_ fun _ _ => OpenPost.of_core (k := k.alloc.2) rfl
  unfold openCreateTarget
  by_cases hdir : attributes &&& EFI_FILE_DIRECTORY ≠ 0
  swap
  · rw [if_neg hdir, if_neg hdir]
    exact openFile_always _ _ _ _ _
  rw [if_pos hdir, if_pos hdir]
  obtain ⟨hreach, hrc⟩ := k.alloc.2.mkdir_target (createName (render q) base) mode
  apply Linux.always_mkdir
  · by_cases hok : (k.alloc.2.mkdir (createName (render q) base) mode).1 = 0
    · rw [if_neg (not_not.mpr hok)]
      obtain ⟨p, hp⟩ := Option.isSome_iff_exists.mp (hrc.mp hok)
      have hafter := Linux.openTarget_after_mkdir (k := k.alloc.2) hq hb hne mode hp
      refine (openFile_always _ _ _ _ _).mono fun _ k' hpost => ?_
      have hmade : ∀ p', k.mkdirTarget (createName (render q) base) = some p' → p' ∈ k'.reached :=
        fun p' hp' => hpost.kept p' ((hreach p').mpr (.inr hp'))
      refine ⟨fun p' hp' => hpost.kept p' ((hreach p').mpr (.inl hp')), fun p' hp' => ?_,
        .inr hmade⟩
      rcases hpost.only p' hp' with h | h
      · exact (hreach p').mp h
      · unfold openFileTarget at h
        split at h
        · exact .inr (hp.trans (hafter.symm.trans h))
        · cases h
    · rw [if_pos hok]
      exact Linux.always_post_of_passive (openDone_passive _ _ _) hreach.post
  · intro rc hfail
    rw [if_pos (by omega)]
    exact Linux.always_post_of_passive (openDone_passive _ _ _) (.faulted _ rfl rfl)

theorem removeTrailingSlashes_getLast {s : Bytes}
    (h : (removeTrailingSlashes s).getLast? = some slash) : removeTrailingSlashes s = [slash] := by
  cases s with
  | nil => cases h
  | cons c s =>
    rw [removeTrailingSlashes] at h ⊢
    rcases List.eq_nil_or_concat' (s.rdropWhile (· == slash)) with ht | ⟨t, x, ht⟩
    · rw [ht] at h ⊢
      have hc : c = slash := by simpa using h
      rw [hc]
    · have hx := List.rdropWhile_last_not (· == slash) s (by rw [ht]; simp)
      rw [ht, ← List.cons_append, List.getLast?_concat] at h
      simp [ht, Option.some.inj h] at hx

theorem basenameFrom_le (s : Bytes) (i : Nat) : basenameFrom s i ≤ i := by
  induction i with
  | zero => exact Nat.le_refl 0
  | succ i ih =>
    unfold basenameFrom
    split
    · exact Nat.le_refl _
    · omega

theorem basenameFrom_no_slash (s : Bytes) (i : Nat) :
    ∀ j, basenameFrom s i ≤ j → j < i → s[j]? ≠ some slash := by
  induction i with
  | zero =>
    intro j _ hj
    omega
  | succ i ih =>
    intro j hlo hhi
    unfold basenameFrom at hlo
    split at hlo
    · omega
    · by_cases hji : j = i
      · rwa [hji]
      · exact ih j hlo (by omega)

theorem slash_not_mem_base {s : Bytes} (h : s.getLast? ≠ some slash) :
    slash ∉ s.drop (getBasenamePtr s) := by
  intro hmem
  obtain ⟨j, hj⟩ := List.mem_iff_getElem?.mp hmem
  rw [List.getElem?_drop] at hj
  have hlt := (List.getElem?_eq_some_iff.mp hj).1
  by_cases hlast : getBasenamePtr s + j = s.length - 1
  · rw [List.getLast?_eq_getElem?, ← hlast] at h
    exact h hj
  · exact basenameFrom_no_slash s (s.length - 1) (getBasenamePtr s + j) (Nat.le_add_right _ _)
      (by omega) hj

/-- The mount point of a volume is the directory `m`, below the root. -/
structure Mounted (F : FsTree) (volume : LklVolume) (m : List Name) : Prop where
  point : volume.lklMountPoint.val = render m
  below : m ≠ []
  dir : F.tree.isDir m = true

theorem FsTree.canonical_of_isDir (F : FsTree) {p : List Name} (h : F.tree.isDir p = true) :
    F.tree.Canonical p := by
  have hd := (F.tree.isDir_iff p).mp h
  refine PathTree.canonical_of_dir hd fun a ha => ?_
  have hv := F.validName_of_mem (p := p) (by
    intro hn
    simp [hn] at hd) ha
  simp_all [validName]

theorem Mounted.canonical {F : FsTree} {volume : LklVolume} {m : List Name}
    (h : Mounted F volume m) : F.tree.Canonical m :=
  F.canonical_of_isDir h.dir

theorem nul_not_mem_openAscii (fileName : List UInt16) : 0 ∉ openAscii fileName := by
  simp only [openAscii, pathToUnixAscii, List.mem_map, not_exists, not_and]
  intro c hc
  split
  · decide
  · rintro rfl
    exact nul_not_mem_cString _ hc

theorem nul_not_mem_openPath (parent : LklIfile) (fileName : List UInt16) :
    0 ∉ openPath parent fileName := by
  have hm := parent.volume.lklMountPoint.property
  have hf := parent.filePath.property
  have ha := nul_not_mem_openAscii fileName
  unfold openPath
  dsimp only
  split
  · simp [hm, ha]
  · simp [hm, hf, ha, slash]

theorem removeTrailingSlashes_begins (s : Bytes) : removeTrailingSlashes s <+: s := by
  cases s with
  | nil => exact List.prefix_refl _
  | cons c s => exact (List.prefix_cons_inj c).mpr (List.rdropWhile_prefix _ _)

theorem nul_not_mem_splitBase {path : Bytes} (h : 0 ∉ path) : 0 ∉ (splitBase path).1 := by
  intro h0
  refine h ((removeTrailingSlashes_begins path).subset ?_)
  unfold splitBase at h0
  dsimp only at h0
  split at h0
  · exact h0
  · exact List.take_subset _ _ h0

/-- The base name is a name: the mount point keeps the path from being a lone slash. -/
theorem slash_not_mem_splitBase {F : FsTree} {parent : LklIfile} {m : List Name}
    (hm : Mounted F parent.volume m) (fileName : List UInt16) :
    slash ∉ (splitBase (openPath parent fileName)).2 := by
  refine slash_not_mem_base fun hlast => ?_
  have hone := removeTrailingSlashes_getLast hlast
  obtain ⟨a, m', rfl⟩ := List.exists_cons_of_ne_nil hm.below
  obtain ⟨hsl, hne⟩ := F.plain_of_canonical hm.canonical a (by simp)
  obtain ⟨x, a', rfl⟩ := List.exists_cons_of_ne_nil hne
  have hx : x ≠ slash := fun hx => hsl (by simp [hx])
  have hpath : ∃ t, openPath parent fileName = slash :: x :: t := by
    unfold openPath
    rw [hm.point, render_of_ne (by simp), joined_cons]
    dsimp only
    split <;> exact ⟨_, rfl⟩
  obtain ⟨t, ht⟩ := hpath
  rw [ht, removeTrailingSlashes, List.cons.injEq] at hone
  have hall := List.rdropWhile_eq_nil_iff.mp hone.2 x (by simp)
  exact hx (by simpa using hall)

def lklOpenTarget (k : Linux) (parent : LklIfile) (fileName : Option (List UInt16))
    (openMode attributes : UInt64) : Option (List Name) :=
  match fileName with
  | none => none
  | some fileName =>
  match openFlags parent.volume.readOnly openMode attributes with
  | .error _ => none
  | .ok (flags, _) =>
    if createMode openMode then
      if (splitBase (openPath parent fileName)).2 = [] then none
      else (realPathResult k.fs (splitBase (openPath parent fileName)).1).bind fun q =>
        openCreateTarget k parent.volume
          (createName (render q) (splitBase (openPath parent fileName)).2) flags attributes
    else (realPathResult k.fs (openPath parent fileName)).bind fun q =>
      openFileTarget k parent.volume (render q) flags

theorem OpenPost.unchanged {k k0 : Linux} (hk : k.core = k0.core) : OpenPost k0 none k :=
  (Reaches.none k).post.of_core hk

theorem openFileTarget_of_core {k k0 : Linux} (hk : k.core = k0.core) {volume : LklVolume}
    {path : Bytes} {flags : Nat} :
    openFileTarget k volume path flags = openFileTarget k0 volume path flags := by
  show openFileTarget k.core volume path flags = openFileTarget k0.core volume path flags
  rw [hk]

theorem openCreateTarget_of_core {k k0 : Linux} (hk : k.core = k0.core) {volume : LklVolume}
    {path : Bytes} {flags : Nat} {attributes : UInt64} :
    openCreateTarget k volume path flags attributes =
      openCreateTarget k0 volume path flags attributes := by
  show openCreateTarget k.core volume path flags attributes =
    openCreateTarget k0.core volume path flags attributes
  rw [hk]

theorem always_realPath_cases {α : Type} {k : Linux} {name : Bytes} (h0 : 0 ∉ name)
    {f : Option (Ptr × Bytes) → Lkl α} {Q : α → Linux → Prop}
    (hfault : ∀ k' : Linux, k'.core = k.core → k'.faulted = true →
      Linux.faulty.Always (f none) Q k')
    (hnone : ∀ k' : Linux, k'.core = k.core → realPathResult k.fs name = none →
      Linux.faulty.Always (f none) Q k')
    (hsome : ∀ (k' : Linux) ptr q, k'.core = k.core → realPathResult k.fs name = some q →
      Linux.faulty.Always (f (some (ptr, render q))) Q k') :
    Linux.faulty.Always (realPath (some name) none >>= f) Q k := by
  refine Env.always_bind.mpr ((realPath_always_result k h0).mono ?_)
  rintro r k' ⟨hcore, hr⟩
  rcases hr with ⟨hbad, rfl⟩ | hr
  · exact hfault k' hcore hbad
  cases hq : realPathResult k.fs name with
  | none =>
    rw [hq, Option.map_none, Option.map_eq_none_iff] at hr
    rw [hr]
    exact hnone k' hcore hq
  | some q =>
    rw [hq, Option.map_some, Option.map_eq_some_iff] at hr
    obtain ⟨⟨ptr, _⟩, rfl, rfl⟩ := hr
    exact hsome k' ptr q hcore hq

theorem always_realPath_bind {α : Type} {k k0 : Linux} (hk : k.core = k0.core) {name : Bytes}
    (h0 : 0 ∉ name) {f : Option (Ptr × Bytes) → Lkl α} {t : List Name → Option (List Name)}
    (hnone : (f none).Only (fun c => c.passive = true))
    (hsome : ∀ k' ptr q, k'.core = k0.core → realPathResult k0.fs name = some q →
      Linux.faulty.Always (f (some (ptr, render q))) (fun _ => OpenPost k0 (t q)) k') :
    Linux.faulty.Always (realPath (some name) none >>= f)
      (fun _ => OpenPost k0 ((realPathResult k0.fs name).bind t)) k := by
  have hfs : realPathResult k.fs name = realPathResult k0.fs name := by
    rw [Linux.fs_eq_of_core hk]
  refine always_realPath_cases h0 ?_ ?_ ?_
  · intro k' hcore hbad
    have hreached : k'.reached = k0.reached :=
      show k'.core.reached = k0.core.reached from congrArg Linux.reached (hcore.trans hk)
    exact Linux.always_post_of_passive hnone (.faulted _ hreached hbad)
  · intro k' hcore hq
    rw [← hfs, hq]
    exact Linux.always_post_of_passive hnone (.unchanged (hcore.trans hk))
  · intro k' ptr q hcore hq
    rw [← hfs, hq]
    exact hsome k' ptr q (hcore.trans hk) (hfs ▸ hq)

theorem lklOpen_always {k : Linux} {m : List Name} {parent : LklIfile}
    (hm : Mounted k.fs parent.volume m) (fileName : Option (List UInt16))
    (openMode attributes : UInt64) :
    Linux.faulty.Always (lklOpen parent fileName openMode attributes)
      (fun _ => OpenPost k (lklOpenTarget k parent fileName openMode attributes)) k := by
  unfold lklOpen lklOpenTarget
  cases fileName with
  | none => exact (Reaches.none k).post
  | some fileName =>
  dsimp only
  rcases hflags : openFlags parent.volume.readOnly openMode attributes with status | ⟨flags, mode⟩
  · exact (Reaches.none k).post
  dsimp only
  apply Linux.always_allocatePool
  swap
  · exact Linux.always_post_of_passive (openDone_passive _ _ _) (.faulted _ rfl rfl)
  apply Linux.always_allocatePool
  swap
  · exact Linux.always_post_of_passive (openDone_passive _ _ _) (.faulted _ rfl rfl)
  dsimp only
  have h0 := nul_not_mem_openPath parent fileName
  have hcore : k.alloc.2.alloc.2.core = k.core := rfl
  by_cases hcreate : createMode openMode = true
  · rw [if_pos hcreate, if_pos hcreate]
    by_cases hbase : (splitBase (openPath parent fileName)).2 = []
    · rw [if_pos hbase, if_pos hbase]
      exact Linux.always_post_of_passive (openDone_passive _ _ _) (.unchanged rfl)
    rw [if_neg hbase, if_neg hbase, Linux.always_touch]
    refine always_realPath_bind hcore (nul_not_mem_splitBase h0) ?_ ?_
    · exact openDone_passive _ _ _
    intro k' ptr q hk' hq
    have hcanon := realPathResult_canonical hq
    rw [← Linux.fs_eq_of_core hk'] at hcanon
    refine (openCreate_always hcanon (slash_not_mem_splitBase hm fileName) hbase _ _ _ _ _).mono
      fun _ k'' hpost => ?_
    rw [openCreateTarget_of_core hk'] at hpost
    exact hpost.of_core hk'
  · rw [if_neg hcreate, if_neg hcreate]
    refine always_realPath_bind hcore h0 ?_ ?_
    · exact openDone_passive _ _ _
    intro k' ptr q hk' hq
    refine (openFile_always _ _ _ _ _).mono fun _ k'' hpost => ?_
    rw [openFileTarget_of_core hk'] at hpost
    exact hpost.of_core hk'

/-- `p` is the mount point or lies below it. -/
def Confined (mountPoint : Bytes) (p : List Name) : Prop :=
  render p = mountPoint ∨ mountPoint ++ [slash] <+: render p

theorem confined_iff {m p : List Name} (hne : m ≠ []) (hm : Plain m) (hp : Plain p) :
    Confined (render m) p ↔ m <+: p := by
  have hms : ∀ a ∈ m, slash ∉ a := fun a ha => (hm a ha).1
  have hps : ∀ a ∈ p, slash ∉ a := fun a ha => (hp a ha).1
  rw [Confined, render_of_ne hne]
  constructor
  · intro h
    by_cases hpn : p = []
    · -- the root is a single byte, and the mount point is longer
      obtain ⟨a, m', rfl⟩ := List.exists_cons_of_ne_nil hne
      have ha := (hm a (by simp)).2
      rw [hpn, render_nil, joined_cons] at h
      rcases h with h | h
      · simp [ha] at h
      · simpa using h.length_le
    rw [render_of_ne hpn] at h
    rcases h with h | ⟨t, h⟩
    · have hc := congrArg components h
      rw [components_joined hps, components_joined hms, List.cons.injEq] at hc
      rw [hc.2]
    · have hc := congrArg components h
      rw [components_joined hps, List.append_assoc, List.singleton_append,
        components_append_slash, components_joined hms, List.cons_append, List.cons.injEq] at hc
      exact ⟨_, hc.2⟩
  · rintro ⟨s, rfl⟩
    rw [render_of_ne (by simp [hne]), joined_append]
    cases s with
    | nil => exact .inl (List.append_nil _)
    | cons a s =>
      exact .inr ⟨a ++ joined s, by simp [joined_cons]⟩

instance (mountPoint : Bytes) (p : List Name) : Decidable (Confined mountPoint p) :=
  inferInstanceAs (Decidable (_ ∨ _))

/-- A directory is made under a new name, its parent `q` being outside of `m`. -/
structure MakesDirectoryOutside (F : FsTree) (m q : List Name) (base : Name) : Prop where
  dir : F.tree.isDir q = true
  outside : ¬m <+: q
  free : F.node (q ++ [base]) = none
  valid : validName base = true
  short : (createName (render q) base).length < 4096

/-- The name `base` in `q`, with a link followed, is a file or a free name at `p`. -/
def LeadsTo (F : FsTree) (q : List Name) (base : Name) (p : List Name) : Prop :=
  (walk F.tree ⟨true, true⟩ .unlimited 40 q [base] = .found p ∧ F.tree.isDir p = false) ∨
    ∃ d a, walk F.tree ⟨true, true⟩ .unlimited 40 q [base] = .missing d a ∧
      validName a = true ∧ p = d ++ [a]

/-- The text of the new path begins like the mount point, but it leads out of it. -/
structure CreatesFileOutside (F : FsTree) (m q : List Name) (base : Name) (p : List Name) :
    Prop where
  begins : render m <+: createName (render q) base
  short : (createName (render q) base).length < 4096
  leads : LeadsTo F q base p
  outside : ¬m <+: p

/-- The text of the canonical path begins like the mount point, but it is beside it. -/
structure OpensBeside (F : FsTree) (m q : List Name) (write : Bool) : Prop where
  begins : render m <+: render q
  outside : ¬m <+: q
  file : write = true → F.tree.isDir q = false

/-- The accepted requests that get out of the volume, by the three ways there are. -/
def Escapes (F : FsTree) (m : List Name) (parent : LklIfile) (fileName : Option (List UInt16))
    (openMode attributes : UInt64) : Prop :=
  ∃ name r q, fileName = some name ∧
    openFlags parent.volume.readOnly openMode attributes = .ok r ∧
    if createMode openMode then
      realPathResult F (splitBase (openPath parent name)).1 = some q ∧
        if attributes &&& EFI_FILE_DIRECTORY ≠ 0 then
          MakesDirectoryOutside F m q (splitBase (openPath parent name)).2
        else ∃ p, CreatesFileOutside F m q (splitBase (openPath parent name)).2 p
    else
      realPathResult F (openPath parent name) = some q ∧
        OpensBeside F m q (writeMode openMode)

section Targets

variable {k : Linux} {q : List Name} {base : Name} {openMode : UInt64}

theorem PathTree.Canonical.node_isSome (hq : k.fs.tree.Canonical q) :
    ∃ n, k.fs.node q = some n := by
  obtain ⟨e, he, -⟩ := hq.object
  cases hn : k.fs.node q with
  | none => simp [hn] at he
  | some n => exact ⟨n, rfl⟩

theorem Linux.openTarget_createName (hq : k.fs.tree.Canonical q) (hb : slash ∉ base)
    (hne : base ≠ []) (hv : validMode openMode = true) (hc : createMode openMode = true)
    (p : List Name) :
    k.openTarget (createName (render q) base) (accessFlags openMode) = some p ↔
      (createName (render q) base).length < 4096 ∧ LeadsTo k.fs q base p := by
  have hcreat := (accessFlags_valid hv).1.mpr hc
  rw [Linux.openTarget, if_neg fun h => createName_getLast hb hne h.2,
    Linux.walkPath_createName true hq hb]
  by_cases hlen : 4096 ≤ (createName (render q) base).length
  · simp [hlen, Nat.not_lt.mpr hlen]
  rw [if_neg hlen]
  unfold LeadsTo
  have hsound : (walk k.fs.tree ⟨true, true⟩ .unlimited 40 q [base]).Sound k.fs.tree ⟨true, true⟩ :=
    walk_sound rfl 40 q [base] hq
  cases hw : walk k.fs.tree ⟨true, true⟩ .unlimited 40 q [base] with
  | fail e => simp
  | missing d a =>
    by_cases ha : validName a = true
    · simp only [hcreat, ha, Nat.not_le.mp hlen, not_false_eq_true, ne_eq, and_self, if_true,
        Option.some.injEq, Outcome.missing.injEq, reduceCtorEq, false_and, false_or, true_and]
      constructor
      · rintro rfl
        exact ⟨d, a, ⟨rfl, rfl⟩, ha, rfl⟩
      · rintro ⟨_, _, ⟨rfl, rfl⟩, -, rfl⟩
        rfl
    · simp [ha]
  | found q' =>
    rw [hw] at hsound
    obtain ⟨n, hn⟩ := PathTree.Canonical.node_isSome hsound
    have hdir : n.entry = .dir ↔ k.fs.tree.isDir q' = true := by
      simp [PathTree.isDir_iff, hn]
    by_cases hd : k.fs.tree.isDir q' = true
    · simp [hn, hdir, hd, hcreat]
      rintro _ rfl
      simp [hd]
    · simp [hn, hdir, hd, Nat.not_le.mp hlen]
      rintro rfl
      simpa using hd

theorem Linux.walkPath_render (hq : k.fs.tree.Canonical q) (hlen : (render q).length < 4096) :
    k.walkPath true (render q) = .found q := by
  rw [Linux.walkPath, if_neg (by cases q <;> simp [render, joined_cons]),
    if_neg (Nat.not_le.mpr hlen), walk_render_self hq fun _ _ _ => rfl]

theorem Linux.openTarget_render (hq : k.fs.tree.Canonical q) (hlen : (render q).length < 4096)
    (hv : validMode openMode = true) (hc : createMode openMode = false) (p : List Name) :
    k.openTarget (render q) (accessFlags openMode) = some p ↔
      p = q ∧ (writeMode openMode = true → k.fs.tree.isDir q = false) := by
  have hcreat : ¬accessFlags openMode &&& O_CREAT ≠ 0 := by
    rw [(accessFlags_valid hv).1, hc]
    exact Bool.false_ne_true
  have hw := Linux.walkPath_render hq hlen
  obtain ⟨n, hn⟩ := PathTree.Canonical.node_isSome hq
  have hdir : n.entry = .dir ↔ k.fs.tree.isDir q = true := by
    simp [PathTree.isDir_iff, hn]
  rw [Linux.openTarget, if_neg fun h => hcreat h.1, hw]
  simp only [hn, hdir, hcreat, false_or, (accessFlags_valid hv).2]
  cases hwm : writeMode openMode <;> cases hd : k.fs.tree.isDir q <;> simp [eq_comm]

end Targets

theorem LeadsTo.plain {F : FsTree} {q p : List Name} {base : Name} (hq : F.tree.Canonical q)
    (h : LeadsTo F q base p) : Plain p := by
  have hsound : (walk F.tree ⟨true, true⟩ .unlimited 40 q [base]).Sound F.tree ⟨true, true⟩ :=
    walk_sound rfl 40 q [base] hq
  rcases h with ⟨hw, -⟩ | ⟨d, a, hw, ha, rfl⟩
  · rw [hw] at hsound
    exact F.plain_of_canonical hsound
  · rw [hw] at hsound
    exact F.plain_snoc hsound.1 hsound.2.1 (slash_of_validName ha)

/-- What a creating open reaches lies outside just in the cases of `Escapes`. -/
theorem openCreateTarget_outside {k : Linux} {m q : List Name} {base : Name} {volume : LklVolume}
    {openMode attributes : UInt64} (hm : Mounted k.fs volume m) (hq : k.fs.tree.Canonical q)
    (hb : slash ∉ base) (hne : base ≠ []) (hv : validMode openMode = true)
    (hc : createMode openMode = true) :
    (∃ p, openCreateTarget k volume (createName (render q) base) (accessFlags openMode)
        attributes = some p ∧ ¬m <+: p) ↔
      if attributes &&& EFI_FILE_DIRECTORY ≠ 0 then MakesDirectoryOutside k.fs m q base
      else ∃ p, CreatesFileOutside k.fs m q base p := by
  unfold openCreateTarget
  by_cases hd : attributes &&& EFI_FILE_DIRECTORY ≠ 0
  · simp only [if_pos hd, Linux.mkdirTarget_createName hq hb hne]
    constructor
    · rintro ⟨_, ⟨rfl, hdir, hfree, hvalid, hshort⟩, hout⟩
      exact ⟨hdir, fun h => hout (h.trans (List.prefix_append _ _)), hfree, hvalid, hshort⟩
    · rintro ⟨hdir, hout, hfree, hvalid, hshort⟩
      refine ⟨_, ⟨rfl, hdir, hfree, hvalid, hshort⟩, fun h => ?_⟩
      rcases List.prefix_concat_iff.mp h with rfl | h
      · -- the mount point exists already
        have hmd := (k.fs.tree.isDir_iff _).mp hm.dir
        simp [hfree] at hmd
      · exact hout h
  · simp only [if_neg hd, openFileTarget, startsWith_iff, hm.point]
    constructor
    · rintro ⟨p, hp, hout⟩
      split at hp
      · rename_i hpre
        obtain ⟨hshort, hleads⟩ := (Linux.openTarget_createName hq hb hne hv hc p).mp hp
        exact ⟨p, hpre, hshort, hleads, hout⟩
      · cases hp
    · rintro ⟨p, hpre, hshort, hleads, hout⟩
      refine ⟨p, ?_, hout⟩
      rw [if_pos hpre, Linux.openTarget_createName hq hb hne hv hc]
      exact ⟨hshort, hleads⟩

theorem splitBase_ne_nil {F : FsTree} {parent : LklIfile} {m : List Name}
    (hm : Mounted F parent.volume m) (fileName : List UInt16) :
    (splitBase (openPath parent fileName)).2 ≠ [] := by
  have hne : removeTrailingSlashes (openPath parent fileName) ≠ [] := by
    have hpath : openPath parent fileName ≠ [] := by
      unfold openPath
      rw [hm.point, render_of_ne hm.below]
      obtain ⟨a, m', rfl⟩ := List.exists_cons_of_ne_nil hm.below
      dsimp only
      split <;> simp [joined_cons]
    cases h : openPath parent fileName with
    | nil => exact absurd h hpath
    | cons c s => simp [removeTrailingSlashes]
  have hlen := List.length_pos_iff.mpr hne
  have hle := basenameFrom_le (removeTrailingSlashes (openPath parent fileName))
    ((removeTrailingSlashes (openPath parent fileName)).length - 1)
  intro h
  rw [splitBase, List.drop_eq_nil_iff, getBasenamePtr] at h
  omega

theorem openFileTarget_render {k : Linux} {m q : List Name} {volume : LklVolume}
    {openMode : UInt64} (hm : Mounted k.fs volume m) (hq : k.fs.tree.Canonical q)
    (hlen : (render q).length < 4096) (hv : validMode openMode = true)
    (hc : createMode openMode = false) (p : List Name) :
    openFileTarget k volume (render q) (accessFlags openMode) = some p ↔
      render m <+: render q ∧ p = q ∧ (writeMode openMode = true → k.fs.tree.isDir q = false) := by
  rw [openFileTarget, hm.point, ← startsWith_iff]
  by_cases hpre : startsWith (render q) (render m) = true
  · rw [if_pos hpre, Linux.openTarget_render hq hlen hv hc, and_iff_right hpre]
  · simp [hpre]

theorem lklOpenTarget_outside_iff {k : Linux} {m : List Name} {parent : LklIfile}
    (hm : Mounted k.fs parent.volume m) (fileName : Option (List UInt16))
    (openMode attributes : UInt64) :
    (∃ p, lklOpenTarget k parent fileName openMode attributes = some p ∧ ¬m <+: p) ↔
      Escapes k.fs m parent fileName openMode attributes := by
  unfold lklOpenTarget Escapes
  cases fileName with
  | none => simp
  | some name =>
  cases hflags : openFlags parent.volume.readOnly openMode attributes with
  | error status => simp
  | ok r =>
  obtain ⟨hv, hr⟩ := openFlags_ok hflags
  simp only [hr, Option.some.injEq, Except.ok.injEq, exists_and_left, exists_eq_left']
  by_cases hc : createMode openMode = true
  · simp only [if_pos hc, if_neg (splitBase_ne_nil hm name), Option.bind_eq_some_iff]
    constructor
    · rintro ⟨p, ⟨q, hq, hp⟩, hout⟩
      exact ⟨q, hq, (openCreateTarget_outside hm (realPathResult_canonical hq)
        (slash_not_mem_splitBase hm name) (splitBase_ne_nil hm name) hv hc).mp ⟨p, hp, hout⟩⟩
    · rintro ⟨q, hq, h⟩
      obtain ⟨p, hp, hout⟩ := (openCreateTarget_outside hm (realPathResult_canonical hq)
        (slash_not_mem_splitBase hm name) (splitBase_ne_nil hm name) hv hc).mpr h
      exact ⟨p, ⟨q, hq, hp⟩, hout⟩
  · simp only [if_neg hc, Option.bind_eq_some_iff]
    rw [Bool.not_eq_true] at hc
    constructor
    · rintro ⟨p, ⟨q, hq, hp⟩, hout⟩
      obtain ⟨hpre, rfl, hfile⟩ := (openFileTarget_render hm (realPathResult_canonical hq)
        (realPathResult_length hq) hv hc p).mp hp
      exact ⟨p, hq, hpre, hout, hfile⟩
    · rintro ⟨q, hq, hpre, hout, hfile⟩
      exact ⟨q, ⟨q, hq, (openFileTarget_render hm (realPathResult_canonical hq)
        (realPathResult_length hq) hv hc q).mpr ⟨hpre, rfl, hfile⟩⟩, hout⟩

theorem lklOpenTarget_plain {k : Linux} {m : List Name} {parent : LklIfile}
    (hm : Mounted k.fs parent.volume m) (fileName : Option (List UInt16))
    (openMode attributes : UInt64) {p : List Name}
    (hp : lklOpenTarget k parent fileName openMode attributes = some p) : Plain p := by
  unfold lklOpenTarget at hp
  cases fileName with
  | none => cases hp
  | some name =>
  cases hflags : openFlags parent.volume.readOnly openMode attributes with
  | error status => simp [hflags] at hp
  | ok r =>
  obtain ⟨hv, hr⟩ := openFlags_ok hflags
  simp only [hflags, hr] at hp
  by_cases hc : createMode openMode = true
  · simp only [if_pos hc, if_neg (splitBase_ne_nil hm name), Option.bind_eq_some_iff] at hp
    obtain ⟨q, hq, hp⟩ := hp
    have hcanon := realPathResult_canonical hq
    have hb := slash_not_mem_splitBase hm name
    unfold openCreateTarget openFileTarget at hp
    split at hp
    · obtain ⟨rfl, -, -, hvalid, -⟩ :=
        (Linux.mkdirTarget_createName hcanon hb (splitBase_ne_nil hm name) p).mp hp
      exact k.fs.plain_snoc hcanon (by simp_all [validName]) hb
    · split at hp
      · exact ((Linux.openTarget_createName hcanon hb (splitBase_ne_nil hm name) hv hc p).mp
          hp).2.plain hcanon
      · cases hp
  · simp only [if_neg hc, Option.bind_eq_some_iff] at hp
    rw [Bool.not_eq_true] at hc
    obtain ⟨q, hq, hp⟩ := hp
    have hcanon := realPathResult_canonical hq
    obtain ⟨-, rfl, -⟩ :=
      (openFileTarget_render hm hcanon (realPathResult_length hq) hv hc p).mp hp
    exact k.fs.plain_of_canonical hcanon

theorem lklOpen_confined_iff (k : Linux) (m : List Name) (parent : LklIfile)
    (fileName : Option (List UInt16)) (openMode attributes : UInt64)
    (hm : Mounted k.fs parent.volume m) :
    Linux.faulty.Always (lklOpen parent fileName openMode attributes)
        (fun _ k' => ∀ p ∈ k'.reached, Confined parent.volume.lklMountPoint p)
        { k with reached := [], faulted := false } ↔
      ¬Escapes k.fs m parent fileName openMode attributes := by
  have hplain := k.fs.plain_of_canonical hm.canonical
  have hpost := lklOpen_always (k := { k with reached := [], faulted := false }) hm fileName
    openMode attributes
  have htarget := lklOpenTarget_outside_iff (k := { k with reached := [], faulted := false }) hm
    fileName openMode attributes
  rw [← htarget, not_exists]
  constructor
  · rintro hconf p ⟨hp, hout⟩
    -- nothing fails in the run of the kernel itself, which then reaches the target
    have hrun := Linux.always_run (hpost.and hconf)
    have hfault := Linux.run_faulted (lklOpen parent fileName openMode attributes)
      { k with reached := [], faulted := false }
    rcases hrun.1.done with h | h
    · rw [hfault] at h
      cases h
    · have := hrun.2 p (h p hp)
      rw [hm.point, confined_iff hm.below hplain (lklOpenTarget_plain hm _ _ _ hp)] at this
      exact hout this
  · intro h
    refine hpost.mono fun _ k' hk' p hp => ?_
    rcases hk'.only p hp with hnil | htgt
    · cases hnil
    · rw [hm.point, confined_iff hm.below hplain (lklOpenTarget_plain hm _ _ _ htgt)]
      exact not_not.mp fun hout => h p ⟨htgt, hout⟩

theorem lklOpen_confined_iff_inside :
    Linux.faulty.Always
        (lklOpen rootHandle (some [0x61]) EFI_FILE_MODE_READ 0)
        (fun _ k' => ∀ p ∈ k'.reached, Confined rootHandle.volume.lklMountPoint p)
        { Linux.boot with fs := mountedTree, reached := [], faulted := false } ↔
      ¬Escapes mountedTree [ascii ['m', 'n', 't'], ascii ['1']] rootHandle (some [0x61])
        EFI_FILE_MODE_READ 0 :=
  lklOpen_confined_iff { Linux.boot with fs := mountedTree } _ rootHandle _ _ _
    ⟨by decide, by decide, by decide⟩

/-- Making the directory `..\a` of the volume puts it beside the mount point. -/
theorem lklOpen_makes_directory_outside :
    ¬Linux.faulty.Always
        (lklOpen rootHandle (some [0x5c, 0x2e, 0x2e, 0x5c, 0x61])
          (EFI_FILE_MODE_READ ||| EFI_FILE_MODE_WRITE ||| EFI_FILE_MODE_CREATE) EFI_FILE_DIRECTORY)
        (fun _ k' => ∀ p ∈ k'.reached, Confined rootHandle.volume.lklMountPoint p)
        { Linux.boot with fs := mountedTree } := by
  intro h
  have hrun := Linux.always_run h
  revert hrun
  decide

end UefiLkl
