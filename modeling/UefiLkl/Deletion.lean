import UefiLkl.OpenAtomic
set_option autoImplicit false

/-!
Which file `LKLDelete` removes: the path of the handle is resolved once more, after its
descriptor was closed, and other handles may have changed what it leads to.
-/

namespace UefiLkl
open Interaction PathWalk

/-- At most an object at `p` is new. -/
def Grows (F F' : FsTree) (p : Option (List Name)) : Prop :=
  F'.node = F.node ∨ ∃ q n, p = some q ∧ F.node q = none ∧
    F'.node = Function.update F.node q (some n)

theorem Grows.isDir {F F' : FsTree} {p : Option (List Name)} (h : Grows F F' p) {d : List Name}
    (hd : F.tree.isDir d = true) : F'.tree.isDir d = true := by
  rw [PathTree.isDir_iff, FsTree.tree_entry] at hd ⊢
  rcases h with h | ⟨q, n, -, hq, h⟩
  · rw [h]
    exact hd
  · have hne : d ≠ q := by
      rintro rfl
      rw [hq] at hd
      cases hd
    rw [h, Function.update_of_ne hne]
    exact hd

theorem Linux.create_node {k : Linux} {d : List Name} {a : Name} (isDir : Bool) (mode : Nat)
    (hd : k.fs.tree.isDir d = true) (hn : k.fs.node (d ++ [a]) = none)
    (ha : validName a = true) :
    (k.create d a isDir mode).fs.node = Function.update k.fs.node (d ++ [a])
      (some (if isDir then .dir k.nextIno else .file k.nextIno)) :=
  FsTree.insert_node hd hn ha (by cases isDir <;> rfl)

theorem Linux.missing_free {k : Linux} {path : Bytes} {d : List Name} {a : Name}
    (hw : k.walkPath true path = .missing d a) :
    k.fs.tree.isDir d = true ∧ k.fs.node (d ++ [a]) = none := by
  have hsound := k.walkPath_sound path
  rw [hw] at hsound
  obtain ⟨-, -, hnone, hdir⟩ := hsound
  rw [FsTree.tree_entry, Option.map_eq_none_iff] at hnone
  exact ⟨(k.fs.tree.isDir_iff d).mpr (hdir rfl), hnone⟩

theorem Linux.open_grows (k : Linux) (path : Bytes) (flags mode : Nat) :
    Grows k.fs (k.open path flags mode).2.fs (k.openTarget path flags) := by
  unfold Linux.open Linux.openTarget
  by_cases hslash : flags &&& O_CREAT ≠ 0 ∧ path.getLast? = some slash
  · simp only [if_pos hslash]
    exact .inl rfl
  simp only [if_neg hslash]
  cases hw : k.walkPath true path with
  | fail e => exact .inl rfl
  | found p =>
    dsimp only
    split
    · exact .inl rfl
    · split <;> exact .inl rfl
  | missing d a =>
    by_cases hcreat : flags &&& O_CREAT ≠ 0
    swap
    · simp [hcreat, Grows]
    by_cases ha : validName a = true
    · obtain ⟨hd, hn⟩ := Linux.missing_free hw
      have htarget :
          (if flags &&& O_CREAT ≠ 0 ∧ validName a = true then some (d ++ [a]) else none) =
          some (d ++ [a]) := if_pos ⟨hcreat, ha⟩
      refine .inr ⟨d ++ [a], .file k.nextIno, htarget, hn, ?_⟩
      dsimp only
      rw [if_neg (by simpa using hcreat), if_pos ha]
      exact Linux.create_node false mode hd hn ha
    · simp [hcreat, ha, Grows]

structure Frame (N : Nat) (k k' : Linux) : Prop where
  next : k.nextFd ≤ k'.nextFd
  old : ∀ n < N, (k'.fds n).map OpenFile.ino = (k.fds n).map OpenFile.ino

theorem Frame.refl (N : Nat) (k : Linux) : Frame N k k := ⟨le_rfl, fun _ _ => rfl⟩

theorem Frame.trans {N : Nat} {k k' k'' : Linux} (h : Frame N k k') (h' : Frame N k' k'') :
    Frame N k k'' :=
  ⟨h.next.trans h'.next, fun n hn => (h'.old n hn).trans (h.old n hn)⟩

theorem Frame.of_core {N : Nat} {k k' : Linux} (h : k'.core = k.core) : Frame N k k' := by
  have hnext : k'.nextFd = k.nextFd := show k'.core.nextFd = k.core.nextFd by rw [h]
  have hfds : k'.fds = k.fds := show k'.core.fds = k.core.fds by rw [h]
  exact ⟨hnext.ge, fun n _ => by rw [hfds]⟩

theorem Linux.open_frame (k : Linux) (path : Bytes) (flags mode : Nat) :
    Frame k.nextFd k (k.open path flags mode).2 := by
  have hinstall : ∀ (k₁ : Linux) p n, k₁.nextFd = k.nextFd → k₁.fds = k.fds →
      Frame k.nextFd k (k₁.install p n flags).2 := by
    intro k₁ p n hnext hfds
    refine ⟨by simp only [Linux.install]; omega, fun i hi => ?_⟩
    have hne : i ≠ k₁.nextFd := by omega
    simp only [Linux.install, Function.update_of_ne hne, hfds]
  unfold Linux.open
  dsimp only
  split
  · exact .refl _ _
  · split
    · split
      · exact .refl _ _
      · split
        · exact .refl _ _
        · exact hinstall _ _ _ rfl rfl
    · split
      · exact .refl _ _
      · split
        · exact hinstall _ _ _ rfl rfl
        · exact .refl _ _
    · exact .refl _ _

theorem Linux.mkdir_frame (N : Nat) (k : Linux) (path : Bytes) (mode : Nat) :
    Frame N k (k.mkdir path mode).2 := by
  unfold Linux.mkdir
  split
  · exact .refl _ _
  · split
    · exact ⟨le_rfl, fun _ _ => rfl⟩
    · exact .refl _ _
  · exact .refl _ _

theorem Linux.close_frame {N : Nat} {k : Linux} {fd : Int} (h : N ≤ fd.toNat) :
    Frame N k (k.close fd).2 := by
  unfold Linux.close
  split
  · exact .refl _ _
  · refine ⟨le_rfl, fun n hn => ?_⟩
    have hne : n ≠ fd.toNat := by omega
    simp only [Linux.setFd, Function.update_of_ne hne]

/-- The path is that of a name in a directory, and an object there is the file `ino`. -/
structure Spot (k : Linux) (path : Bytes) (ino : Nat) (q : List Name) (a : Name) : Prop where
  text : path = createName (render q) a
  plain : slash ∉ a
  canonical : k.fs.tree.Canonical q
  dir : k.fs.tree.isDir q = true
  short : PathName.kind a = .name → path.length < 4096
  own : PathName.kind a = .name → ∀ n, k.fs.node (q ++ [a]) = some n →
    n.ino = ino ∧ n.entry.isLink = false

section Spot

variable {k k' : Linux} {path : Bytes} {ino : Nat} {q : List Name} {a : Name}

theorem canonical_of_isDir {F F' : FsTree} (hq : F.tree.Canonical q) (hd : F'.tree.isDir q = true) :
    F'.tree.Canonical q :=
  PathTree.canonical_of_dir ((F'.tree.isDir_iff q).mp hd) hq.names

theorem Spot.mono (h : Spot k path ino q a) (hd : k'.fs.tree.isDir q = true)
    (hn : PathName.kind a = .name → ∀ n, k'.fs.node (q ++ [a]) = some n →
      k.fs.node (q ++ [a]) = some n) : Spot k' path ino q a where
  text := h.text
  plain := h.plain
  canonical := canonical_of_isDir h.canonical hd
  dir := hd
  short := h.short
  own ha n hn' := h.own ha n (hn ha n hn')

theorem Linux.walkPath_own (hq : k.fs.tree.Canonical q) (hd : k.fs.tree.isDir q = true)
    (hb : slash ∉ a) (ha : PathName.kind a = .name)
    (hshort : (createName (render q) a).length < 4096) :
    k.walkPath false (createName (render q) a) =
      if k.fs.node (q ++ [a]) = none then .missing q a else .found (q ++ [a]) := by
  rw [Linux.walkPath_createName false hq hb, if_neg (Nat.not_le.mpr hshort),
    walk_name (fun _ => hd) ha]
  cases hn : k.fs.node (q ++ [a]) with
  | none => simp [hn, Limits.unlimited]
  | some n => cases n <;> simp [hn, Limits.unlimited, FsNode.entry]

theorem Spot.walkPath (h : Spot k path ino q a) (ha : PathName.kind a = .name) :
    k.walkPath false path =
      if k.fs.node (q ++ [a]) = none then .missing q a else .found (q ++ [a]) := by
  have hshort := h.short ha
  rw [h.text] at hshort ⊢
  exact Linux.walkPath_own h.canonical h.dir h.plain ha hshort

theorem Spot.grows (h : Spot k path ino q a) {p : Option (List Name)} (hg : Grows k.fs k'.fs p)
    (hp : ∀ d b, k.walkPath false path = .missing d b → p ≠ some (d ++ [b])) :
    Spot k' path ino q a := by
  refine h.mono (hg.isDir h.dir) fun ha n hn => ?_
  rcases hg with hg | ⟨r, m, rfl, hr, hg⟩
  · rwa [hg] at hn
  · by_cases hqr : q ++ [a] = r
    · subst hqr
      have hw := h.walkPath ha
      rw [if_pos hr] at hw
      exact absurd rfl (hp q a hw)
    · rwa [hg, Function.update_of_ne hqr] at hn

theorem FsTree.remove_node {F : FsTree} {p : List Name} (h : F.tree.isDir p = false) :
    (F.remove p).node = Function.update F.node p none := by
  rw [FsTree.remove, dif_pos h]

theorem Spot.removes (h : Spot k path ino q a) {p : List Name} (hp : k.fs.tree.isDir p = false)
    (hk : k'.fs = k.fs.remove p) : Spot k' path ino q a := by
  have hnode : k'.fs.node = Function.update k.fs.node p none := by
    rw [hk, FsTree.remove_node hp]
  refine h.mono ?_ fun _ n hn => ?_
  · have hne : q ≠ p := by
      rintro rfl
      rw [h.dir] at hp
      cases hp
    rw [PathTree.isDir_iff, FsTree.tree_entry, hnode, Function.update_of_ne hne]
    exact (k.fs.tree.isDir_iff q).mp h.dir
  · by_cases hqp : q ++ [a] = p
    · rw [hnode, hqp, Function.update_self] at hn
      cases hn
    · rwa [hnode, Function.update_of_ne hqp] at hn

/-- Unlinking the path removes at most the file, and the path then leads nowhere. -/
theorem Spot.unlink (h : Spot k path ino q a) :
    (k.unlink path).2 = k ∧ (k.unlink path).1 ≠ 0 ∨
      ∃ n, k.fs.node (q ++ [a]) = some n ∧ n.ino = ino ∧ k.fs.tree.isDir (q ++ [a]) = false ∧
        (k.unlink path).2 = { k with fs := k.fs.remove (q ++ [a]) } ∧
        ∀ n', (k.unlink path).2.lookup true path ≠ .ok n' := by
  have hdirs : ∀ r, k.fs.tree.isDir r = true → k.walkPath false path = .found r →
      (k.unlink path).2 = k ∧ (k.unlink path).1 ≠ 0 := by
    intro r hr hw
    simp [Linux.unlink, hw, hr, EISDIR]
  by_cases ha : PathName.kind a = .name
  · have hw := h.walkPath ha
    cases hn : k.fs.node (q ++ [a]) with
    | none =>
      rw [if_pos hn] at hw
      simp [Linux.unlink, hw, ENOENT]
    | some n =>
      rw [if_neg (by simp [hn])] at hw
      by_cases hd : k.fs.tree.isDir (q ++ [a]) = true
      · exact .inl (hdirs _ hd hw)
      · have hd' : k.fs.tree.isDir (q ++ [a]) = false := by simpa using hd
        have hun : (k.unlink path).2 = { k with fs := k.fs.remove (q ++ [a]) } := by
          simp [Linux.unlink, hw, hd']
        refine .inr ⟨n, rfl, (h.own ha n hn).1, hd', hun, fun n' hl => ?_⟩
        have hspot : Spot (k.unlink path).2 path ino q a := h.removes hd' (by rw [hun])
        have hgone : (k.unlink path).2.fs.node (q ++ [a]) = none := by
          rw [hun, FsTree.remove_node hd', Function.update_self]
        have hshort := h.short ha
        generalize (k.unlink path).2 = k' at hspot hgone hl
        rw [h.text] at hshort hl
        rw [Linux.lookup, Linux.walkPath_createName true hspot.canonical hspot.plain,
          if_neg (Nat.not_le.mpr hshort), walk_name (fun _ => hspot.dir) ha] at hl
        simp [hgone, Limits.unlimited] at hl
  · have hlong := Linux.walkPath_createName (k := k) false h.canonical h.plain
    rw [← h.text] at hlong
    split at hlong
    · simp [Linux.unlink, hlong, PathWalk.Failure.errno, ENAMETOOLONG]
    · cases hk : PathName.kind a with
      | name => exact absurd hk ha
      | here =>
        rw [walk_here (fun _ => h.dir) hk, walk_nil] at hlong
        exact .inl (hdirs _ h.dir hlong)
      | up =>
        rw [walk_up (fun _ => h.dir) hk, walk_nil] at hlong
        exact .inl (hdirs _ (isDir_dropLast h.dir) hlong)

theorem Linux.fd_install (k : Linux) (p : List Name) (n : FsNode) (flags : Nat) :
    (k.install p n flags).2.fd (k.install p n flags).1 = some ⟨n.ino, flags, 0⟩ := by
  have hfd : ¬(k.nextFd : Int) < 0 := by omega
  simp [Linux.install, Linux.fd, hfd]

theorem Linux.open_success {flags mode : Nat} (hfd : 0 ≤ (k.open path flags mode).1) :
    (∃ p n, k.walkPath true path = .found p ∧ k.fs.node p = some n ∧
        k.open path flags mode = k.install p n flags) ∨
      ∃ d b, k.walkPath true path = .missing d b ∧ validName b = true ∧
        k.open path flags mode =
          (k.create d b false mode).install (d ++ [b]) (.file k.nextIno) flags := by
  unfold Linux.open at hfd ⊢
  by_cases hslash : flags &&& O_CREAT ≠ 0 ∧ path.getLast? = some slash
  · simp only [if_pos hslash] at hfd
    exact absurd hfd (show ¬(0 : Int) ≤ -EISDIR by decide)
  simp only [if_neg hslash] at hfd ⊢
  cases hw : k.walkPath true path with
  | fail e =>
    have := Failure.errno_pos e
    simp only [hw] at hfd
    omega
  | found p =>
    simp only [hw] at hfd ⊢
    cases hn : k.fs.node p with
    | none =>
      simp only [hn] at hfd
      exact absurd hfd (show ¬(0 : Int) ≤ -ENOENT by decide)
    | some n =>
      simp only [hn] at hfd ⊢
      split at hfd
      · exact absurd hfd (show ¬(0 : Int) ≤ -EISDIR by decide)
      · rename_i hdir
        exact .inl ⟨p, n, rfl, hn, if_neg hdir⟩
  | missing d b =>
    simp only [hw] at hfd ⊢
    split at hfd
    · exact absurd hfd (show ¬(0 : Int) ≤ -ENOENT by decide)
    · rename_i hcreat
      split at hfd
      · rename_i hb
        exact .inr ⟨d, b, rfl, hb, by rw [if_neg hcreat, if_pos hb]⟩
      · exact absurd hfd (show ¬(0 : Int) ≤ -ENAMETOOLONG by decide)

theorem Linux.open_some {flags mode : Nat} (hfd : 0 ≤ (k.open path flags mode).1) :
    ∃ o, (k.open path flags mode).2.fd (k.open path flags mode).1 = some o := by
  rcases Linux.open_success hfd with ⟨p, n, -, -, h⟩ | ⟨d, b, -, -, h⟩ <;>
    · rw [h]
      exact ⟨_, Linux.fd_install _ _ _ _⟩

theorem Linux.open_spot {flags mode : Nat} (hq : k.fs.tree.Canonical q) (hb : slash ∉ a)
    (hlink : ∀ n, k.fs.node (q ++ [a]) = some n → n.entry.isLink = false)
    (hfd : 0 ≤ (k.open (createName (render q) a) flags mode).1) :
    ∃ o, (k.open (createName (render q) a) flags mode).2.fd
        (k.open (createName (render q) a) flags mode).1 = some o ∧
      Spot (k.open (createName (render q) a) flags mode).2 (createName (render q) a) o.ino q a := by
  have hw := Linux.walkPath_createName (k := k) true hq hb
  by_cases hlong : 4096 ≤ (createName (render q) a).length
  · rw [if_pos hlong] at hw
    rcases Linux.open_success hfd with ⟨p, n, hw', -⟩ | ⟨d, b, hw', -⟩ <;>
      · rw [hw] at hw'
        cases hw'
  rw [if_neg hlong] at hw
  have hshort : (createName (render q) a).length < 4096 := by omega
  by_cases hd : k.fs.tree.isDir q = true
  swap
  · rw [walk_notDir (m := ⟨true, true⟩) rfl (Bool.eq_false_iff.mpr hd)] at hw
    rcases Linux.open_success hfd with ⟨p, n, hw', -⟩ | ⟨d, b, hw', -⟩ <;>
      · rw [hw] at hw'
        cases hw'
  by_cases ha : PathName.kind a = .name
  · rw [walk_name (fun _ => hd) ha] at hw
    cases hn : k.fs.node (q ++ [a]) with
    | none =>
      simp only [Limits.unlimited, FsTree.tree_entry, hn, Option.map_none, List.isEmpty_nil,
        if_true] at hw
      rcases Linux.open_success hfd with ⟨p, n, hw', -⟩ | ⟨d, b, hw', hval, hopen⟩
      · rw [hw] at hw'
        cases hw'
      · rw [hw] at hw'
        cases hw'
        have hnode := Linux.create_node false mode hd hn hval
        have hdir : (k.create q a false mode).fs.tree.isDir q = true :=
          Grows.isDir (p := some (q ++ [a])) (.inr ⟨_, _, rfl, hn, hnode⟩) hd
        rw [hopen]
        refine ⟨_, Linux.fd_install _ _ _ _, rfl, hb, canonical_of_isDir hq hdir, hdir,
          fun _ => hshort, fun _ n hn' => ?_⟩
        have hself : (k.create q a false mode).fs.node (q ++ [a]) = some n := hn'
        rw [hnode, Function.update_self] at hself
        cases hself
        exact ⟨rfl, rfl⟩
    | some n =>
      have hfound : k.walkPath true (createName (render q) a) = .found (q ++ [a]) := by
        rw [hw]
        cases n with
        | link i t => cases hlink _ hn
        | dir i => simp [Limits.unlimited, hn, FsNode.entry]
        | file i => simp [Limits.unlimited, hn, FsNode.entry]
      rcases Linux.open_success hfd with ⟨p, n', hw', hn', hopen⟩ | ⟨d, b, hw', -⟩
      · rw [hfound] at hw'
        cases hw'
        rw [hn] at hn'
        cases hn'
        rw [hopen]
        refine ⟨_, Linux.fd_install _ _ _ _, rfl, hb, hq, hd, fun _ => hshort, fun _ n' hn' => ?_⟩
        have hself : k.fs.node (q ++ [a]) = some n' := hn'
        rw [hn] at hself
        cases hself
        exact ⟨rfl, hlink n hn⟩
      · rw [hfound] at hw'
        cases hw'
  · -- a dot or two dots: the path leads to a directory
    rcases Linux.open_success hfd with ⟨p, n, hw', hn, hopen⟩ | ⟨d, b, hw', -⟩
    · rw [hopen]
      exact ⟨_, Linux.fd_install _ _ _ _, rfl, hb, hq, hd, fun h => absurd h ha,
        fun h => absurd h ha⟩
    · cases hk : PathName.kind a with
      | name => exact absurd hk ha
      | here =>
        rw [walk_here (fun _ => hd) hk, walk_nil, hw'] at hw
        cases hw
      | up =>
        rw [walk_up (fun _ => hd) hk, walk_nil, hw'] at hw
        cases hw

end Spot

/-- The descriptor is open, and at the path of the handle is its file, or nothing. -/
def Linked (k : Linux) (f : LklIfile) : Prop :=
  ∃ o, k.fd f.fd = some o ∧ ∃ q a, Spot k (ifilePath f.volume f) o.ino q a

/-- The text of the mount point, alone or with a separator behind it. -/
def Inside (mountPoint path : Bytes) : Prop := path = mountPoint ∨ mountPoint ++ [slash] <+: path

instance (mountPoint path : Bytes) : Decidable (Inside mountPoint path) :=
  inferInstanceAs (Decidable (_ ∨ _))

def Call.quiet : Call → Bool
  | .allocatePool _ | .reallocatePool _ _ _ | .freePool _ | .touch _ _ _ _ | .sysFstat _ => true
  | _ => false

section Quiet

variable {α : Type} {p : Lkl α} {k : Linux}

theorem Linux.always_core (hp : p.Only fun c => c.quiet = true) :
    Linux.faulty.Always p (fun _ k' => k'.core = k.core) k := by
  refine Env.always_of_invariant (I := fun k' : Linux => k'.core = k.core) ?_ hp rfl
  rintro g c x g' hc hg (hx | ⟨-, rfl⟩)
  · obtain ⟨-, rfl⟩ := Prod.mk.inj hx
    cases c <;> first | exact hg | cases hc
  · exact hg

theorem freeUnlessNull_quiet (o : Option Ptr) :
    (freeUnlessNull o).Only fun c => c.quiet = true := by
  cases o with
  | none => trivial
  | some p => exact ⟨rfl, fun _ => trivial⟩

theorem openFree_quiet (l : OpenLocals) (status : EfiStatus) (ifile : Option LklIfile) :
    (openDone.openFree l status ifile).Only fun c => c.quiet = true :=
  (freeUnlessNull_quiet _).bind fun _ => (freeUnlessNull_quiet _).bind fun _ =>
    (freeUnlessNull_quiet _).bind fun _ => trivial

theorem lklAllocateIFile_quiet (volume : LklVolume) (fd : Int) :
    (lklAllocateIFile volume fd).Only fun c => c.quiet = true := by
  refine Prog.only_ask_bind.mpr ⟨rfl, fun ptr => ?_⟩
  cases ptr with
  | none => trivial
  | some ptr =>
    refine Prog.only_ask_bind.mpr ⟨rfl, fun x => ?_⟩
    obtain ⟨rc, st⟩ := x
    dsimp only
    split
    · split
      · exact ⟨rfl, fun _ => trivial⟩
      · trivial
    · trivial

theorem lklAllocateIFile_ends_with (volume : LklVolume) (fd : Int) :
    (lklAllocateIFile volume fd).Ends fun r => match r.2 with
      | none => r.1.isError = true
      | some f => r.1 = .success ∧ f.fd = fd ∧ f.volume = volume ∧ f.filePath = .of [] := by
  refine Prog.ends_ask_bind.mpr fun ptr => ?_
  cases ptr with
  | none => exact rfl
  | some ptr =>
    refine Prog.ends_ask_bind.mpr fun x => ?_
    obtain ⟨rc, st⟩ := x
    dsimp only
    by_cases hrc : rc = 0
    · rw [if_neg (not_not.mpr hrc)]
      exact ⟨rfl, rfl, rfl, rfl⟩
    · have herror := lklError2EfiError_isError hrc
      rw [if_pos hrc, if_pos herror]
      exact fun _ => herror

end Quiet

/-- What an open call does to the tree, the old descriptors, and the handle it returns. -/
structure Opened (k : Linux) (target : Option (List Name)) (volume : LklVolume)
    (r : EfiStatus × Option LklIfile) (k' : Linux) : Prop where
  frame : Frame k.nextFd k k'
  tree : Grows k.fs k'.fs target
  handle : ∀ f, r.2 = some f → f.volume = volume ∧ 0 ≤ f.fd ∧ k.nextFd ≤ f.fd.toNat ∧
    f.fd.toNat < k'.nextFd ∧ Linked k' f

theorem Opened.none {k k' : Linux} {target : Option (List Name)} {volume : LklVolume}
    {status : EfiStatus} (hframe : Frame k.nextFd k k') (htree : Grows k.fs k'.fs target) :
    Opened k target volume (status, none) k' :=
  ⟨hframe, htree, fun f hf => by cases hf⟩

theorem Linux.open_fresh {k : Linux} {path : Bytes} {flags mode : Nat}
    (hfd : 0 ≤ (k.open path flags mode).1) :
    (k.open path flags mode).1 = k.nextFd ∧
      (k.open path flags mode).2.nextFd = k.nextFd + 1 := by
  rcases Linux.open_success hfd with ⟨p, n, -, -, h⟩ | ⟨d, b, -, -, h⟩ <;>
    · rw [h]
      exact ⟨rfl, rfl⟩

section Opening

variable {k : Linux} {volume : LklVolume} {l : OpenLocals} {path : Bytes} {flags mode : Nat}

theorem openDone_frame {N : Nat} (hl : l.fd < 0 ∨ N ≤ l.fd.toNat) (status : EfiStatus) :
    Linux.faulty.Always (openDone l status none)
      (fun r k' => r.2 = none ∧ k'.fs = k.fs ∧ Frame N k k') k := by
  have hfree : ∀ k₁ : Linux, k₁.fs = k.fs → Frame N k k₁ →
      Linux.faulty.Always (openDone.openFree l status none)
        (fun _ k' => k'.fs = k.fs ∧ Frame N k k') k₁ := by
    intro k₁ hfs hframe
    refine (Linux.always_core (openFree_quiet l status none)).mono fun _ k' hk' => ?_
    exact ⟨(Linux.fs_eq_of_core hk').trans hfs, hframe.trans (.of_core hk')⟩
  have hall : Linux.faulty.Always (openDone l status none)
      (fun _ k' => k'.fs = k.fs ∧ Frame N k k') k := by
    unfold openDone
    by_cases hfd : status.isError = true ∧ l.fd ≥ 0
    · rw [if_pos hfd]
      refine Linux.always_ask.mpr ⟨?_, fun x hx => ?_⟩
      · refine hfree _ (Linux.handle_fs (c := .sysClose l.fd) rfl k) ?_
        exact Linux.close_frame (by have := hfd.2; omega)
      · exact hfree _ rfl ⟨le_rfl, fun _ _ => rfl⟩
    · rw [if_neg hfd]
      exact hfree k rfl (.refl N k)
  refine (hall.and (openDone_ends_with l status none).always).mono ?_
  rintro r k' ⟨⟨hfs, hframe⟩, rfl⟩
  exact ⟨rfl, hfs, hframe⟩

theorem openDone_returns_core (ifile : Option LklIfile) :
    Linux.faulty.Always (openDone l .success ifile)
      (fun r k' => r = (.success, ifile) ∧ k'.core = k.core) k := by
  have hok : ¬(EfiStatus.success.isError = true ∧ l.fd ≥ 0) := by
    rintro ⟨h, -⟩
    cases h
  have hends := (openDone_ends_with l .success ifile).always (E := Linux.faulty) (g := k)
  refine (hends.and ?_).mono fun _ _ h => h
  unfold openDone
  rw [if_neg hok]
  exact Linux.always_core (openFree_quiet l .success ifile)

theorem Linked.of_core {k k' : Linux} {f : LklIfile} (h : Linked k f) (hk : k'.core = k.core) :
    Linked k' f := by
  obtain ⟨o, hfd, q, a, hspot⟩ := h
  have hfds : k'.fds = k.fds := show k'.core.fds = k.core.fds by rw [hk]
  have hfs := Linux.fs_eq_of_core hk
  refine ⟨o, ?_, q, a, ?_⟩
  · rw [← hfd]
    simp only [Linux.fd, hfds]
  · exact hspot.mono (by rw [hfs]; exact hspot.dir) fun _ n hn => by rwa [hfs] at hn

theorem openFile_opened (hl : l.fd < 0)
    (hspot : startsWith path volume.lklMountPoint = true → 0 ≤ (k.open path flags mode).1 →
      ∃ o, (k.open path flags mode).2.fd (k.open path flags mode).1 = some o ∧
        ∃ q a, Spot (k.open path flags mode).2
          (volume.lklMountPoint.val ++ slash :: (storedPath volume path).val) o.ino q a) :
    Linux.faulty.Always (openFile volume l path flags mode)
      (Opened k (openFileTarget k volume path flags) volume) k := by
  have hfail : ∀ (k₁ : Linux) (l : OpenLocals) (status : EfiStatus),
      (l.fd < 0 ∨ k.nextFd ≤ l.fd.toNat) → Frame k.nextFd k k₁ →
      Grows k.fs k₁.fs (openFileTarget k volume path flags) →
      Linux.faulty.Always (openDone l status none)
        (Opened k (openFileTarget k volume path flags) volume) k₁ := by
    intro k₁ l status hl hframe htree
    refine (openDone_frame hl status).mono ?_
    rintro ⟨status', ifile⟩ k' ⟨rfl, hfs, hframe'⟩
    exact .none (hframe.trans hframe') (hfs ▸ htree)
  unfold openFile
  by_cases hpre : startsWith path volume.lklMountPoint = true
  swap
  · rw [if_pos (by simpa using hpre)]
    exact hfail k l _ (.inl hl) (.refl _ k) (.inl rfl)
  rw [if_neg (by simp [hpre])]
  have htarget : openFileTarget k volume path flags = k.openTarget path flags := if_pos hpre
  have hgrows := htarget ▸ k.open_grows path flags mode
  have hframe := k.open_frame path flags mode
  apply Linux.always_open
  swap
  · intro fd hfd
    rw [if_pos hfd]
    exact hfail _ l _ (.inl hl) ⟨le_rfl, fun _ _ => rfl⟩ (.inl rfl)
  by_cases hfd : (k.open path flags mode).1 < 0
  · rw [if_pos hfd]
    exact hfail _ l _ (.inl hl) hframe hgrows
  rw [if_neg hfd]
  obtain ⟨hnext, hlimit⟩ := Linux.open_fresh (not_lt.mp hfd)
  obtain ⟨o, ho, q, a, hlinked⟩ := hspot hpre (not_lt.mp hfd)
  generalize k.open path flags mode = x at hfd hgrows hframe hnext hlimit ho hlinked
  obtain ⟨fd, k₁⟩ := x
  dsimp only at hfd hgrows hframe hnext hlimit ho hlinked ⊢
  have hfresh : k.nextFd ≤ fd.toNat := by omega
  refine Env.always_bind.mpr (((Linux.always_core (lklAllocateIFile_quiet volume fd)).and
    (lklAllocateIFile_ends_with volume fd).always).mono ?_)
  rintro ⟨status, ifile⟩ k₂ ⟨hcore, hr⟩
  have hframe₂ := hframe.trans (.of_core hcore)
  have hgrows₂ : Grows k.fs k₂.fs (openFileTarget k volume path flags) := by
    rwa [Linux.fs_eq_of_core hcore]
  cases ifile with
  | none =>
    have herror : status.isError = true := hr
    dsimp only
    rw [if_pos herror]
    exact hfail k₂ _ _ (.inr hfresh) hframe₂ hgrows₂
  | some f =>
    obtain ⟨hstatus, hf, hvolume, -⟩ := hr
    dsimp only at hstatus ⊢
    subst hstatus
    rw [if_neg (by decide)]
    refine (openDone_returns_core _).mono ?_
    rintro _ k₃ ⟨rfl, hcore₃⟩
    have hcore' := hcore₃.trans hcore
    refine ⟨hframe₂.trans (.of_core hcore₃), ?_, ?_⟩
    · rwa [Linux.fs_eq_of_core hcore₃]
    · intro g hg
      cases hg
      have hnext₃ : k₃.nextFd = k₁.nextFd := show k₃.core.nextFd = k₁.core.nextFd by rw [hcore']
      refine ⟨hvolume, ?_, ?_, ?_, ?_⟩
      · show 0 ≤ f.fd
        omega
      · show k.nextFd ≤ f.fd.toNat
        omega
      · show f.fd.toNat < k₃.nextFd
        omega
      · refine Linked.of_core ⟨o, ?_, q, a, ?_⟩ hcore'
        · exact hf ▸ ho
        · exact hvolume ▸ hlinked

end Opening

theorem Mounted.of_isDir {F F' : FsTree} {volume : LklVolume} {m : List Name}
    (h : Mounted F volume m) (hd : F'.tree.isDir m = true) : Mounted F' volume m :=
  ⟨h.point, h.below, hd⟩

theorem Linux.open_short {k : Linux} {path : Bytes} {flags mode : Nat}
    (hfd : 0 ≤ (k.open path flags mode).1) : path.length < 4096 := by
  by_contra hlong
  have hw : ∀ o, k.walkPath true path = o → o = .fail .noEntry ∨ o = .fail .tooLong := by
    rintro _ rfl
    unfold Linux.walkPath
    split
    · exact .inl rfl
    · rw [if_pos (by omega)]
      exact .inr rfl
  rcases Linux.open_success hfd with ⟨p, n, h, -⟩ | ⟨d, b, h, -⟩ <;>
    · rcases hw _ h with h | h <;> cases h

/-- With nothing behind its separator the mount point is a directory, which is never removed. -/
theorem Mounted.spot {k : Linux} {volume : LklVolume} {m : List Name}
    (hm : Mounted k.fs volume m) (ino : Nat) :
    ∃ q a, Spot k (volume.lklMountPoint.val ++ [slash]) ino q a := by
  have hnil : PathName.kind ([] : Name) ≠ .name := by decide
  rw [hm.point]
  exact ⟨m, [], rfl, List.not_mem_nil, hm.canonical, hm.dir, fun h => absurd h hnil,
    fun h => absurd h hnil⟩

theorem Spot.stored {k : Linux} {volume : LklVolume} {m q : List Name} {path : Bytes} {ino : Nat}
    {a : Name} (h : Spot k path ino q a) (hm : Mounted k.fs volume m) (h0 : 0 ∉ path)
    (hlen : path.length < 4096) (hin : Inside volume.lklMountPoint path) :
    ∃ q a, Spot k (volume.lklMountPoint.val ++ slash :: (storedPath volume path).val) ino q a := by
  rcases hin with rfl | hin
  · rw [storedPath_self]
    exact hm.spot ino
  · rw [storedPath_inside h0 hlen hin]
    exact ⟨q, a, h⟩

theorem Mounted.open {k : Linux} {volume : LklVolume} {m : List Name} (hm : Mounted k.fs volume m)
    (path : Bytes) (flags mode : Nat) : Mounted (k.open path flags mode).2.fs volume m :=
  hm.of_isDir ((k.open_grows path flags mode).isDir hm.dir)

section Create

variable {k : Linux} {m q : List Name} {base : Name} {volume : LklVolume} {l : OpenLocals}
  {flags mode : Nat} {attributes : UInt64}

theorem Linux.mkdir_grows (hq : k.fs.tree.Canonical q) (hb : slash ∉ base) (hne : base ≠ [])
    (mode : Nat) :
    Grows k.fs (k.mkdir (createName (render q) base) mode).2.fs
      (k.mkdirTarget (createName (render q) base)) := by
  cases ht : k.mkdirTarget (createName (render q) base) with
  | none =>
    rw [(Linux.mkdir_of_none ht mode).1]
    exact .inl rfl
  | some p =>
    rw [Linux.mkdir_createName hq hb hne mode ht]
    obtain ⟨rfl, hd, hn, hv, -⟩ := (Linux.mkdirTarget_createName hq hb hne p).mp ht
    exact .inr ⟨_, _, rfl, hn, Linux.create_node true mode hd hn hv⟩

theorem openCreate_opened (hm : Mounted k.fs volume m) (hl : l.fd < 0)
    (hq : k.fs.tree.Canonical q) (hb : slash ∉ base) (hne : base ≠ [])
    (h0 : 0 ∉ createName (render q) base)
    (hin : startsWith (createName (render q) base) volume.lklMountPoint = true →
      Inside volume.lklMountPoint (createName (render q) base))
    (hlink : attributes &&& EFI_FILE_DIRECTORY = 0 → ∀ n, k.fs.node (q ++ [base]) = some n →
      (createName (render q) base).length < 4096 → n.entry.isLink = false) :
    Linux.faulty.Always (openCreate volume l (render q) base flags mode attributes)
      (Opened k (openCreateTarget k volume (createName (render q) base) flags attributes)
        volume) k := by
  have hfail : ∀ (k₁ : Linux) (l : OpenLocals) (status : EfiStatus), l.fd < 0 →
      Frame k.nextFd k k₁ →
      Grows k.fs k₁.fs (openCreateTarget k volume (createName (render q) base) flags attributes) →
      Linux.faulty.Always (openDone l status none)
        (Opened k (openCreateTarget k volume (createName (render q) base) flags attributes)
          volume) k₁ := by
    intro k₁ l status hl hframe htree
    refine (openDone_frame (N := k.nextFd) (.inl hl) status).mono ?_
    rintro ⟨status', ifile⟩ k' ⟨rfl, hfs, hframe'⟩
    exact .none (hframe.trans hframe') (hfs ▸ htree)
  unfold openCreate
  apply Linux.always_allocatePool
  swap
  · exact hfail _ l _ hl ⟨le_rfl, fun _ _ => rfl⟩ (.inl rfl)
  have hfree := Linux.always_core (k := k.alloc.2) (freeUnlessNull_quiet l.absFilePath)
  refine Env.always_bind.mpr (hfree.mono ?_)
  rintro _ k₁ hk₁
  have hcore : k₁.core = k.core := hk₁
  have hfs := Linux.fs_eq_of_core hcore
  have hnext : k₁.nextFd = k.nextFd := show k₁.core.nextFd = k.core.nextFd by rw [hcore]
  have hmkdir : k₁.mkdirTarget (createName (render q) base) =
      k.mkdirTarget (createName (render q) base) := by
    show k₁.core.mkdirTarget _ = k.core.mkdirTarget _
    rw [hcore]
  have htarget : openCreateTarget k₁ volume (createName (render q) base) flags attributes =
      openCreateTarget k volume (createName (render q) base) flags attributes :=
    openCreateTarget_of_core hcore
  have hl' : ({ l with absFilePath := some k.nextPtr } : OpenLocals).fd < 0 := hl
  rw [← hfs] at hm hq
  dsimp only
  by_cases hdir : attributes &&& EFI_FILE_DIRECTORY ≠ 0
  · rw [if_pos hdir]
    have hgrows : Grows k.fs (k₁.mkdir (createName (render q) base) mode).2.fs
        (openCreateTarget k volume (createName (render q) base) flags attributes) := by
      have := Linux.mkdir_grows hq hb hne mode
      rwa [openCreateTarget, if_pos hdir, ← hmkdir, ← hfs]
    have hframe : Frame k.nextFd k (k₁.mkdir (createName (render q) base) mode).2 :=
      (Frame.of_core hcore).trans (Linux.mkdir_frame _ _ _ _)
    apply Linux.always_mkdir
    swap
    · intro rc hrc
      rw [if_pos (by omega)]
      refine hfail _ _ _ hl' ((Frame.of_core hcore).trans ⟨le_rfl, fun _ _ => rfl⟩) (.inl ?_)
      rw [← hfs]
    by_cases hrc : (k₁.mkdir (createName (render q) base) mode).1 = 0
    swap
    · rw [if_pos hrc]
      exact hfail _ _ _ hl' hframe hgrows
    rw [if_neg (not_not.mpr hrc)]
    obtain ⟨p, hp⟩ := Option.isSome_iff_exists.mp
      ((k₁.mkdir_target (createName (render q) base) mode).2.mp hrc)
    have hafter := Linux.openTarget_after_mkdir hq hb hne mode hp
    have hmade := congrArg Prod.snd (Linux.mkdir_createName hq hb hne mode hp)
    obtain ⟨rfl, hd, hn, hv, -⟩ := (Linux.mkdirTarget_createName hq hb hne p).mp hp
    have hnode := Linux.create_node (k := k₁) true mode hd hn hv
    generalize hk₂ : (k₁.mkdir (createName (render q) base) mode).2 = k₂ at *
    dsimp only at hmade
    subst hmade
    have hd₂ : (k₁.create q base true mode).fs.tree.isDir q = true :=
      Grows.isDir (p := some (q ++ [base])) (.inr ⟨_, _, rfl, hn, hnode⟩) hd
    have hm₂ := hm.of_isDir
      (Grows.isDir (p := some (q ++ [base])) (.inr ⟨_, _, rfl, hn, hnode⟩) hm.dir)
    have hnext₂ : (k₁.create q base true mode).nextFd = k.nextFd := hnext
    refine (openFile_opened hl' fun hpre hfd => ?_).mono fun r k' hr => ?_
    · obtain ⟨o, ho, hspot⟩ := Linux.open_spot (canonical_of_isDir hq hd₂) hb (fun n hn' => by
        rw [hnode, Function.update_self] at hn'
        cases hn'
        rfl) hfd
      exact ⟨o, ho, hspot.stored (hm₂.open _ _ _) h0 (Linux.open_short hfd) (hin hpre)⟩
    · refine ⟨?_, ?_, ?_⟩
      · exact hframe.trans (hnext₂ ▸ hr.frame)
      · -- the second call finds what the first has made
        rcases hr.tree with hsame | ⟨p, n, hp', hnone, -⟩
        · rcases hgrows with h | ⟨p, n, hp', hnone, h⟩
          · exact .inl (hsame.trans h)
          · exact .inr ⟨p, n, hp', hnone, hsame.trans h⟩
        · unfold openFileTarget at hp'
          split at hp'
          · rw [hafter] at hp'
            cases hp'
            rw [hnode, Function.update_self] at hnone
            cases hnone
          · cases hp'
      · intro f hf
        have := hr.handle f hf
        rwa [hnext₂] at this
  · rw [if_neg hdir]
    have hnone : attributes &&& EFI_FILE_DIRECTORY = 0 := not_not.mp hdir
    have hfile : openCreateTarget k volume (createName (render q) base) flags attributes =
        openFileTarget k₁ volume (createName (render q) base) flags := by
      rw [← htarget, openCreateTarget, if_neg hdir]
    rw [hfile]
    refine (openFile_opened hl' fun hpre hfd => ?_).mono fun r k' hr => ?_
    · obtain ⟨o, ho, hspot⟩ := Linux.open_spot hq hb (fun n hn' => by
        rw [hfs] at hn'
        exact hlink hnone n hn' (Linux.open_short hfd)) hfd
      exact ⟨o, ho, hspot.stored (hm.open _ _ _) h0 (Linux.open_short hfd) (hin hpre)⟩
    · exact ⟨(Frame.of_core hcore).trans (hnext ▸ hr.frame), hfs ▸ hr.tree, fun f hf => by
        have := hr.handle f hf
        rwa [hnext] at this⟩

end Create

/-- The path that an accepted request passes to `open`. -/
def openText (F : FsTree) (parent : LklIfile) (fileName : Option (List UInt16))
    (openMode attributes : UInt64) : Option Bytes :=
  match fileName with
  | none => none
  | some name =>
  match openFlags parent.volume.readOnly openMode attributes with
  | .error _ => none
  | .ok _ =>
    if createMode openMode then
      (realPathResult F (splitBase (openPath parent name)).1).map fun q =>
        createName (render q) (splitBase (openPath parent name)).2
    else (realPathResult F (openPath parent name)).map render

theorem nul_not_mem_base {path : Bytes} (h : 0 ∉ path) : 0 ∉ (splitBase path).2 := fun h0 =>
  h ((removeTrailingSlashes_begins path).subset (List.drop_subset _ _ h0))

theorem nul_not_mem_createName {F : FsTree} {q : List Name} {base : Name}
    (hq : F.tree.Canonical q) (hb : 0 ∉ base) : 0 ∉ createName (render q) base := by
  have hr := F.nul_not_mem_render hq
  have hslash : (0 : UInt8) ≠ slash := by decide
  simp [createName, hr, hb, hslash]

theorem render_below {F : FsTree} {volume : LklVolume} {m q : List Name} (hm : Mounted F volume m)
    (hq : F.tree.Canonical q) (h : volume.lklMountPoint.val ++ [slash] <+: render q) :
    ∃ d a, q = d ++ [a] ∧ render q = createName (render d) a := by
  rw [hm.point] at h
  have hplain := F.plain_of_canonical hq
  obtain ⟨s, rfl⟩ := (confined_iff hm.below (F.plain_of_canonical hm.canonical) hplain).mp (.inr h)
  rcases List.eq_nil_or_concat' s with rfl | ⟨t, a, rfl⟩
  · have hlen := h.length_le
    rw [List.append_nil, List.length_append, List.length_singleton] at hlen
    omega
  · have hd : m ++ t ≠ [] := by simp [hm.below]
    refine ⟨m ++ t, a, (List.append_assoc m t [a]).symm, ?_⟩
    rw [← List.append_assoc, createName, render_of_ne (by simp), render_of_ne hd, joined_snoc]

theorem PathTree.Canonical.not_link {F : FsTree} {q : List Name} (hq : F.tree.Canonical q)
    {n : FsNode} (hn : F.node q = some n) : n.entry.isLink = false := by
  obtain ⟨e, he, hlink⟩ := hq.object
  rw [FsTree.tree_entry, hn, Option.map_some, Option.some_inj] at he
  rw [he]
  exact hlink

section Whole

variable {k : Linux} {m : List Name} {parent : LklIfile} {fileName : Option (List UInt16)}
  {openMode attributes : UInt64}

theorem openDone_opened {target : Option (List Name)} {volume : LklVolume} {k' : Linux}
    (hk : k'.core = k.core) {l : OpenLocals} (hl : l.fd = -1) (status : EfiStatus) :
    Linux.faulty.Always (openDone l status none) (Opened k target volume) k' := by
  have hneg : l.fd < 0 := by omega
  refine (openDone_frame (N := k.nextFd) (.inl hneg) status).mono ?_
  rintro ⟨status', ifile⟩ k'' ⟨rfl, hfs, hframe⟩
  exact .none ((Frame.of_core hk).trans hframe) (.inl (by rw [hfs, Linux.fs_eq_of_core hk]))

theorem Opened.of_core {target : Option (List Name)} {volume : LklVolume} {k₁ k' : Linux}
    {r : EfiStatus × Option LklIfile} (hk : k₁.core = k.core) (h : Opened k₁ target volume r k') :
    Opened k target volume r k' := by
  have hnext : k₁.nextFd = k.nextFd := show k₁.core.nextFd = k.core.nextFd by rw [hk]
  have hfs := Linux.fs_eq_of_core hk
  exact ⟨(Frame.of_core hk).trans (hnext ▸ h.frame), hfs ▸ h.tree, fun f hf =>
    hnext ▸ h.handle f hf⟩

theorem lklOpen_opened (hm : Mounted k.fs parent.volume m)
    (hin : ∀ path, openText k.fs parent fileName openMode attributes = some path →
      startsWith path parent.volume.lklMountPoint = true →
      Inside parent.volume.lklMountPoint path)
    (hlink : ∀ path p n, openText k.fs parent fileName openMode attributes = some path →
      attributes &&& EFI_FILE_DIRECTORY = 0 → k.walkPath false path = .found p →
      k.fs.node p = some n → n.entry.isLink = false) :
    Linux.faulty.Always (lklOpen parent fileName openMode attributes)
      (Opened k (lklOpenTarget k parent fileName openMode attributes) parent.volume) k := by
  unfold lklOpen lklOpenTarget
  unfold openText at hin hlink
  cases fileName with
  | none => exact .none (.refl _ k) (.inl rfl)
  | some name =>
  dsimp only at hin hlink ⊢
  rcases hflags : openFlags parent.volume.readOnly openMode attributes with status | ⟨flags, mode⟩
  · exact .none (.refl _ k) (.inl rfl)
  rw [hflags] at hin hlink
  dsimp only at hin hlink ⊢
  apply Linux.always_allocatePool
  swap
  · exact openDone_opened (by rfl) (by rfl) _
  apply Linux.always_allocatePool
  swap
  · exact openDone_opened (by rfl) (by rfl) _
  dsimp only
  have h0 := nul_not_mem_openPath parent name
  by_cases hcreate : createMode openMode = true
  · rw [if_pos hcreate] at hin hlink ⊢
    rw [if_pos hcreate, if_neg (splitBase_ne_nil hm name), if_neg (splitBase_ne_nil hm name),
      Linux.always_touch]
    refine always_realPath (nul_not_mem_splitBase h0) ?_ ?_
    · exact fun k' hk' => openDone_opened (k := k) (by exact hk') (by rfl) _
    intro k' ptr q hcore hq
    have hcore' : k'.core = k.core := hcore
    have hfs : k'.fs = k.fs := Linux.fs_eq_of_core hcore'
    have hq' : realPathResult k.fs (splitBase (openPath parent name)).1 = some q := hq
    have hcanon : k.fs.tree.Canonical q := realPathResult_canonical hq'
    have hb := slash_not_mem_splitBase hm name
    rw [hq'] at hin hlink
    rw [hq', Option.bind_some, ← openCreateTarget_of_core hcore']
    refine Env.Always.mono (openCreate_opened (hfs ▸ hm) (Int.negSucc_lt_zero 0) (hfs ▸ hcanon) hb
      (splitBase_ne_nil hm name) (nul_not_mem_createName hcanon (nul_not_mem_base h0))
      (hin _ rfl) fun hdir n hn hlen => ?_) fun _ _ => Opened.of_core hcore'
    rw [hfs] at hn
    have hv := k.fs.names _ _ (by rw [hn]; simp)
    have hkind : PathName.kind (splitBase (openPath parent name)).2 = .name := by
      simp_all [validName]
    have hd : k.fs.tree.isDir q = true :=
      (k.fs.tree.isDir_iff q).mpr (k.fs.parent _ _ (by rw [hn]; simp))
    refine hlink _ (q ++ [(splitBase (openPath parent name)).2]) n rfl hdir ?_ hn
    rw [Linux.walkPath_own hcanon hd hb hkind hlen, if_neg (by rw [hn]; simp)]
  · rw [if_neg hcreate] at hin hlink ⊢
    rw [if_neg hcreate]
    refine always_realPath h0 ?_ ?_
    · exact fun k' hk' => openDone_opened (k := k) (by exact hk') (by rfl) _
    intro k' ptr q hcore hq
    have hcore' : k'.core = k.core := hcore
    have hfs : k'.fs = k.fs := Linux.fs_eq_of_core hcore'
    have hq' : realPathResult k.fs (openPath parent name) = some q := hq
    have hcanon : k.fs.tree.Canonical q := realPathResult_canonical hq'
    have hm' : Mounted k'.fs parent.volume m := hfs ▸ hm
    rw [hq'] at hin
    rw [hq', Option.bind_some, ← openFileTarget_of_core hcore']
    refine Env.Always.mono (openFile_opened (Int.negSucc_lt_zero 0) fun hpre hfd => ?_)
      fun _ _ => Opened.of_core hcore'
    rcases hin _ rfl hpre with hmount | hbelow
    · obtain ⟨o, ho⟩ := Linux.open_some hfd
      refine ⟨o, ho, ?_⟩
      rw [hmount, storedPath_self]
      exact (hm'.open _ _ _).spot o.ino
    · obtain ⟨d, a, rfl, hr⟩ := render_below hm hcanon hbelow
      have hcanon' : k'.fs.tree.Canonical d := by
        rw [hfs]
        simpa using hcanon.dropLast
      have hplain : slash ∉ a := (k.fs.plain_of_canonical hcanon a (by simp)).1
      have hnul := k.fs.nul_not_mem_render hcanon
      rw [hr] at hfd hnul hbelow ⊢
      obtain ⟨o, ho, hspot⟩ := Linux.open_spot hcanon' hplain (fun n hn => by
        rw [hfs] at hn
        exact PathTree.Canonical.not_link hcanon hn) hfd
      exact ⟨o, ho, hspot.stored (hm'.open _ _ _) hnul (Linux.open_short hfd) (.inr hbelow)⟩

end Whole

theorem lklOpenVolume_opened {k : Linux} {volume : LklVolume} {m : List Name}
    (hm : Mounted k.fs volume m) :
    Linux.faulty.Always (lklOpenVolume volume) (Opened k none volume) k := by
  have hsame : (k.open volume.lklMountPoint O_RDONLY 0o644).2.fs = k.fs := by
    rw [Linux.open_fs_iff]
    rintro ⟨h, -⟩
    exact h rfl
  have hframe := k.open_frame volume.lklMountPoint O_RDONLY 0o644
  unfold lklOpenVolume
  apply Linux.always_open
  swap
  · intro fd hfd
    rw [if_pos hfd]
    exact .none ⟨le_rfl, fun _ _ => rfl⟩ (.inl rfl)
  by_cases hfd : (k.open volume.lklMountPoint O_RDONLY 0o644).1 < 0
  · rw [if_pos hfd]
    exact .none hframe (.inl (by rw [hsame]))
  rw [if_neg hfd]
  obtain ⟨hnext, hlimit⟩ := Linux.open_fresh (not_lt.mp hfd)
  obtain ⟨o, ho⟩ := Linux.open_some (not_lt.mp hfd)
  generalize k.open volume.lklMountPoint O_RDONLY 0o644 = x at hfd hsame hframe hnext hlimit ho
  obtain ⟨fd, k₁⟩ := x
  dsimp only at hfd hsame hframe hnext hlimit ho ⊢
  refine Env.always_bind.mpr (((Linux.always_core (lklAllocateIFile_quiet volume fd)).and
    (lklAllocateIFile_ends_with volume fd).always).mono ?_)
  rintro ⟨status, ifile⟩ k₂ ⟨hcore, hr⟩
  have hframe₂ := hframe.trans (.of_core hcore)
  have hfs₂ : k₂.fs = k.fs := (Linux.fs_eq_of_core hcore).trans hsame
  cases ifile with
  | none =>
    have herror : status.isError = true := hr
    dsimp only
    rw [if_pos herror, Linux.always_touch]
    refine Linux.always_ask.mpr ⟨?_, fun rc hrc => ?_⟩
    · refine .none (hframe₂.trans (Linux.close_frame ?_)) (.inl ?_)
      · omega
      · rw [Linux.handle_fs (c := .sysClose fd) rfl, hfs₂]
    · exact .none (hframe₂.trans ⟨le_rfl, fun _ _ => rfl⟩) (.inl (by rw [hfs₂]))
  | some f =>
    obtain ⟨hstatus, hf, hvolume, hpath⟩ := hr
    have hnext₂ : k₂.nextFd = k₁.nextFd := show k₂.core.nextFd = k₁.core.nextFd by rw [hcore]
    refine ⟨hframe₂, .inl (by rw [hfs₂]), fun g hg => ?_⟩
    cases hg
    refine ⟨hvolume, ?_, ?_, ?_, ?_⟩
    · show 0 ≤ f.fd
      omega
    · show k.nextFd ≤ f.fd.toNat
      omega
    · show f.fd.toNat < k₂.nextFd
      omega
    · have hmounted : Mounted k₁.fs volume m := hm.of_isDir (by rw [hsame]; exact hm.dir)
      have hspot := hmounted.spot o.ino
      have hname : ifilePath f.volume f = volume.lklMountPoint.val ++ [slash] := by
        rw [ifilePath, hvolume, hpath]
        rfl
      have hlinked : Linked k₁ { f with linuxOpenFlags := O_RDONLY } := ⟨o, hf ▸ ho, by
        show ∃ q a, Spot k₁ (ifilePath f.volume f) o.ino q a
        rw [hname]
        exact hspot⟩
      exact hlinked.of_core hcore

structure Closing (fd : Int) (k k' : Linux) : Prop where
  next : k'.nextFd = k.nextFd
  fds : ∀ n, n ≠ fd.toNat → (k'.fds n).map OpenFile.ino = (k.fds n).map OpenFile.ino

theorem lklIFileClose_closing (k : Linux) (f : LklIfile) :
    Linux.faulty.Always (lklIFileClose f) (fun _ k' => k'.fs = k.fs ∧ Closing f.fd k k') k := by
  refine Linux.always_ask.mpr ⟨?_, fun rc hrc => ?_⟩
  · rw [Linux.always_freePool]
    refine ⟨Linux.handle_fs (c := .sysClose f.fd) rfl k, ?_, fun n hn => ?_⟩
    · simp only [Linux.handle, Linux.close]
      split <;> rfl
    · simp only [Linux.handle, Linux.close]
      split
      · rfl
      · simp only [Linux.setFd, Function.update_of_ne hn]
  · rw [Linux.always_freePool]
    exact ⟨rfl, rfl, fun _ _ => rfl⟩

/-- What `LKLDelete` removes: nothing, or the file of the handle. -/
def Deleted (k : Linux) (f : LklIfile) (ino : Nat) (status : EfiStatus) (k' : Linux) : Prop :=
  k'.fs = k.fs ∧ status ≠ .success ∨
    ∃ p n, k.fs.tree.isDir p = false ∧ k.fs.node p = some n ∧ n.ino = ino ∧
      k'.fs = k.fs.remove p ∧ ∀ n', k'.lookup true (ifilePath f.volume f) ≠ .ok n'

section Delete

variable {k k₁ : Linux} {f : LklIfile} {ino : Nat} {q : List Name} {a : Name}

theorem unlink_deleted (h : Spot k (ifilePath f.volume f) ino q a) (hfs : k₁.fs = k.fs)
    (hclosing : Closing f.fd k k₁) (ptr : Ptr) :
    Linux.faulty.Always (do
      let rc ← lklSysUnlink (ifilePath f.volume f)
      freePool ptr
      pure (if rc = 0 then EfiStatus.success else .warnDeleteFailure))
      (fun status k' => Deleted k f ino status k' ∧ Closing f.fd k k') k₁ := by
  have hwarn : EfiStatus.warnDeleteFailure ≠ .success := by decide
  have hspot : Spot k₁ (ifilePath f.volume f) ino q a :=
    h.mono (by rw [hfs]; exact h.dir) fun _ n hn => by rwa [hfs] at hn
  refine Linux.always_ask.mpr ⟨?_, fun (rc : Int) hrc => ?_⟩
  · rw [Linux.always_freePool]
    rcases hspot.unlink with ⟨hsame, hrc⟩ | ⟨n, hn, hino, hd, hrem, hgone⟩
    · have hrc' : ¬(Linux.handle (.sysUnlink (ifilePath f.volume f)) k₁).1 = (0 : Int) := hrc
      have hsame' : (Linux.handle (.sysUnlink (ifilePath f.volume f)) k₁).2 = k₁ := hsame
      rw [if_neg hrc', hsame']
      exact ⟨.inl ⟨hfs, hwarn⟩, hclosing⟩
    · rw [hfs] at hn hd
      refine ⟨.inr ⟨_, n, hd, hn, hino, ?_, hgone⟩, ?_⟩
      · show (k₁.unlink (ifilePath f.volume f)).2.fs = _
        rw [hrem, hfs]
      · show Closing f.fd k (k₁.unlink (ifilePath f.volume f)).2
        rw [hrem]
        exact ⟨hclosing.next, hclosing.fds⟩
  · rw [Linux.always_freePool]
    have hneg : rc < 0 := of_decide_eq_true hrc
    rw [if_neg (by omega)]
    exact ⟨.inl ⟨hfs, hwarn⟩, hclosing.next, hclosing.fds⟩

theorem lklDelete_deleted (h : Spot k (ifilePath f.volume f) ino q a) :
    Linux.faulty.Always (lklDelete f)
      (fun status k' => Deleted k f ino status k' ∧ Closing f.fd k k') k := by
  have hclose : ∀ (k₁ : Linux) (next : Lkl EfiStatus), k₁.core = k.core →
      (∀ k₂ : Linux, k₂.fs = k.fs → Closing f.fd k k₂ → Linux.faulty.Always next
        (fun status k' => Deleted k f ino status k' ∧ Closing f.fd k k') k₂) →
      Linux.faulty.Always (do let _ ← lklIFileClose f; next)
        (fun status k' => Deleted k f ino status k' ∧ Closing f.fd k k') k₁ := by
    intro k₁ next hcore hnext
    refine Env.always_bind.mpr ((lklIFileClose_closing k₁ f).mono ?_)
    rintro _ k₂ ⟨hfs, hclosing⟩
    have hlimit : k₁.nextFd = k.nextFd := show k₁.core.nextFd = k.core.nextFd by rw [hcore]
    have hfds : k₁.fds = k.fds := show k₁.core.fds = k.core.fds by rw [hcore]
    refine hnext k₂ (hfs.trans (Linux.fs_eq_of_core hcore)) ⟨hclosing.next.trans hlimit, ?_⟩
    intro n hn
    rw [hclosing.fds n hn, hfds]
  unfold lklDelete
  apply Linux.always_allocatePool
  · exact hclose _ _ rfl fun k₂ hfs hclosing => unlink_deleted h hfs hclosing _
  · refine hclose _ _ rfl fun k₂ hfs hclosing => ?_
    exact ⟨.inl ⟨hfs, by decide⟩, hclosing⟩

end Delete

theorem lklWrite_keeps (w : Nat) (k : Linux) (f : LklIfile) (buffer : Bytes) :
    Linux.faulty.Always (lklWrite w f buffer)
      (fun r k' => r.2.2.2 = f ∧ k'.fs = k.fs ∧ k'.nextFd = k.nextFd ∧
        ∀ n, (k'.fds n).map OpenFile.ino = (k.fds n).map OpenFile.ino) k := by
  unfold lklWrite lklIFileAccess
  by_cases hdir : isDirMode f.statBuf.mode = true
  · rw [if_pos ⟨hdir, rfl⟩]
    exact ⟨rfl, rfl, rfl, fun _ => rfl⟩
  rw [if_neg fun h => hdir h.1]
  by_cases hro : f.volume.readOnly = true
  · rw [if_pos ⟨rfl, hro⟩]
    exact ⟨rfl, rfl, rfl, fun _ => rfl⟩
  rw [if_neg fun h => hro h.2, if_neg hdir, if_pos rfl]
  refine Linux.always_ask.mpr ⟨?_, fun (rc : Int) hrc => ?_⟩
  · have hfds : ∀ n, ((Linux.handle (.sysWrite f.fd buffer) k).2.fds n).map OpenFile.ino =
        (k.fds n).map OpenFile.ino := by
      intro n
      simp only [Linux.handle, Linux.write]
      cases hfd : k.fd f.fd with
      | none => rfl
      | some o =>
        dsimp only
        split
        · rfl
        · by_cases hn : n = f.fd.toNat
          · have ho : k.fds f.fd.toNat = some o := by
              simp only [Linux.fd] at hfd
              split at hfd
              · cases hfd
              · exact hfd
            simp [Linux.setFd, Linux.setInode, hn, ho]
          · simp [Linux.setFd, Linux.setInode, Function.update_of_ne hn]
    have hnext : (Linux.handle (.sysWrite f.fd buffer) k).2.nextFd = k.nextFd := by
      simp only [Linux.handle, Linux.write]
      repeat' split
      all_goals rfl
    have hfs : (Linux.handle (.sysWrite f.fd buffer) k).2.fs = k.fs := by
      simp only [Linux.handle, Linux.write]
      repeat' split
      all_goals rfl
    split <;> exact ⟨rfl, hfs, hnext, hfds⟩
  · rw [if_pos (of_decide_eq_true hrc)]
    exact ⟨rfl, rfl, rfl, fun _ => rfl⟩

structure World where
  kernel : Linux
  handles : List LklIfile

inductive Act where
  | openVolume
  | request (f : LklIfile) (r : Request)
  deriving DecidableEq

def Request.opensOrDeletes : Request → Bool
  | .open _ _ _ | .write _ | .delete | .close => true
  | _ => false

def World.change (handles : List LklIfile) (f : LklIfile) : HandleChange → List LklIfile
  | .kept f' => f' :: handles.erase f
  | .closed => handles.erase f
  | .opened new => new :: handles

/-- Opening the root, or a request on an open handle; system calls may fail. -/
inductive World.Step (w : Nat) (volume : LklVolume) : World → Act → EfiStatus → World → Prop where
  | openVolume {k k' : Linux} {handles : List LklIfile} {r : EfiStatus × Option LklIfile}
      (h : Linux.faulty.Ran (lklOpenVolume volume) k r k') :
      Step w volume ⟨k, handles⟩ .openVolume r.1 ⟨k', r.2.toList ++ handles⟩
  | request {k k' : Linux} {handles : List LklIfile} {f : LklIfile} {r : Request}
      {x : EfiStatus × HandleChange} (hf : f ∈ handles) (hr : r.opensOrDeletes = true)
      (h : Linux.faulty.Ran (r.serve w f) k x k') :
      Step w volume ⟨k, handles⟩ (.request f r) x.1 ⟨k', World.change handles f x.2⟩

inductive World.Run (w : Nat) (volume : LklVolume) (ok : World → Act → Prop) :
    World → World → Prop where
  | nil (s : World) : Run w volume ok s s
  | snoc {s s' s'' : World} {act : Act} {status : EfiStatus} (hrun : Run w volume ok s s')
      (hok : ok s' act) (hstep : World.Step w volume s' act status s'') : Run w volume ok s s''

def Linux.isLinkAt (k : Linux) (path : Bytes) : Bool :=
  match k.lookup false path with
  | .ok n => n.entry.isLink
  | .error _ => false

/-- The place, with nothing in it, that the path leads to. -/
def Linux.freePlace (k : Linux) (path : Bytes) : Option (List Name) :=
  match k.walkPath false path with
  | .missing d a => some (d ++ [a])
  | _ => none

/-- The path that a handle is opened under is inside the mount point, is not that of a link
which a creating open would follow, and is made anew only when no open handle has it. -/
structure Fits (k : Linux) (handles : List LklIfile) (parent : LklIfile)
    (fileName : Option (List UInt16)) (openMode attributes : UInt64) : Prop where
  inside : ∀ path ∈ openText k.fs parent fileName openMode attributes,
    startsWith path parent.volume.lklMountPoint = true → Inside parent.volume.lklMountPoint path
  noLink : ∀ path ∈ openText k.fs parent fileName openMode attributes,
    attributes &&& EFI_FILE_DIRECTORY = 0 → k.isLinkAt path = false
  free : ∀ g ∈ handles, ∀ p ∈ k.freePlace (ifilePath g.volume g),
    lklOpenTarget k parent fileName openMode attributes ≠ some p

def OpenFits (s : World) : Act → Prop
  | .request f (.open fileName openMode attributes) =>
    Fits s.kernel s.handles f fileName openMode attributes
  | _ => True

/-- An entry that went was the file's, and after a success its path does not lead to it. -/
structure DeletesOwn (k : Linux) (f : LklIfile) (ino : Nat) (status : EfiStatus) (k' : Linux) :
    Prop where
  removed : ∀ p n, k.fs.node p = some n → k'.fs.node p = none → n.ino = ino
  gone : status = .success → ∀ n, k'.lookup true (ifilePath f.volume f) = .ok n → n.ino ≠ ino

theorem Deleted.own {k k' : Linux} {f : LklIfile} {ino : Nat} {status : EfiStatus}
    (h : Deleted k f ino status k') : DeletesOwn k f ino status k' := by
  rcases h with ⟨hfs, hstatus⟩ | ⟨p, n, hd, hn, hino, hfs, hgone⟩
  · refine ⟨fun p n hn hn' => ?_, fun h => absurd h hstatus⟩
    rw [hfs, hn] at hn'
    cases hn'
  · refine ⟨fun q n' hn' hnone => ?_, fun _ n' hn' => absurd hn' (hgone n')⟩
    rw [hfs, FsTree.remove_node hd] at hnone
    by_cases hq : q = p
    · rw [hq, hn] at hn'
      cases hn'
      exact hino
    · rw [Function.update_of_ne hq, hn'] at hnone
      cases hnone

/-- Every open handle leads to its own file, and no two share a descriptor. -/
structure World.Good (volume : LklVolume) (m : List Name) (s : World) : Prop where
  mounted : Mounted s.kernel.fs volume m
  volume : ∀ f ∈ s.handles, f.volume = volume
  opened : ∀ f ∈ s.handles, 0 ≤ f.fd ∧ f.fd.toNat < s.kernel.nextFd
  linked : ∀ f ∈ s.handles, Linked s.kernel f
  distinct : (s.handles.map LklIfile.fd).Nodup

section Histories

variable {w : Nat} {volume : LklVolume} {m : List Name} {s s' : World} {k k' : Linux}
  {handles : List LklIfile} {f : LklIfile}

theorem World.Good.perm (h : World.Good volume m ⟨k, handles⟩) {handles' : List LklIfile}
    (hp : handles'.Perm handles) : World.Good volume m ⟨k, handles'⟩ where
  mounted := h.mounted
  volume f hf := h.volume f (hp.mem_iff.mp hf)
  opened f hf := h.opened f (hp.mem_iff.mp hf)
  linked f hf := h.linked f (hp.mem_iff.mp hf)
  distinct := (hp.map _).nodup_iff.mpr h.distinct

theorem World.Good.kept (h : World.Good volume m ⟨k, handles⟩) (hf : f ∈ handles) :
    World.Good volume m ⟨k, World.change handles f (.kept f)⟩ :=
  h.perm (List.perm_cons_erase hf).symm

theorem World.Good.fd_ne (h : World.Good volume m ⟨k, handles⟩) (hf : f ∈ handles) {g : LklIfile}
    (hg : g ∈ handles.erase f) : g ∈ handles ∧ g.fd.toNat ≠ f.fd.toNat := by
  have hg' := List.mem_of_mem_erase hg
  refine ⟨hg', fun hfd => ?_⟩
  have hnodup : handles.Nodup := h.distinct.of_map _
  have hpos := (h.opened f hf).1
  have hpos' := (h.opened g hg').1
  obtain rfl := List.inj_on_of_nodup_map h.distinct hg' hf (by omega)
  exact hnodup.not_mem_erase hg

/-- A handle leads to its file as long as its descriptor does, and nothing takes its place. -/
theorem Linked.keep (h : Linked k f) (hfd : (k'.fds f.fd.toNat).map OpenFile.ino =
      (k.fds f.fd.toNat).map OpenFile.ino)
    (hspot : ∀ ino q a, Spot k (ifilePath f.volume f) ino q a →
      Spot k' (ifilePath f.volume f) ino q a) : Linked k' f := by
  obtain ⟨o, ho, q, a, hq⟩ := h
  unfold Linux.fd at ho
  by_cases hneg : f.fd < 0
  · rw [if_pos hneg] at ho
    cases ho
  rw [if_neg hneg] at ho
  rw [ho, Option.map_some, Option.map_eq_some_iff] at hfd
  obtain ⟨o', ho', hino⟩ := hfd
  refine ⟨o', ?_, q, a, hino ▸ hspot _ _ _ hq⟩
  rw [Linux.fd, if_neg hneg, ho']

theorem World.Good.opening (h : World.Good volume m ⟨k, handles⟩) {target : Option (List Name)}
    {r : EfiStatus × Option LklIfile} (ho : Opened k target volume r k')
    (hfree : ∀ g ∈ handles, ∀ d b, k.walkPath false (ifilePath g.volume g) = .missing d b →
      target ≠ some (d ++ [b])) : World.Good volume m ⟨k', r.2.toList ++ handles⟩ := by
  have hold : ∀ g ∈ handles, (0 ≤ g.fd ∧ g.fd.toNat < k'.nextFd) ∧ Linked k' g := by
    intro g hg
    obtain ⟨hpos, hlt⟩ := h.opened g hg
    refine ⟨⟨hpos, hlt.trans_le ho.frame.next⟩, (h.linked g hg).keep (ho.frame.old _ hlt) ?_⟩
    intro ino q a hspot
    exact hspot.grows ho.tree (hfree g hg)
  have hm : Mounted k'.fs volume m := h.mounted.of_isDir (ho.tree.isDir h.mounted.dir)
  obtain ⟨status, new⟩ := r
  cases new with
  | none => exact ⟨hm, h.volume, fun g hg => (hold g hg).1, fun g hg => (hold g hg).2, h.distinct⟩
  | some new =>
    obtain ⟨hvolume, hpos, hnew, hlt, hlinked⟩ := ho.handle new rfl
    refine ⟨hm, ?_, ?_, ?_, ?_⟩
    · exact List.forall_mem_cons.mpr ⟨hvolume, h.volume⟩
    · exact List.forall_mem_cons.mpr ⟨⟨hpos, hlt⟩, fun g hg => (hold g hg).1⟩
    · exact List.forall_mem_cons.mpr ⟨hlinked, fun g hg => (hold g hg).2⟩
    · refine List.nodup_cons.mpr ⟨fun hmem => ?_, h.distinct⟩
      obtain ⟨g, hg, hfd⟩ := List.mem_map.mp hmem
      have hlimit : g.fd.toNat < k.nextFd := (h.opened g hg).2
      omega

theorem World.Good.closing (h : World.Good volume m ⟨k, handles⟩) (hf : f ∈ handles)
    (hc : Closing f.fd k k') (hm : Mounted k'.fs volume m)
    (hspot : ∀ path ino q a, Spot k path ino q a → Spot k' path ino q a) :
    World.Good volume m ⟨k', World.change handles f .closed⟩ where
  mounted := hm
  volume g hg := h.volume g (List.mem_of_mem_erase hg)
  opened g hg := by
    have := h.opened g (List.mem_of_mem_erase hg)
    rwa [hc.next]
  linked g hg := by
    obtain ⟨hg', hne⟩ := h.fd_ne hf hg
    exact (h.linked g hg').keep (hc.fds _ hne) (hspot _)
  distinct := h.distinct.sublist ((List.erase_sublist).map _)

theorem World.Good.serve (h : World.Good volume m ⟨k, handles⟩) (hf : f ∈ handles) {r : Request}
    (hr : r.opensOrDeletes = true) (hok : OpenFits ⟨k, handles⟩ (.request f r)) :
    Linux.faulty.Always (r.serve w f)
      (fun x k' => World.Good volume m ⟨k', World.change handles f x.2⟩) k := by
  have hvolume : f.volume = volume := h.volume f hf
  cases r with
  | «open» fileName openMode attributes =>
    have hfits : Fits k handles f fileName openMode attributes := hok
    have hm : Mounted k.fs f.volume m := by
      rw [hvolume]
      exact h.mounted
    have hlink : ∀ path p n, openText k.fs f fileName openMode attributes = some path →
        attributes &&& EFI_FILE_DIRECTORY = 0 → k.walkPath false path = .found p →
        k.fs.node p = some n → n.entry.isLink = false := by
      intro path p n hpath hdir hw hn
      have hnot := hfits.noLink path hpath hdir
      simpa only [Linux.isLinkAt, Linux.lookup, hw, hn] using hnot
    have hfree : ∀ g ∈ handles, ∀ d b, k.walkPath false (ifilePath g.volume g) = .missing d b →
        lklOpenTarget k f fileName openMode attributes ≠ some (d ++ [b]) := by
      intro g hg d b hw
      exact hfits.free g hg _ (by rw [Linux.freePlace, hw]; rfl)
    refine Env.always_bind.mpr ((lklOpen_opened hm hfits.inside hlink).mono ?_)
    rintro ⟨status, new⟩ k' ho
    rw [hvolume] at ho
    cases new with
    | none => exact (h.opening ho hfree).kept hf
    | some new => exact h.opening ho hfree
  | close =>
    refine Env.always_bind.mpr (Env.always_bind.mpr ((lklIFileClose_closing k f).mono ?_))
    rintro _ k' ⟨hfs, hc⟩
    refine h.closing hf hc (by rw [hfs]; exact h.mounted) fun path ino q a hspot => ?_
    exact hspot.mono (by rw [hfs]; exact hspot.dir) fun _ n hn => by rwa [hfs] at hn
  | delete =>
    obtain ⟨o, -, q, a, hspot⟩ := h.linked f hf
    refine Env.always_bind.mpr ((lklDelete_deleted hspot).mono ?_)
    rintro status k' ⟨hdeleted, hc⟩
    rcases hdeleted with ⟨hfs, -⟩ | ⟨p, n, hd, -, -, hfs, -⟩
    · refine h.closing hf hc (by rw [hfs]; exact h.mounted) fun path ino q a hspot => ?_
      exact hspot.mono (by rw [hfs]; exact hspot.dir) fun _ n hn => by rwa [hfs] at hn
    · have hne : m ≠ p := by
        rintro rfl
        have := h.mounted.dir
        rw [hd] at this
        cases this
      have hdir : k'.fs.tree.isDir m = true := by
        rw [PathTree.isDir_iff, FsTree.tree_entry, hfs, FsTree.remove_node hd,
          Function.update_of_ne hne]
        exact (k.fs.tree.isDir_iff m).mp h.mounted.dir
      exact h.closing hf hc (h.mounted.of_isDir hdir) fun path ino q a hspot =>
        hspot.removes hd hfs
  | write buffer =>
    refine Env.always_bind.mpr ((lklWrite_keeps w k f buffer).mono ?_)
    rintro ⟨status, size, data, f'⟩ k' ⟨rfl, hfs, hnext, hfds⟩
    refine World.Good.kept ⟨?_, h.volume, ?_, fun g hg => ?_, h.distinct⟩ hf
    · rw [hfs]
      exact h.mounted
    · rw [hnext]
      exact h.opened
    · refine (h.linked g hg).keep (hfds _) fun ino q a hspot => ?_
      exact hspot.mono (by rw [hfs]; exact hspot.dir) fun _ n hn => by rwa [hfs] at hn
  | _ => cases hr

theorem World.Good.step (h : s.Good volume m) {act : Act} {status : EfiStatus}
    (hok : OpenFits s act) (hstep : World.Step w volume s act status s') : s'.Good volume m := by
  cases hstep with
  | openVolume hran =>
    have ho := (lklOpenVolume_opened h.mounted).ran hran
    exact h.opening ho fun g hg d b _ => by simp
  | request hf hr hran => exact (h.serve hf hr hok).ran hran

theorem World.Good.run (h : s.Good volume m) (hrun : World.Run w volume OpenFits s s') :
    s'.Good volume m := by
  induction hrun with
  | nil => exact h
  | snoc hrun hok hstep ih => exact ih.step hok hstep

theorem World.Good.start {k : Linux} (hm : Mounted k.fs volume m) :
    World.Good volume m ⟨k, []⟩ where
  mounted := hm
  volume f hf := by cases hf
  opened f hf := by cases hf
  linked f hf := by cases hf
  distinct := List.nodup_nil

end Histories

/-- In a history whose opens all fit, what is deleted is the file of the handle. -/
theorem lklDelete_own {w : Nat} {volume : LklVolume} {m : List Name} {k : Linux} {s s' : World}
    {f : LklIfile} {status : EfiStatus} (hm : Mounted k.fs volume m)
    (hrun : World.Run w volume OpenFits ⟨k, []⟩ s)
    (hstep : World.Step w volume s (.request f .delete) status s') :
    ∃ o, s.kernel.fd f.fd = some o ∧ DeletesOwn s.kernel f o.ino status s'.kernel := by
  have hgood := (World.Good.start hm).run hrun
  cases hstep with
  | request hf hr hran =>
    obtain ⟨o, ho, q, a, hspot⟩ := hgood.linked f hf
    refine ⟨o, ho, ?_⟩
    have hdeleted : Linux.faulty.Always (Request.serve w f .delete)
        (fun x k' => Deleted _ f o.ino x.1 k') _ :=
      Env.always_bind.mpr ((lklDelete_deleted hspot).mono fun status k' h => h.1)
    exact (hdeleted.ran hran).own

def World.play (w : Nat) (volume : LklVolume) (s : World) : Option (Nat × Request) → World
  | none =>
    let x := (lklOpenVolume volume).run Linux.handle s.kernel
    ⟨x.2, x.1.2.toList ++ s.handles⟩
  | some (i, r) =>
    match s.handles[i]? with
    | none => s
    | some f =>
      let x := (r.serve w f).run Linux.handle s.kernel
      ⟨x.2, World.change s.handles f x.1.2⟩

section Plays

variable {w : Nat} {volume : LklVolume} {s s' : World}

theorem World.step_openVolume (w : Nat) (volume : LklVolume) (s : World) :
    World.Step w volume s .openVolume ((lklOpenVolume volume).run Linux.handle s.kernel).1.1
      (s.play w volume none) :=
  .openVolume (Env.ran_run (fun _ _ => Or.inl rfl) _ _)

theorem World.step_request {i : Nat} {r : Request} {f : LklIfile} (hf : s.handles[i]? = some f)
    (hr : r.opensOrDeletes = true) :
    World.Step w volume s (.request f r) ((r.serve w f).run Linux.handle s.kernel).1.1
      (s.play w volume (some (i, r))) := by
  rw [World.play, hf]
  exact .request (List.mem_of_getElem? hf) hr (Env.ran_run (fun _ _ => Or.inl rfl) _ _)

theorem World.run_play (hrun : World.Run w volume (fun _ _ => True) s s')
    {act : Option (Nat × Request)} (hact : act.all (fun a => a.2.opensOrDeletes) = true) :
    World.Run w volume (fun _ _ => True) s (s'.play w volume act) := by
  cases act with
  | none => exact .snoc hrun trivial (World.step_openVolume w volume s')
  | some act =>
    obtain ⟨i, r⟩ := act
    cases hf : s'.handles[i]? with
    | none =>
      simp only [World.play, hf]
      exact hrun
    | some f => exact .snoc hrun trivial (World.step_request hf hact)

theorem World.run_plays (hrun : World.Run w volume (fun _ _ => True) s s')
    {acts : List (Option (Nat × Request))}
    (hacts : ∀ act ∈ acts, act.all (fun a => a.2.opensOrDeletes) = true) :
    World.Run w volume (fun _ _ => True) s (acts.foldl (World.play w volume) s') := by
  induction acts generalizing s' with
  | nil => exact hrun
  | cons act acts ih =>
    obtain ⟨hact, hacts⟩ := List.forall_mem_cons.mp hacts
    exact ih (World.run_play hrun hact) hacts

end Plays

def startWorld : World := ⟨{ Linux.boot with fs := mountedTree, nextIno := 3 }, []⟩

def openedRoot : LklIfile where
  ptr := 1
  volume := mountedVolume
  fd := 3
  linuxOpenFlags := O_RDONLY
  statBuf := ⟨fileMode true 0o755, 4096, 8, 0, 0⟩
  filePath := .of []
  dir := none
  dirEnt := none

def createA : Request := .open (some [0x61])
  (EFI_FILE_MODE_READ ||| EFI_FILE_MODE_WRITE ||| EFI_FILE_MODE_CREATE) 0

def openedA : LklIfile where
  ptr := 6
  volume := mountedVolume
  fd := 4
  linuxOpenFlags := O_RDWR ||| O_CREAT
  statBuf := ⟨fileMode false 0o600, 0, 0, 0, 0⟩
  filePath := .of (ascii ['a'])
  dir := none
  dirEnt := none

theorem openedRoot_handles :
    (startWorld.play 64 mountedVolume none).handles = [openedRoot] := by
  decide +kernel

theorem openedA_handles : ((startWorld.play 64 mountedVolume none).play 64 mountedVolume
    (some (0, createA))).handles = [openedA, openedRoot] := by
  decide +kernel

/-- The file that has just been created is the one that goes. -/
theorem lklDelete_own_created :
    let s := (startWorld.play 64 mountedVolume none).play 64 mountedVolume (some (0, createA))
    ∃ o, s.kernel.fd openedA.fd = some o ∧ DeletesOwn s.kernel openedA o.ino
      ((Request.delete.serve 64 openedA).run Linux.handle s.kernel).1.1
      (s.play 64 mountedVolume (some (0, .delete))).kernel := by
  have hm : Mounted startWorld.kernel.fs mountedVolume [ascii ['m', 'n', 't'], ascii ['1']] :=
    ⟨by decide, by decide, by decide⟩
  have hfits : OpenFits (startWorld.play 64 mountedVolume none) (.request openedRoot createA) := by
    show Fits _ _ openedRoot (some [0x61]) _ 0
    rw [openedRoot_handles]
    exact ⟨by decide +kernel, by decide +kernel, by decide +kernel⟩
  have hroot := World.step_openVolume 64 mountedVolume startWorld
  have hcreate : World.Step 64 mountedVolume _ (.request openedRoot createA) _ _ :=
    World.step_request (i := 0) (congrArg (fun hs : List LklIfile => hs[0]?) openedRoot_handles) rfl
  have hdelete : World.Step 64 mountedVolume _ (.request openedA .delete) _ _ :=
    World.step_request (i := 0) (congrArg (fun hs : List LklIfile => hs[0]?) openedA_handles) rfl
  have hfirst : OpenFits startWorld .openVolume := trivial
  exact lklDelete_own hm (.snoc (.snoc (.nil startWorld) hfirst hroot) hfits hcreate) hdelete

def RemovesAnother (w : Nat) (s : World) (i : Nat) (p : List Name) : Bool :=
  (s.handles[i]?).any fun f => (s.kernel.fd f.fd).any fun o => (s.kernel.fs.node p).any fun n =>
    n.ino ≠ o.ino &&
      (((Request.delete.serve w f).run Linux.handle s.kernel).2.fs.node p).isNone

theorem exists_not_deletesOwn {w i : Nat} {s : World} {p : List Name}
    (h : RemovesAnother w s i p = true) (volume : LklVolume) :
    ∃ f status s', World.Step w volume s (.request f .delete) status s' ∧
      ∃ o, s.kernel.fd f.fd = some o ∧ ¬DeletesOwn s.kernel f o.ino status s'.kernel := by
  simp only [RemovesAnother, Option.any_eq_true, Bool.and_eq_true, decide_eq_true_eq,
    Option.isNone_iff_eq_none] at h
  obtain ⟨f, hf, o, ho, n, hn, hne, hgone⟩ := h
  have hran := Env.ran_run (E := Linux.faulty) (h := Linux.handle) (fun _ _ => Or.inl rfl)
    (Request.delete.serve w f) s.kernel
  exact ⟨f, _, _, .request (List.mem_of_getElem? hf) rfl hran, o, ho,
    fun hown => hne (hown.removed p n hn hgone)⟩

/-- A file is created and opened once more, deleted through its first handle, and created again. -/
def recreation : List (Option (Nat × Request)) :=
  [none, some (0, createA), some (1, openA), some (1, .delete), some (1, createA)]
where
  openA := .open (some [0x61]) (EFI_FILE_MODE_READ ||| EFI_FILE_MODE_WRITE) 0

/-- The file that another handle made anew is deleted. -/
theorem lklDelete_removes_another :
    ¬∀ (s s' : World) (f : LklIfile) (status : EfiStatus),
      World.Run 64 mountedVolume (fun _ _ => True) startWorld s →
      World.Step 64 mountedVolume s (.request f .delete) status s' →
      ∀ o, s.kernel.fd f.fd = some o → DeletesOwn s.kernel f o.ino status s'.kernel := by
  intro h
  have hrun : World.Run 64 mountedVolume (fun _ _ => True) startWorld
      (recreation.foldl (World.play 64 mountedVolume) startWorld) :=
    World.run_plays (.nil startWorld) (by decide)
  have hanother : RemovesAnother 64 (recreation.foldl (World.play 64 mountedVolume) startWorld) 1
      [ascii ['m', 'n', 't'], ascii ['1'], [0x61]] = true := by
    decide +kernel
  generalize recreation.foldl (World.play 64 mountedVolume) startWorld = s at hrun hanother
  obtain ⟨f, status, s', hstep, o, ho, hown⟩ := exists_not_deletesOwn hanother mountedVolume
  exact hown (h s s' f status hrun hstep o ho)

end UefiLkl
