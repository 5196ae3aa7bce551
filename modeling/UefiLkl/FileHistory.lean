import UefiLkl.FileStore
set_option autoImplicit false

/-!
Opening and closing as a store of byte sequences sees them, and whole histories of a volume.
-/

namespace UefiLkl
open Interaction ByteStore

/-- Old descriptors and files are as they were, and new files are empty. -/
structure Linux.Grown (k k' : Linux) : Prop where
  nextFd : k.nextFd ≤ k'.nextFd
  fds : ∀ n < k.nextFd, k'.fds n = k.fds n
  nextIno : k.nextIno ≤ k'.nextIno
  old : ∀ i, i < k.nextIno ∨ k'.nextIno ≤ i → k'.inode i = k.inode i
  empty : ∀ i, k.nextIno ≤ i → i < k'.nextIno → (k'.inode i).size = 0
  sound : k.Sound → k'.Sound

section Opening

variable {k k₁ k' : Linux} {path : Bytes} {flags mode : Nat} {volume : LklVolume}
  {l : OpenLocals} {f : LklIfile}

theorem Linux.Grown.refl (k : Linux) : k.Grown k :=
  ⟨le_rfl, fun _ _ => rfl, le_rfl, fun _ _ => rfl, fun _ _ _ => by omega, id⟩

theorem Linux.Grown.trans (h : k.Grown k₁) (h' : k₁.Grown k') : k.Grown k' := by
  have hfd := h.nextFd
  have hfd' := h'.nextFd
  have hino := h.nextIno
  have hino' := h'.nextIno
  refine ⟨by omega, fun n hn => ?_, by omega, fun i hi => ?_, fun i hi hi' => ?_,
    h'.sound ∘ h.sound⟩
  · rw [h'.fds n (by omega), h.fds n hn]
  · rw [h'.old i (by omega), h.old i (by omega)]
  · by_cases hlt : i < k₁.nextIno
    · rw [h'.old i (.inl hlt)]
      exact h.empty i hi hlt
    · exact h'.empty i (by omega) hi'

theorem Linux.Grown.of_core (hcore : k'.core = k.core) : k.Grown k' := by
  have hfds : k'.fds = k.fds := show k'.core.fds = k.core.fds by rw [hcore]
  have hinode : k'.inode = k.inode := show k'.core.inode = k.core.inode by rw [hcore]
  have hnextFd : k'.nextFd = k.nextFd := show k'.core.nextFd = k.core.nextFd by rw [hcore]
  have hnextIno : k'.nextIno = k.nextIno := show k'.core.nextIno = k.core.nextIno by rw [hcore]
  have hfs := Linux.fs_eq_of_core hcore
  refine ⟨by omega, fun _ _ => by rw [hfds], by omega, fun _ _ => by rw [hinode],
    fun i hi hi' => by omega, fun hk => ⟨?_, ?_, ?_⟩⟩
  · rw [hfs, hnextIno]
    exact hk.nodes
  · rw [hfds, hnextIno]
    exact hk.files
  · rw [hinode]
    exact hk.tidy

theorem Linux.grown_faulted (k : Linux) : k.Grown { k with faulted := true } := .of_core rfl

theorem FsTree.insert_node_cases {F : FsTree} {d p : List Name} {a : Name} {n m : FsNode}
    (h : (F.insert d a n).node p = some m) : F.node p = some m ∨ m = n := by
  unfold FsTree.insert at h
  split at h
  · change Function.update F.node (d ++ [a]) (some n) p = some m at h
    by_cases hp : p = d ++ [a]
    · rw [hp, Function.update_self] at h
      exact .inr (Option.some.inj h).symm
    · rw [Function.update_of_ne hp] at h
      exact .inl h
  · exact .inl h

theorem Linux.create_grown (k : Linux) (d : List Name) (a : Name) (isDir : Bool) (mode : Nat) :
    k.Grown (k.create d a isDir mode) := by
  refine ⟨le_rfl, fun _ _ => rfl, Nat.le_succ _, fun i hi => ?_, fun i hi hi' => ?_,
    fun hk => ⟨fun p n hn => ?_, fun n o ho => ?_, fun i n hn => ?_⟩⟩
  · have hne : i ≠ k.nextIno := by
      simp only [Linux.create] at hi
      omega
    exact Function.update_of_ne hne _ _
  · obtain rfl : i = k.nextIno := by
      simp only [Linux.create] at hi'
      omega
    simp [Linux.create]
  · rcases FsTree.insert_node_cases hn with hn | rfl
    · exact Nat.lt_succ_of_lt (hk.nodes p n hn)
    · cases isDir <;> exact Nat.lt_succ_self _
  · exact Nat.lt_succ_of_lt (hk.files n o ho)
  · by_cases hi : i = k.nextIno
    · simp [Linux.create, hi]
    · simp only [Linux.create, Function.update_of_ne hi] at hn ⊢
      exact hk.tidy i n hn

theorem Linux.mkdir_grown (k : Linux) (path : Bytes) (mode : Nat) :
    k.Grown (k.mkdir path mode).2 := by
  unfold Linux.mkdir
  split
  · exact .refl k
  · split
    · exact k.create_grown _ _ _ _
    · exact .refl k
  · exact .refl k

theorem Linux.install_grown (k : Linux) (p : List Name) (n : FsNode) (flags : Nat)
    (hn : k.Sound → n.ino < k.nextIno) : k.Grown (k.install p n flags).2 := by
  refine ⟨Nat.le_succ _, fun m hm => ?_, le_rfl, fun _ _ => rfl, fun i hi hi' => ?_,
    fun hk => ⟨hk.nodes, fun m o ho => ?_, hk.tidy⟩⟩
  · have hne : m ≠ k.nextFd := by omega
    exact Function.update_of_ne hne _ _
  · simp only [Linux.install] at hi'
    omega
  · by_cases hm : m = k.nextFd
    · simp only [Linux.install, hm, Function.update_self, Option.some.injEq] at ho
      rw [← ho]
      exact hn hk
    · simp only [Linux.install, Function.update_of_ne hm] at ho
      exact hk.files m o ho

theorem Linux.open_grown (k : Linux) (path : Bytes) (flags mode : Nat) :
    k.Grown (k.open path flags mode).2 := by
  unfold Linux.open
  dsimp only
  split
  · exact .refl k
  split
  · next p _ =>
    split
    · exact .refl k
    · next n hn =>
      split
      · exact .refl k
      · exact k.install_grown p n flags fun hk => hk.nodes p n hn
  · split
    · exact .refl k
    · split
      · refine (k.create_grown _ _ false mode).trans (Linux.install_grown _ _ _ flags fun _ => ?_)
        exact Nat.lt_succ_self _
      · exact .refl k
  · exact .refl k

theorem Linux.Grown.close {fd : Int} (h : k.Grown k₁) (hfd : k.nextFd ≤ fd.toNat) :
    k.Grown (k₁.close fd).2 := by
  unfold Linux.close
  split
  · exact h
  · refine ⟨h.nextFd, fun n hn => ?_, h.nextIno, h.old, h.empty, fun hk => ?_⟩
    · have hne : n ≠ fd.toNat := by omega
      simp only [Linux.setFd, Function.update_of_ne hne]
      exact h.fds n hn
    · have hsound := h.sound hk
      refine ⟨hsound.nodes, fun n o ho => ?_, hsound.tidy⟩
      by_cases hn : n = fd.toNat
      · simp [Linux.setFd, hn] at ho
      · simp only [Linux.setFd, Function.update_of_ne hn] at ho
        exact hsound.files n o ho

/-- The handle that is returned, if any, is at the start of the file it describes. -/
structure Opens (k : Linux) (r : EfiStatus × Option LklIfile) (k' : Linux) : Prop where
  grown : k.Grown k'
  handle : ∀ f, r.2 = some f → 0 ≤ f.fd ∧ k.nextFd ≤ f.fd.toNat ∧ f.fd.toNat < k'.nextFd ∧
    ∃ o, k'.fd f.fd = some o ∧ o.pos = 0 ∧ f.statBuf = (k'.inode o.ino).stat

theorem Opens.none {status : EfiStatus} (h : k.Grown k') : Opens k (status, none) k' :=
  ⟨h, fun f hf => by cases hf⟩

theorem Opens.some {status : EfiStatus} {fd : Int} {o : OpenFile} (h : k.Grown k₁)
    (hcore : k'.core = k₁.core) (ho : k₁.fd fd = some o) (hpos : o.pos = 0) (hnew : fd = k.nextFd)
    (hlimit : k.nextFd < k₁.nextFd) (hf : f.fd = fd) (hstat : f.statBuf = (k₁.inode o.ino).stat) :
    Opens k (status, some f) k' := by
  have hnext : k'.nextFd = k₁.nextFd := show k'.core.nextFd = k₁.core.nextFd by rw [hcore]
  have hfds : k'.fds = k₁.fds := show k'.core.fds = k₁.core.fds by rw [hcore]
  have hinode : k'.inode = k₁.inode := show k'.core.inode = k₁.core.inode by rw [hcore]
  refine ⟨h.trans (.of_core hcore), ?_⟩
  rintro g hg
  cases hg
  refine ⟨by omega, by omega, by omega, o, ?_, hpos, ?_⟩
  · rw [hf, ← ho]
    simp only [Linux.fd, hfds]
  · rw [hstat, hinode]

theorem Opens.grow {r : EfiStatus × Option LklIfile} (h : k.Grown k₁) (hr : Opens k₁ r k') :
    Opens k r k' := by
  refine ⟨h.trans hr.grown, fun f hf => ?_⟩
  obtain ⟨hpos, hnew, hlt, ho⟩ := hr.handle f hf
  exact ⟨hpos, h.nextFd.trans hnew, hlt, ho⟩

theorem openDone_grown (h : k.Grown k₁) (hl : l.fd < 0 ∨ k.nextFd ≤ l.fd.toNat)
    (status : EfiStatus) :
    Linux.faulty.Always (openDone l status none) (Opens k) k₁ := by
  have hfree : ∀ k₂ : Linux, k.Grown k₂ → Linux.faulty.Always (openDone.openFree l status none)
      (fun _ k' => k.Grown k') k₂ := by
    intro k₂ h₂
    refine (Linux.always_core (openFree_quiet l status none)).mono fun _ k' hcore => ?_
    exact h₂.trans (.of_core hcore)
  have hall : Linux.faulty.Always (openDone l status none) (fun _ k' => k.Grown k') k₁ := by
    unfold openDone
    split
    · next hfd =>
      refine Linux.always_ask.mpr ⟨hfree _ (h.close ?_), fun x _ => hfree _ ?_⟩
      · have := hfd.2
        omega
      · exact h.trans (.of_core rfl)
    · exact hfree k₁ h
  refine (hall.and (openDone_ends_with l status none).always).mono ?_
  rintro r k' ⟨hgrown, rfl⟩
  exact .none hgrown

theorem lklAllocateIFile_described {fd : Int} {o : OpenFile} (ho : k.fd fd = some o)
    (volume : LklVolume) :
    Linux.faulty.Always (lklAllocateIFile volume fd) (fun r k' => k'.core = k.core ∧
      match r.2 with
      | none => r.1.isError = true
      | some f => r.1 = .success ∧ f.fd = fd ∧ f.statBuf = (k.inode o.ino).stat) k := by
  unfold lklAllocateIFile
  refine Linux.always_allocatePool ?_ ⟨rfl, rfl⟩
  have hfstat : k.alloc.2.fstat fd = (0, (k.inode o.ino).stat) := by
    have ho' : k.alloc.2.fd fd = some o := ho
    simp only [Linux.fstat, ho']
    rfl
  have hzero : ¬(0 : Int) ≠ 0 := by decide
  refine Linux.always_fstat ?_ fun x hneg => ?_
  · rw [hfstat]
    dsimp only
    rw [if_neg hzero]
    exact ⟨rfl, rfl, rfl, rfl⟩
  · obtain ⟨rc, st⟩ := x
    have hrc : rc ≠ 0 := by
      dsimp only at hneg
      omega
    have herror := lklError2EfiError_isError hrc
    dsimp only
    rw [if_pos hrc, if_pos herror, Linux.always_freePool]
    exact ⟨rfl, herror⟩

theorem Linux.open_new {flags mode : Nat} (hfd : 0 ≤ (k.open path flags mode).1) :
    ∃ o, (k.open path flags mode).2.fd (k.open path flags mode).1 = some o ∧ o.pos = 0 := by
  rcases Linux.open_success hfd with ⟨p, n, -, -, h⟩ | ⟨d, b, -, -, h⟩ <;>
    · rw [h]
      exact ⟨_, Linux.fd_install _ _ _ _, rfl⟩

theorem openFile_opens (hl : l.fd < 0) :
    Linux.faulty.Always (openFile volume l path flags mode) (Opens k) k := by
  unfold openFile
  split
  · exact openDone_grown (.refl k) (.inl hl) _
  have hgrown := k.open_grown path flags mode
  apply Linux.always_open
  swap
  · intro fd hfd
    rw [if_pos hfd]
    exact openDone_grown k.grown_faulted (.inl hl) _
  by_cases hfd : (k.open path flags mode).1 < 0
  · rw [if_pos hfd]
    exact openDone_grown hgrown (.inl hl) _
  rw [if_neg hfd]
  obtain ⟨hnext, hlimit⟩ := Linux.open_fresh (not_lt.mp hfd)
  obtain ⟨o, ho, hpos⟩ := Linux.open_new (not_lt.mp hfd)
  generalize k.open path flags mode = x at hfd hgrown hnext hlimit ho
  obtain ⟨fd, k₁⟩ := x
  dsimp only at hfd hgrown hnext hlimit ho ⊢
  have hfresh : k.nextFd ≤ fd.toNat := by omega
  refine Env.always_bind.mpr ((lklAllocateIFile_described ho volume).mono ?_)
  rintro ⟨status, ifile⟩ k₂ ⟨hcore, hr⟩
  have hgrown₂ := hgrown.trans (.of_core hcore)
  cases ifile with
  | none =>
    have herror : status.isError = true := hr
    dsimp only
    rw [if_pos herror]
    exact openDone_grown hgrown₂ (.inr hfresh) _
  | some f =>
    obtain ⟨hstatus, hf, hstat⟩ := hr
    dsimp only at hstatus ⊢
    subst hstatus
    rw [if_neg (by decide)]
    refine (openDone_returns_core _).mono ?_
    rintro _ k₃ ⟨rfl, hcore₃⟩
    exact .some hgrown (hcore₃.trans hcore) ho hpos hnext (by omega) hf hstat

theorem openCreate_opens (hl : l.fd < 0) (abs base : Bytes) (attributes : UInt64) :
    Linux.faulty.Always (openCreate volume l abs base flags mode attributes) (Opens k) k := by
  unfold openCreate
  refine Linux.always_allocatePool ?_ (openDone_grown k.grown_faulted (.inl hl) _)
  have hrest : ∀ k₁ : Linux, k.Grown k₁ → ∀ (path : Bytes) (l : OpenLocals), l.fd < 0 →
      Linux.faulty.Always (if attributes &&& EFI_FILE_DIRECTORY ≠ 0 then do
          let rc ← lklSysMkdir path mode
          if rc ≠ 0 then openDone l (lklError2EfiError rc) none
          else openFile volume l path O_RDONLY 0
        else openFile volume l path flags mode) (Opens k) k₁ := by
    intro k₁ h₁ path l hl
    split
    · have hmkdir : ∀ (rc : Int) (k₂ : Linux), k.Grown k₂ → Linux.faulty.Always
          (if rc ≠ 0 then openDone l (lklError2EfiError rc) none
          else openFile volume l path O_RDONLY 0) (Opens k) k₂ := by
        intro rc k₂ h₂
        split
        · exact openDone_grown h₂ (.inl hl) _
        · exact (openFile_opens hl).mono fun _ _ => .grow h₂
      exact Linux.always_mkdir (hmkdir _ _ (h₁.trans (k₁.mkdir_grown path mode)))
        fun rc _ => hmkdir rc _ (h₁.trans k₁.grown_faulted)
    · exact (openFile_opens hl).mono fun _ _ => .grow h₁
  refine Env.always_bind.mpr ((Linux.always_core (freeUnlessNull_quiet l.absFilePath)).mono ?_)
  exact fun _ k₁ hcore => hrest k₁ (.of_core (hcore.trans k.core_alloc)) _ _ hl

theorem lklOpen_opens_handle (parent : LklIfile) (fileName : Option (List UInt16))
    (openMode attributes : UInt64) :
    Linux.faulty.Always (lklOpen parent fileName openMode attributes) (Opens k) k := by
  unfold lklOpen
  cases fileName with
  | none => exact .none (.refl k)
  | some name =>
  dsimp only
  rcases openFlags parent.volume.readOnly openMode attributes with status | ⟨flags, mode⟩
  · exact .none (.refl k)
  have hl : (-1 : Int) < 0 := by decide
  have halloc : k.Grown k.alloc.2 := .of_core rfl
  refine Linux.always_allocatePool ?_ (openDone_grown k.grown_faulted (.inl hl) _)
  refine Linux.always_allocatePool ?_
    (openDone_grown (halloc.trans k.alloc.2.grown_faulted) (.inl hl) _)
  have hgrown : k.Grown k.alloc.2.alloc.2 := .of_core rfl
  have h0 := nul_not_mem_openPath parent name
  dsimp only
  split
  · split
    · exact openDone_grown hgrown (.inl hl) _
    · rw [Linux.always_touch]
      refine Env.always_bind.mpr ((realPath_always_result _ (nul_not_mem_splitBase h0)).mono ?_)
      rintro r k₁ ⟨hcore, -⟩
      have h₁ := hgrown.trans (.of_core hcore)
      cases r with
      | none => exact openDone_grown h₁ (.inl hl) _
      | some r => exact (openCreate_opens hl _ _ _).mono fun _ _ => .grow h₁
  · refine Env.always_bind.mpr ((realPath_always_result _ h0).mono ?_)
    rintro r k₁ ⟨hcore, -⟩
    have h₁ := hgrown.trans (.of_core hcore)
    cases r with
    | none => exact openDone_grown h₁ (.inl hl) _
    | some r => exact (openFile_opens hl).mono fun _ _ => .grow h₁

theorem lklOpenVolume_opens (volume : LklVolume) :
    Linux.faulty.Always (lklOpenVolume volume) (Opens k) k := by
  unfold lklOpenVolume
  have hgrown := k.open_grown volume.lklMountPoint O_RDONLY 0o644
  apply Linux.always_open
  swap
  · intro fd hfd
    rw [if_pos hfd]
    exact .none k.grown_faulted
  by_cases hfd : (k.open volume.lklMountPoint O_RDONLY 0o644).1 < 0
  · rw [if_pos hfd]
    exact .none hgrown
  rw [if_neg hfd]
  obtain ⟨hnext, hlimit⟩ := Linux.open_fresh (not_lt.mp hfd)
  obtain ⟨o, ho, hpos⟩ := Linux.open_new (not_lt.mp hfd)
  generalize k.open volume.lklMountPoint O_RDONLY 0o644 = x at hfd hgrown hnext hlimit ho
  obtain ⟨fd, k₁⟩ := x
  dsimp only at hfd hgrown hnext hlimit ho ⊢
  refine Env.always_bind.mpr ((lklAllocateIFile_described ho volume).mono ?_)
  rintro ⟨status, ifile⟩ k₂ ⟨hcore, hr⟩
  have hgrown₂ := hgrown.trans (.of_core hcore)
  cases ifile with
  | none =>
    have herror : status.isError = true := hr
    dsimp only
    rw [Linux.always_touch, if_pos herror]
    refine Linux.always_ask.mpr ⟨.none (hgrown₂.close (by omega)), fun _ _ => ?_⟩
    exact .none (hgrown₂.trans k₂.grown_faulted)
  | some f =>
    obtain ⟨hstatus, hf, hstat⟩ := hr
    exact .some hgrown hcore ho hpos hnext (by omega) hf hstat

end Opening

structure Linux.Dropped (k : Linux) (fd : Int) (k' : Linux) : Prop where
  nodes : ∀ p n, k'.fs.node p = some n → k.fs.node p = some n
  fds : ∀ n, n ≠ fd.toNat → k'.fds n = k.fds n
  own : ∀ o, k'.fds fd.toNat = some o → k.fds fd.toNat = some o
  nextFd : k'.nextFd = k.nextFd
  nextIno : k'.nextIno = k.nextIno
  inode : k'.inode = k.inode

def Call.drops (fd : Int) : Call → Bool
  | .sysClose fd' => fd' = fd
  | .allocatePool _ | .freePool _ | .sysUnlink _ => true
  | _ => false

section Closing

variable {w : Nat} {k k' : Linux} {handles : List LklIfile} {f : LklIfile} {fd : Int}

theorem Linux.Dropped.handle {c : Call} (h : k.Dropped fd k') (hc : c.drops fd = true) :
    k.Dropped fd (Linux.handle c k').2 := by
  cases c with
  | allocatePool size => exact ⟨h.nodes, h.fds, h.own, h.nextFd, h.nextIno, h.inode⟩
  | freePool ptr => exact h
  | sysClose fd' =>
    obtain rfl : fd' = fd := of_decide_eq_true hc
    simp only [Linux.handle, Linux.close]
    split
    · exact h
    · refine ⟨h.nodes, fun n hn => ?_, fun o ho => ?_, h.nextFd, h.nextIno, h.inode⟩
      · rw [← h.fds n hn]
        exact Function.update_of_ne hn _ _
      · simp [Linux.setFd] at ho
  | sysUnlink path =>
    simp only [Linux.handle, Linux.unlink]
    split
    · next p _ =>
      split
      · exact h
      · next hdir =>
        refine ⟨fun q n hn => ?_, h.fds, h.own, h.nextFd, h.nextIno, h.inode⟩
        have hnode := FsTree.remove_node (Bool.eq_false_iff.mpr hdir)
        change (k'.fs.remove p).node q = some n at hn
        rw [hnode] at hn
        by_cases hq : q = p
        · simp [hq] at hn
        · rw [Function.update_of_ne hq] at hn
          exact h.nodes q n hn
    · exact h
    · exact h
  | _ => cases hc

theorem always_dropped {α : Type} {p : Lkl α} (hp : p.Only fun c => c.drops fd = true) :
    Linux.faulty.Always p (fun _ k' => k.Dropped fd k') k := by
  refine Env.always_of_invariant (I := fun k' => k.Dropped fd k') ?_ hp
    ⟨fun _ _ h => h, fun _ _ => rfl, fun _ h => h, rfl, rfl, rfl⟩
  rintro g c x g' hc hg (hx | ⟨-, rfl⟩)
  · obtain ⟨-, rfl⟩ := Prod.mk.inj hx
    exact hg.handle hc
  · exact ⟨hg.nodes, hg.fds, hg.own, hg.nextFd, hg.nextIno, hg.inode⟩

theorem lklIFileClose_drops (f : LklIfile) :
    (lklIFileClose f).Only fun c => c.drops f.fd = true :=
  Prog.only_ask_bind.mpr ⟨decide_eq_true rfl, fun _ => ⟨rfl, fun _ => trivial⟩⟩

theorem lklDelete_drops (f : LklIfile) : (lklDelete f).Only fun c => c.drops f.fd = true := by
  refine Prog.only_ask_bind.mpr ⟨rfl, fun ptr => (lklIFileClose_drops f).bind fun _ => ?_⟩
  cases ptr with
  | none => trivial
  | some ptr => exact ⟨rfl, fun _ => ⟨rfl, fun _ => trivial⟩⟩

theorem World.Sound.fd_dropped (h : World.Sound ⟨k, handles⟩) (hf : f ∈ handles)
    (hd : k.Dropped f.fd k') (g : LklIfile) (hg : g ∈ handles.erase f) :
    g.fd ≠ f.fd ∧ k'.fd g.fd = k.fd g.fd := by
  have hg' := List.mem_of_mem_erase hg
  have hpos := (h.opened f hf).1
  have hgpos := (h.opened g hg').1
  have hnodup : handles.Nodup := h.distinct.of_map _
  have hfd : g.fd ≠ f.fd := by
    intro heq
    obtain rfl := List.inj_on_of_nodup_map h.distinct hg' hf heq
    exact hnodup.not_mem_erase hg
  refine ⟨hfd, ?_⟩
  rw [Linux.fd_eq_fds hgpos, Linux.fd_eq_fds hgpos, hd.fds _ (by omega)]

theorem World.Sound.closing (h : World.Sound ⟨k, handles⟩) (hf : f ∈ handles)
    (hd : k.Dropped f.fd k') : World.Sound ⟨k', handles.erase f⟩ := by
  refine ⟨⟨?_, ?_, ?_⟩, ?_, ?_, ?_⟩
  · intro p n hn
    rw [hd.nextIno]
    exact h.kernel.nodes p n (hd.nodes p n hn)
  · intro n o ho
    rw [hd.nextIno]
    by_cases hn : n = f.fd.toNat
    · rw [hn] at ho
      exact h.kernel.files _ o (hd.own o ho)
    · rw [hd.fds n hn] at ho
      exact h.kernel.files n o ho
  · rw [hd.inode]
    exact h.kernel.tidy
  · intro g hg
    rw [hd.nextFd]
    exact h.opened g (List.mem_of_mem_erase hg)
  · intro g hg
    obtain ⟨o, ho, hkind⟩ := h.described g (List.mem_of_mem_erase hg)
    exact ⟨o, by rw [(h.fd_dropped hf hd g hg).2, ho], by rw [hkind, hd.inode]⟩
  · exact h.distinct.sublist (List.erase_sublist.map _)

theorem World.Sound.store_closing (h : World.Sound ⟨k, handles⟩) (hf : f ∈ handles)
    (hd : k.Dropped f.fd k') :
    World.store ⟨k', handles.erase f⟩ = (World.store ⟨k, handles⟩).setCursor f.fd none := by
  refine Store.ext ?_ (funext fun fd => ?_)
  · change (fun i => (k'.inode i).bytes) = fun i => (k.inode i).bytes
    rw [hd.inode]
  · change (if fd ∈ World.files ⟨k', handles.erase f⟩ then (k'.fd fd).map OpenFile.cursor
      else none) = Function.update (World.store ⟨k, handles⟩).cursor f.fd none fd
    by_cases hfd : fd = f.fd
    · subst hfd
      rw [Function.update_self, if_neg fun hmem => ?_]
      obtain ⟨g, hg, hgfd⟩ := List.mem_map.mp hmem
      exact (h.fd_dropped hf hd g (List.mem_of_mem_filter hg)).1 hgfd
    · rw [Function.update_of_ne hfd]
      change _ = if fd ∈ World.files ⟨k, handles⟩ then _ else none
      by_cases hmem : fd ∈ World.files ⟨k, handles⟩
      · obtain ⟨g, hg, rfl⟩ := List.mem_map.mp hmem
        obtain ⟨hg, hregular⟩ := List.mem_filter.mp hg
        have hg' : g ∈ handles.erase f :=
          (List.mem_erase_of_ne fun heq => hfd (by rw [heq])).mpr hg
        have hmem' : g.fd ∈ World.files ⟨k', handles.erase f⟩ :=
          List.mem_map.mpr ⟨g, List.mem_filter.mpr ⟨hg', hregular⟩, rfl⟩
        rw [if_pos hmem, if_pos hmem', (h.fd_dropped hf hd g hg').2]
      · rw [if_neg hmem, if_neg fun hmem' => hmem ?_]
        obtain ⟨g, hg, rfl⟩ := List.mem_map.mp hmem'
        obtain ⟨hg, hregular⟩ := List.mem_filter.mp hg
        exact List.mem_map.mpr
          ⟨g, List.mem_filter.mpr ⟨List.mem_of_mem_erase hg, hregular⟩, rfl⟩

end Closing

section Histories

variable {w : Nat} {short : Bool} {k k' : Linux} {handles : List LklIfile} {f : LklIfile}
  {r : EfiStatus × Option LklIfile} {s s' : World} {as : List (Access UInt8 Nat Int)}

theorem World.Sound.perm (h : World.Sound ⟨k, handles⟩) {handles' : List LklIfile}
    (hp : handles'.Perm handles) : World.Sound ⟨k, handles'⟩ ∧
      World.store ⟨k, handles'⟩ = World.store ⟨k, handles⟩ := by
  constructor
  · exact ⟨h.kernel, fun f hf => h.opened f (hp.mem_iff.mp hf),
      fun f hf => h.described f (hp.mem_iff.mp hf), (hp.map _).nodup_iff.mpr h.distinct⟩
  · refine Store.ext rfl (funext fun fd => ?_)
    have hfiles : fd ∈ World.files ⟨k, handles'⟩ ↔ fd ∈ World.files ⟨k, handles⟩ :=
      ((hp.filter _).map _).mem_iff
    exact if_congr hfiles rfl rfl

theorem World.Sound.file_lt (h : World.Sound ⟨k, handles⟩) {fd : Int} {c : Cursor Nat}
    (hc : (World.store ⟨k, handles⟩).cursor fd = some c) : c.file < k.nextIno := by
  change (if fd ∈ World.files ⟨k, handles⟩ then (k.fd fd).map OpenFile.cursor else none) =
    some c at hc
  split at hc
  · obtain ⟨o, ho, rfl⟩ := Option.map_eq_some_iff.mp hc
    exact h.kernel.files _ o (Linux.fds_of_fd ho).2
  · cases hc

theorem World.store_cons {o : OpenFile} (ho : k.fd f.fd = some o) :
    World.store ⟨k, f :: handles⟩ =
      if f.regular then (World.store ⟨k, handles⟩).setCursor f.fd (some o.cursor)
      else World.store ⟨k, handles⟩ := by
  cases hregular : f.regular with
  | false =>
    have hfiles : World.files ⟨k, f :: handles⟩ = World.files ⟨k, handles⟩ := by
      simp [World.files, hregular]
    refine Store.ext rfl (funext fun fd => ?_)
    change (if fd ∈ World.files ⟨k, f :: handles⟩ then (k.fd fd).map OpenFile.cursor else none) = _
    rw [hfiles]
    rfl
  | true =>
    have hfiles : World.files ⟨k, f :: handles⟩ = f.fd :: World.files ⟨k, handles⟩ := by
      simp [World.files, hregular]
    refine Store.ext rfl (funext fun fd => ?_)
    change (if fd ∈ World.files ⟨k, f :: handles⟩ then (k.fd fd).map OpenFile.cursor else none) =
      Function.update (World.store ⟨k, handles⟩).cursor f.fd _ fd
    rw [hfiles]
    by_cases hfd : fd = f.fd
    · subst hfd
      rw [Function.update_self, if_pos (List.mem_cons_self ..), ho, Option.map_some]
    · rw [Function.update_of_ne hfd]
      exact if_congr (by simp [hfd]) rfl rfl

theorem World.Sound.fd_grown (h : World.Sound ⟨k, handles⟩) (hg : k.Grown k') (g : LklIfile)
    (hmem : g ∈ handles) : k'.fd g.fd = k.fd g.fd := by
  obtain ⟨hpos, hlt⟩ := h.opened g hmem
  rw [Linux.fd_eq_fds hpos, Linux.fd_eq_fds hpos, hg.fds _ hlt]

theorem World.Sound.made (h : World.Sound ⟨k, handles⟩) (hg : k.Grown k') :
    Store.Run 0 (World.store ⟨k, handles⟩) (k.made k') (World.store ⟨k', handles⟩) := by
  have hstore : World.store ⟨k', handles⟩ = ⟨fun i =>
      if i ∈ List.range' k.nextIno (k'.nextIno - k.nextIno) then []
      else (World.store ⟨k, handles⟩).bytes i, (World.store ⟨k, handles⟩).cursor⟩ := by
    refine Store.ext (funext fun i => ?_) (funext fun fd => ?_)
    · have hnext := hg.nextIno
      change (k'.inode i).bytes = if i ∈ _ then [] else (k.inode i).bytes
      simp only [List.mem_range'_1]
      split
      · next hi => simp [Inode.bytes, hg.empty i hi.1 (by omega)]
      · next hi => rw [hg.old i (by omega)]
    · change (if fd ∈ World.files ⟨k', handles⟩ then (k'.fd fd).map OpenFile.cursor else none) =
        if fd ∈ World.files ⟨k, handles⟩ then (k.fd fd).map OpenFile.cursor else none
      by_cases hfd : fd ∈ World.files ⟨k, handles⟩
      · obtain ⟨g, hg', rfl⟩ := List.mem_map.mp hfd
        rw [if_pos hfd, if_pos (show g.fd ∈ World.files ⟨k', handles⟩ from hfd),
          h.fd_grown hg g (List.mem_of_mem_filter hg')]
      · rw [if_neg hfd, if_neg (show fd ∉ World.files ⟨k', handles⟩ from hfd)]
  rw [hstore]
  refine Store.Run.made fun i hi c o hcursor => ?_
  have hlt := h.file_lt hcursor
  have hle := (List.mem_range'_1.mp hi).1
  omega

theorem World.Sound.opening (h : World.Sound ⟨k, handles⟩) (ho : Opens k r k') :
    World.Sound ⟨k', r.2.toList ++ handles⟩ ∧
      Store.Run 0 (World.store ⟨k, handles⟩)
        (k.made k' ++ r.2.toList.flatMap fun f => k'.turns f (.opened f))
        (World.store ⟨k', r.2.toList ++ handles⟩) := by
  have hg := ho.grown
  have hdescribed : ∀ g ∈ handles, ∃ o, k'.fd g.fd = some o ∧
      isDirMode g.statBuf.mode = (k'.inode o.ino).isDir := by
    intro g hg'
    obtain ⟨o, ho', hkind⟩ := h.described g hg'
    refine ⟨o, by rw [h.fd_grown hg g hg', ho'], ?_⟩
    rw [hkind, hg.old _ (.inl (h.kernel.files _ o (Linux.fds_of_fd ho').2))]
  have hopened : ∀ g ∈ handles, 0 ≤ g.fd ∧ g.fd.toNat < k'.nextFd := fun g hg' =>
    ⟨(h.opened g hg').1, (h.opened g hg').2.trans_le hg.nextFd⟩
  have hmade := h.made hg
  obtain ⟨status, new⟩ := r
  cases new with
  | none => exact ⟨⟨hg.sound h.kernel, hopened, hdescribed, h.distinct⟩, by simpa using hmade⟩
  | some new =>
    obtain ⟨hpos, hnew, hlt, o, ho', hstart, hstat⟩ := ho.handle new rfl
    have hfresh : ∀ g ∈ handles, g.fd ≠ new.fd := by
      intro g hg' heq
      have hlimit : g.fd.toNat < k.nextFd := (h.opened g hg').2
      omega
    have hkind : isDirMode new.statBuf.mode = (k'.inode o.ino).isDir := by
      rw [hstat]
      exact (k'.inode o.ino).isDirMode_mode
    refine ⟨⟨hg.sound h.kernel, ?_, ?_, ?_⟩, ?_⟩
    · exact List.forall_mem_cons.mpr ⟨⟨hpos, hlt⟩, hopened⟩
    · exact List.forall_mem_cons.mpr ⟨⟨o, ho', hkind⟩, hdescribed⟩
    · refine List.nodup_cons.mpr ⟨fun hmem => ?_, h.distinct⟩
      obtain ⟨g, hg', hfd⟩ := List.mem_map.mp hmem
      exact hfresh g hg' hfd
    · have hfits :
          (Access.opened new.fd o.ino (o.flags &&& 3 ≠ O_RDONLY) : Access UInt8 Nat Int).Fits
            (World.store ⟨k', handles⟩) := by
        refine if_neg fun hmem => ?_
        obtain ⟨g, hg', hfd⟩ := List.mem_map.mp hmem
        exact hfresh g (List.mem_of_mem_filter hg') hfd
      have hturns : ([new].flatMap fun f => k'.turns f (.opened f)) =
          if new.regular then [.opened new.fd o.ino (o.flags &&& 3 ≠ O_RDONLY)] else [] := by
        simp [Linux.turns, ho']
      change Store.Run 0 _ (k.made k' ++ [new].flatMap _) (World.store ⟨k', new :: handles⟩)
      rw [hturns, World.store_cons ho']
      refine hmade.trans ?_
      cases new.regular with
      | false => exact .nil _
      | true =>
        have hcursor : o.cursor = ⟨o.ino, 0, o.flags &&& 3 ≠ O_RDONLY⟩ := by
          rw [OpenFile.cursor, hstart]
        rw [hcursor]
        exact .single hfits

theorem World.Sound.served (h : World.Sound ⟨k, handles⟩) (hf : f ∈ handles) {o : OpenFile}
    {r : Request} {x : Reply × HandleChange} (ho : k.fd f.fd = some o)
    (hs : Handled short k f o r x k') :
    World.Sound ⟨k', World.change handles f x.2⟩ ∧
      Store.Run 0 (World.store ⟨k, handles⟩)
        (k.access short f r x.1 ++ k.made k' ++ k'.turns f x.2)
        (World.store ⟨k', World.change handles f x.2⟩) := by
  obtain ⟨⟨f', hchange, hfd, hstat⟩, pos, data, hserving, hexplains⟩ := hs
  have hmade : k.made k' = [] := by simp [Linux.made, hserving.nextIno]
  have hturns : k'.turns f x.2 = [] := by rw [hchange]; rfl
  rw [hmade, hturns, List.append_nil, List.append_nil, hchange]
  refine ⟨h.serving hf ho hserving hfd hstat, ?_⟩
  rw [h.store_serving hf ho hserving hfd hstat]
  have hcursor : (World.store ⟨k, handles⟩).cursor f.fd =
      if f.fd ∈ World.files ⟨k, handles⟩ then some o.cursor else none := by
    change (if f.fd ∈ _ then (k.fd f.fd).map OpenFile.cursor else none) = _
    rw [ho, Option.map_some]
  rcases hexplains with ⟨has, rfl, rfl⟩ | ⟨a, has, ha⟩
  · have hsame : ((World.store ⟨k, handles⟩).put o.ino (k.inode o.ino).bytes).move f.fd o.pos =
        World.store ⟨k, handles⟩ := by
      change ((World.store ⟨k, handles⟩).put o.ino ((World.store ⟨k, handles⟩).bytes o.ino)).move
        f.fd o.pos = _
      rw [Store.put_self]
      refine Store.move_self fun c hc => ?_
      rw [hcursor] at hc
      split at hc
      · cases hc
        rfl
      · cases hc
    rw [has, hsame]
    exact .nil _
  · cases hregular : f.regular with
    | false =>
      rw [Linux.access_directory hregular] at has
      cases has
    | true =>
      have hmem : f.fd ∈ World.files ⟨k, handles⟩ :=
        List.mem_map.mpr ⟨f, List.mem_filter.mpr ⟨hf, hregular⟩, rfl⟩
      obtain ⟨hfits, happly⟩ := ha _ (hcursor.trans (if_pos hmem)) rfl
      rw [has, ← happly]
      exact .single hfits

/-- Whatever is requested, and whatever fails, the accesses account for it. -/
theorem World.Sound.request (h : World.Sound ⟨k, handles⟩) (hf : f ∈ handles) (r : Request) :
    (Linux.answering short).Always (r.reply w f)
      (fun x k' => World.Sound ⟨k', World.change handles f x.2⟩ ∧
        Store.Run 0 (World.store ⟨k, handles⟩)
          (k.access short f r x.1 ++ k.made k' ++ k'.turns f x.2)
          (World.store ⟨k', World.change handles f x.2⟩)) k := by
  obtain ⟨o, ho, hkind⟩ := h.described f hf
  have hclosed : ∀ (r : Request) (x : Reply) (k' : Linux), k.Dropped f.fd k' →
      (∀ size, o.access short size f.fd r x = []) →
      World.Sound ⟨k', handles.erase f⟩ ∧
        Store.Run 0 (World.store ⟨k, handles⟩) (k.access short f r x ++ k.made k' ++ [.closed f.fd])
          (World.store ⟨k', handles.erase f⟩) := by
    intro r x k' hd hx
    have hmade : k.made k' = [] := by simp [Linux.made, hd.nextIno]
    rw [Linux.access_eq_nil ho hx, hmade, h.store_closing hf hd]
    exact ⟨h.closing hf hd, Store.Run.single (a := .closed f.fd) trivial⟩
  cases r with
  | «open» fileName openMode attributes =>
    refine Linux.always_answering ?_ (reply_firm w f (by simp) (by simp) (by simp))
    refine Env.always_bind.mpr (Env.always_bind.mpr
      ((lklOpen_opens_handle f fileName openMode attributes).mono ?_))
    rintro ⟨status, new⟩ k' hopens
    obtain ⟨hsound, hstore⟩ := h.opening hopens
    cases new with
    | none =>
      obtain ⟨hsound', hstore'⟩ := hsound.perm (List.perm_cons_erase hf).symm
      refine ⟨hsound', ?_⟩
      change Store.Run 0 _ (k.access short f _ _ ++ k.made k' ++ [])
        (World.store ⟨k', f :: handles.erase f⟩)
      rw [Linux.access_eq_nil ho fun _ => rfl, hstore']
      exact hstore
    | some new =>
      refine ⟨hsound, ?_⟩
      change Store.Run 0 _ (k.access short f _ _ ++ k.made k' ++ k'.turns new (.opened new))
        (World.store ⟨k', [new] ++ handles⟩)
      rw [Linux.access_eq_nil ho fun _ => rfl]
      simpa using hstore
  | close =>
    refine Linux.always_answering ?_ (reply_firm w f (by simp) (by simp) (by simp))
    refine Env.always_bind.mpr (Env.always_bind.mpr (Env.always_bind.mpr
      ((always_dropped (lklIFileClose_drops f)).mono ?_)))
    exact fun _ k' hd => hclosed _ _ k' hd fun _ => rfl
  | delete =>
    refine Linux.always_answering ?_ (reply_firm w f (by simp) (by simp) (by simp))
    refine Env.always_bind.mpr (Env.always_bind.mpr
      ((always_dropped (lklDelete_drops f)).mono ?_))
    exact fun _ k' hd => hclosed _ _ k' hd fun _ => rfl
  | _ =>
    refine (request_served h.kernel ho (h.opened f hf).2 hkind rfl).mono ?_
    exact fun x k' hs => h.served hf ho hs

theorem World.Sound.run (h : s.Sound) (hrun : World.Serves w short s as s') :
    s'.Sound ∧ Store.Run 0 s.store as s'.store := by
  induction hrun with
  | nil => exact ⟨h, .nil _⟩
  | openVolume _ hran ih =>
    obtain ⟨hsound, hstore⟩ := ih.1.opening
      ((Linux.always_answering (lklOpenVolume_opens _) (lklOpenVolume_firm _)).ran hran)
    exact ⟨hsound, ih.2.trans hstore⟩
  | request _ hf hran ih =>
    obtain ⟨hsound, hstore⟩ := (ih.1.request hf _).ran hran
    exact ⟨hsound, ih.2.trans hstore⟩

theorem World.Sound.start (hk : k.Sound) : World.Sound ⟨k, []⟩ where
  kernel := hk
  opened f hf := by cases hf
  described f hf := by cases hf
  distinct := List.nodup_nil

end Histories

/-- In every history, whatever fails, what is read and told through the handles is what a store of
byte sequences would give, and what is written, resized and opened does to the files what it does
there. So every byte that is read is the one that was last written at its place, through whichever
handle, or left there by a change of size. -/
theorem files_are_byte_sequences {w : Nat} {short : Bool} {k : Linux} {s : World}
    {as : List (Access UInt8 Nat Int)} (hk : k.Sound) (hrun : World.Serves w short ⟨k, []⟩ as s) :
    Store.Run 0 (World.store ⟨k, []⟩) as s.store ∧
      ∀ before after fd ino pos len data, as = before ++ .read fd ino pos len data :: after →
        ∀ j < data.length, data[j]?.getD 0 =
          before.foldl (fun b a => a.leaves 0 ino (pos + j) b)
            ((k.inode ino).bytes[pos + j]?.getD 0) := by
  have hstore := ((World.Sound.start hk).run hrun).2
  refine ⟨hstore, fun before after fd ino pos len data has j hj => ?_⟩
  rw [has] at hstore
  exact hstore.read hj

/-- The calls that `Linux.reading` answers as a volume in use may meet it. -/
def Call.answered (fd : Int) : Call → Bool
  | .touch .ifile _ _ _ | .sysWrite _ [] => false
  | .sysOpenat fd' _ _ _ => fd' = fd
  | _ => true

theorem Linux.answering_reading {short : Bool} {fd : Int} (dir : List Name) (name : Bytes)
    (k : Linux) {c : Call} (hc : c.answered fd = true) :
    (Linux.answering short).may k c (Linux.reading fd dir name c k).1
      (Linux.reading fd dir name c k).2 := by
  refine .inl ?_
  cases c with
  | touch buffer off len size => cases buffer <;> first | rfl | cases hc
  | sysRead fd' len => exact ⟨len, le_rfl, fun _ => rfl, rfl⟩
  | sysWrite fd' data =>
    cases data with
    | nil => cases hc
    | cons b data =>
      refine ⟨(b :: data).length, fun _ => le_rfl, ?_⟩
      rw [List.take_length]
      rfl
  | sysOpenat fd' name' flags mode =>
    obtain rfl : fd' = fd := of_decide_eq_true hc
    refine ⟨dir, ?_⟩
    simp [Linux.reading]
  | _ => rfl

/-- A handle is given by its place. What is not answered so is left out. -/
def World.playServes (w : Nat) (volume : LklVolume) (answer : Handler Call Call.Ans Linux)
    (fd : Int) (x : World × List (Access UInt8 Nat Int)) : Option (Nat × Request) →
    World × List (Access UInt8 Nat Int)
  | none =>
    let y := (lklOpenVolume volume).run answer x.1.kernel
    if ((lklOpenVolume volume).trace answer x.1.kernel).all fun e => e.1.answered fd then
      (⟨y.2, y.1.2.toList ++ x.1.handles⟩,
        x.2 ++ (x.1.kernel.made y.2 ++ y.1.2.toList.flatMap fun f => y.2.turns f (.opened f)))
    else x
  | some (i, r) =>
    match x.1.handles[i]? with
    | none => x
    | some f =>
      let y := (r.reply w f).run answer x.1.kernel
      if ((r.reply w f).trace answer x.1.kernel).all fun e => e.1.answered fd then
        (⟨y.2, World.change x.1.handles f y.1.2⟩,
          x.2 ++ (x.1.kernel.access false f r y.1.1 ++ x.1.kernel.made y.2 ++ y.2.turns f y.1.2))
      else x

theorem World.serves_plays {w : Nat} (volume : LklVolume) (dir : List Name) (name : Bytes)
    (fd : Int) {s : World} {x : World × List (Access UInt8 Nat Int)}
    (hrun : World.Serves w false s x.2 x.1) (acts : List (Option (Nat × Request))) :
    World.Serves w false s
      (acts.foldl (World.playServes w volume (Linux.reading fd dir name) fd) x).2
      (acts.foldl (World.playServes w volume (Linux.reading fd dir name) fd) x).1 := by
  have hran : ∀ {α : Type} (p : Lkl α) (k : Linux),
      (p.trace (Linux.reading fd dir name) k).all (fun e => e.1.answered fd) = true →
      (Linux.answering false).Ran p k (p.run (Linux.reading fd dir name) k).1
        (p.run (Linux.reading fd dir name) k).2 := fun p k hall =>
    Env.ran_trace (fun k _ hc => Linux.answering_reading dir name k hc) (List.all_eq_true.mp hall)
  induction acts generalizing x with
  | nil => exact hrun
  | cons act acts ih =>
    refine ih ?_
    cases act with
    | none =>
      simp only [World.playServes]
      split
      · next hall => exact .openVolume hrun (hran _ _ hall)
      · exact hrun
    | some act =>
      obtain ⟨i, r⟩ := act
      simp only [World.playServes]
      split
      · exact hrun
      · next f hf =>
        split
        · next hall => exact .request hrun (List.mem_of_getElem? hf) (hran _ _ hall)
        · exact hrun

theorem startWorld_sound : startWorld.kernel.Sound where
  nodes p n hn := by
    change n.ino < 3
    have hmounted : mountedTree.node p = some n := hn
    rcases FsTree.insert_node_cases hmounted with hn | rfl
    · rcases FsTree.insert_node_cases hn with hn | rfl
      · change (if p = [] then some (.dir 0) else none) = some n at hn
        split at hn <;> cases hn
        decide
      · decide
    · decide
  files n o ho := by cases ho
  tidy i n _ := rfl

/-- A file is created, listed and opened once more; one handle writes behind a gap and cuts the
file, and the other reads. -/
def sharedFile : List (Option (Nat × Request)) :=
  [none, some (0, createA), some (1, .read 200), some (0, .getInfo .fileSystemInfo 100),
    some (0, recreation.openA), some (0, .setPosition 2), some (0, .write [7, 8]),
    some (2, .read 10), some (1, .setInfo .fileInfo 84 { newFileInfo 84 [] with fileSize := 3 }),
    some (1, .setPosition 0), some (0, .read 10)]

theorem files_are_byte_sequences_shared : ∃ s : World,
    Store.Run 0 startWorld.store
      [.made 3, .opened 4 3 true, .opened 6 3 true, .seek 6 3 2, .write 6 3 2 [7, 8],
        .read 4 3 0 10 [0, 0, 7, 8], .resized 6 3 3, .seek 4 3 0, .read 4 3 0 10 [0, 0, 7]]
      s.store ∧
    [0, 0, 7, (8 : UInt8)][2]?.getD 0 =
      [Access.made 3, .opened (4 : Int) 3 true, .opened 6 3 true, .seek 6 3 2,
        .write 6 3 2 [7, 8]].foldl (fun b a => a.leaves 0 3 (0 + 2) b)
        ((startWorld.kernel.inode 3).bytes[0 + 2]?.getD 0) := by
  have hresult : (sharedFile.foldl (World.playServes 64 mountedVolume
      (Linux.reading 3 [ascii ['m', 'n', 't'], ascii ['1']] (ascii ['a'])) 3)
      (startWorld, [])).2 =
      [.made 3, .opened 4 3 true, .opened 6 3 true, .seek 6 3 2, .write 6 3 2 [7, 8],
        .read 4 3 0 10 [0, 0, 7, 8], .resized 6 3 3, .seek 4 3 0,
        .read 4 3 0 10 [0, 0, 7]] := by decide +kernel
  have hnil : World.Serves 64 false startWorld [] startWorld := .nil startWorld
  have hserves := World.serves_plays mountedVolume [ascii ['m', 'n', 't'], ascii ['1']]
    (ascii ['a']) 3 (x := (startWorld, [])) hnil sharedFile
  generalize sharedFile.foldl (World.playServes 64 mountedVolume _ 3) (startWorld, []) = x at *
  rw [hresult] at hserves
  obtain ⟨hrun, hread⟩ := files_are_byte_sequences (k := startWorld.kernel) startWorld_sound hserves
  exact ⟨x.1, hrun, hread [.made 3, .opened 4 3 true, .opened 6 3 true, .seek 6 3 2,
    .write 6 3 2 [7, 8]] _ 4 3 0 10 [0, 0, 7, 8] rfl 2 (by decide)⟩

end UefiLkl
