import UefiLkl.InfoLaws
import UefiLkl.OpenAtomic
set_option autoImplicit false

/-!
What an open that creates nothing returns when no call fails.
-/

namespace UefiLkl
open Interaction PathWalk

theorem Linux.handle_setFaulted (c : Call) (k : Linux) (b : Bool) :
    Linux.handle c { k with faulted := b } =
      ((Linux.handle c k).1, { (Linux.handle c k).2 with faulted := b }) := by
  cases c <;> simp only [Linux.handle, Linux.alloc, Linux.mkdir, Linux.open, Linux.close,
    Linux.read, Linux.write, Linux.lseek, Linux.ftruncate, Linux.utime, Linux.chmod,
    Linux.unlink, Linux.lstat, Linux.fstat, Linux.readlink, Linux.lookup, Linux.walkPath,
    Linux.fd, Linux.install, Linux.create, Linux.setFd, Linux.setInode] <;>
    (repeat' split) <;> rfl

theorem Linux.run_setFaulted {α : Type} (p : Lkl α) (k : Linux) (b : Bool) :
    p.run Linux.handle { k with faulted := b } =
      ((p.run Linux.handle k).1, { (p.run Linux.handle k).2 with faulted := b }) := by
  induction p generalizing k with
  | ret a => rfl
  | call c f ih =>
    rw [Prog.run_call, Prog.run_call, Linux.handle_setFaulted]
    exact ih _ _

theorem realPath_run (k : Linux) {name : Bytes} (h0 : 0 ∉ name) :
    ((realPath (some name) none).run Linux.handle k).1.map Prod.snd =
        (realPathResult k.fs name).map render ∧
      ((realPath (some name) none).run Linux.handle k).2.core = k.core := by
  have hrun := Linux.always_run (realPath_always_result { k with faulted := false } h0)
  have hfault := Linux.run_faulted (realPath (some name) none) { k with faulted := false }
  rw [Linux.run_setFaulted] at hrun
  obtain ⟨hcore, hr⟩ := hrun
  rcases hr with ⟨hbad, -⟩ | hr
  · cases hbad
  · exact ⟨hr, hcore⟩

structure NewHandle (k k' : Linux) (volume : LklVolume) (q : List Name) (n : FsNode) (flags : Nat)
    (f : LklIfile) : Prop where
  belongs : f.volume = volume
  openedWith : f.linuxOpenFlags = flags
  descriptor : k'.fd f.fd = some ⟨n.ino, flags, 0⟩
  stat : f.statBuf = (k.inode n.ino).stat
  path : f.filePath = storedPath volume (render q)
  stream : f.dir = none ∧ f.dirEnt = none
  tree : k'.fs = k.fs
  inodes : k'.inode = k.inode
  reached : k'.reached = k.reached ++ [q]

section Run

variable {k k₁ : Linux} {parent : LklIfile} {fileName : List UInt16} {openMode attributes : UInt64}
  {flags mode : Nat} {q : List Name} {n : FsNode} {volume : LklVolume}

theorem lklOpen_run (k : Linux) (fileName : List UInt16)
    (hflags : openFlags parent.volume.readOnly openMode attributes = .ok (flags, mode))
    (hcreate : createMode openMode = false) :
    ∃ (r : Option (Ptr × Bytes)) (l : OpenLocals) (k₁ : Linux),
      r.map Prod.snd = (realPathResult k.fs (openPath parent fileName)).map render ∧
      k₁.core = k.core ∧ l.fd = -1 ∧
      (lklOpen parent (some fileName) openMode attributes).run Linux.handle k =
        match r with
        | none => (openDone l .notFound none).run Linux.handle k₁
        | some (ptr, abs) => (openFile parent.volume { l with absFilePath := some ptr } abs flags
            mode).run Linux.handle k₁ := by
  obtain ⟨hresult, hcore⟩ := realPath_run k.alloc.2.alloc.2 (nul_not_mem_openPath parent fileName)
  rcases hrun : (realPath (some (openPath parent fileName)) none).run Linux.handle k.alloc.2.alloc.2
    with ⟨r, k₁⟩
  rw [hrun] at hresult hcore
  refine ⟨r, ⟨-1, some k.nextPtr, some k.alloc.2.nextPtr, none⟩, k₁, hresult, hcore, rfl, ?_⟩
  unfold lklOpen
  dsimp only
  rw [hflags]
  dsimp only
  rw [Linux.run_allocatePool]
  dsimp only
  rw [Linux.run_allocatePool]
  dsimp only
  rw [if_neg (by simp [hcreate]), Prog.run_bind, hrun]
  cases r <;> rfl

theorem openFile_run_opened {path : Bytes} {l : OpenLocals} {o : OpenFile}
    (hpre : startsWith path volume.lklMountPoint = true) (hok : 0 ≤ (k.open path flags mode).1)
    (hfd : (k.open path flags mode).2.fd (k.open path flags mode).1 = some o) :
    (openFile volume l path flags mode).run Linux.handle k =
      ((.success, some ⟨(k.open path flags mode).2.nextPtr, volume, (k.open path flags mode).1,
        flags, ((k.open path flags mode).2.inode o.ino).stat, storedPath volume path, none, none⟩),
        (k.open path flags mode).2.alloc.2) := by
  have hstatus : ¬EfiStatus.success.isError = true := by decide
  unfold openFile
  rw [if_neg (by simp [hpre]), Linux.run_open, if_neg (Int.not_lt.mpr hok), Prog.run_bind,
    lklAllocateIFile_run hfd]
  dsimp only
  rw [if_neg hstatus, openDone_success]
  rfl

theorem openFile_run (hpre : startsWith (render q) volume.lklMountPoint = true)
    (hq : k₁.fs.tree.Canonical q) (hlen : (render q).length < pathMax) (hn : k₁.fs.node q = some n)
    (hcreat : flags &&& O_CREAT = 0) (hdir : n.entry = .dir → flags &&& 3 = O_RDONLY)
    (mode : Nat) (l : OpenLocals) :
    ∃ f k', (openFile volume l (render q) flags mode).run Linux.handle k₁ =
        ((.success, some f), k') ∧ NewHandle k₁ k' volume q n flags f := by
  have hopen : k₁.open (render q) flags mode = k₁.install q n flags := by
    unfold Linux.open
    dsimp only
    rw [if_neg fun h => h.1 hcreat, Linux.walkPath_render hq hlen]
    dsimp only
    rw [hn]
    dsimp only
    rw [if_neg]
    rintro ⟨hd, hc | hw⟩
    · exact hc hcreat
    · exact hw (hdir hd)
  have hok : 0 ≤ (k₁.open (render q) flags mode).1 := by
    rw [hopen]
    exact Int.natCast_nonneg _
  have hfd : (k₁.open (render q) flags mode).2.fd (k₁.open (render q) flags mode).1 =
      some ⟨n.ino, flags, 0⟩ := by
    rw [hopen]
    exact Linux.install_fd _ _ _ _
  refine ⟨_, _, openFile_run_opened hpre hok hfd, ?_⟩
  rw [hopen]
  exact ⟨rfl, rfl, Linux.install_fd k₁ q n flags, rfl, rfl, ⟨rfl, rfl⟩, rfl, rfl, rfl⟩

theorem openFile_run_error (h : startsWith (render q) volume.lklMountPoint = true →
      (k₁.open (render q) flags mode).1 < 0) (l : OpenLocals) :
    ((openFile volume l (render q) flags mode).run Linux.handle k₁).1.1 ≠ .success := by
  have hnotFound : EfiStatus.notFound ≠ .success := by decide
  unfold openFile
  by_cases hpre : startsWith (render q) volume.lklMountPoint = true
  · have hfd := h hpre
    rw [if_neg (by simp [hpre]), Linux.run_open, if_pos hfd, openDone_run_fst]
    exact fun hs => absurd (lklError2EfiError_eq_success.mp hs) (by omega)
  · rw [if_pos (by simpa using hpre), openDone_run_fst]
    exact hnotFound

theorem NewHandle.of_core {k' : Linux} {f : LklIfile} (h : NewHandle k₁ k' volume q n flags f)
    (hcore : k₁.core = k.core) : NewHandle k k' volume q n flags f := by
  have hinode : k₁.inode = k.inode :=
    show k₁.core.inode = k.core.inode from congrArg Linux.inode hcore
  have hreached : k₁.reached = k.reached :=
    show k₁.core.reached = k.core.reached from congrArg Linux.reached hcore
  exact ⟨h.belongs, h.openedWith, h.descriptor, hinode ▸ h.stat, h.path, h.stream,
    h.tree.trans (Linux.fs_eq_of_core hcore), h.inodes.trans hinode, hreached ▸ h.reached⟩

/-- Where the path leads: to an object of the volume, and to no directory if it is written to. -/
structure Target (F : FsTree) (parent : LklIfile) (fileName : List UInt16) (openMode : UInt64)
    (q : List Name) (n : FsNode) : Prop where
  resolved : realPathResult F (openPath parent fileName) = some q
  begins : startsWith (render q) parent.volume.lklMountPoint = true
  node : F.node q = some n
  file : writeMode openMode = true → n.entry ≠ .dir

theorem lklOpen_opens
    (hflags : openFlags parent.volume.readOnly openMode attributes = .ok (flags, mode))
    (hcreate : createMode openMode = false) (h : Target k.fs parent fileName openMode q n) :
    ∃ f k', (lklOpen parent (some fileName) openMode attributes).run Linux.handle k =
        ((.success, some f), k') ∧ NewHandle k k' parent.volume q n flags f := by
  obtain ⟨r, l, k₁, hresult, hcore, -, hrun⟩ := lklOpen_run k fileName hflags hcreate
  rw [h.resolved, Option.map_some, Option.map_eq_some_iff] at hresult
  obtain ⟨⟨ptr, _⟩, rfl, rfl⟩ := hresult
  obtain ⟨hvalid, hr⟩ := openFlags_ok hflags
  have hr : flags = accessFlags openMode := hr
  obtain ⟨hcreat, hwrite⟩ := accessFlags_valid hvalid
  have hfs : k₁.fs = k.fs := Linux.fs_eq_of_core hcore
  have hnocreat : flags &&& O_CREAT = 0 := by
    rw [hr]
    by_contra hne
    rw [hcreat.mp hne] at hcreate
    cases hcreate
  have hread : n.entry = .dir → flags &&& 3 = O_RDONLY := by
    intro hdir
    rw [hr]
    by_contra hne
    exact h.file (hwrite.mp hne) hdir
  obtain ⟨f, k', hopen, hopened⟩ := openFile_run h.begins
    (hfs ▸ realPathResult_canonical h.resolved) (realPathResult_length h.resolved)
    (hfs ▸ h.node) hnocreat hread mode { l with absFilePath := some ptr }
  exact ⟨f, k', hrun.trans hopen, hopened.of_core hcore⟩

theorem lklOpen_success_iff
    (hflags : openFlags parent.volume.readOnly openMode attributes = .ok (flags, mode))
    (hcreate : createMode openMode = false) :
    ((lklOpen parent (some fileName) openMode attributes).run Linux.handle k).1.1 = .success ↔
      ∃ q n, Target k.fs parent fileName openMode q n := by
  constructor
  · obtain ⟨r, l, k₁, hresult, hcore, -, hrun⟩ :=
      lklOpen_run k fileName hflags hcreate
    have hfs : k₁.fs = k.fs := Linux.fs_eq_of_core hcore
    rw [hrun]
    cases hq : realPathResult k.fs (openPath parent fileName) with
    | none =>
      rw [hq, Option.map_none, Option.map_eq_none_iff] at hresult
      rw [hresult]
      dsimp only
      rw [openDone_run_fst]
      exact fun hs => EfiStatus.noConfusion hs
    | some q =>
      rw [hq, Option.map_some, Option.map_eq_some_iff] at hresult
      obtain ⟨⟨ptr, _⟩, rfl, rfl⟩ := hresult
      intro hs
      have hcanon := realPathResult_canonical hq
      obtain ⟨n, hn⟩ := PathTree.Canonical.node_isSome hcanon
      obtain ⟨hvalid, hr⟩ := openFlags_ok hflags
      have hr : flags = accessFlags openMode := hr
      refine ⟨q, n, hq, ?_, hn, fun hw hdir => ?_⟩
      · by_contra hpre
        exact openFile_run_error (fun h => absurd h hpre) _ hs
      · refine openFile_run_error (fun _ => ?_) _ hs
        rw [hr, ← Int.not_le, (k₁.open_target _ _ _).2, Option.isSome_iff_exists]
        rintro ⟨p, hp⟩
        have hkind := ((Linux.openTarget_render (hfs ▸ hcanon) (realPathResult_length hq) hvalid
          hcreate p).mp hp).2 hw
        rw [hfs] at hkind
        have htrue := (k.fs.tree.isDir_iff q).mpr (by simp [hn, hdir])
        rw [hkind] at htrue
        cases htrue
  · rintro ⟨q, n, h⟩
    obtain ⟨f, k', hrun, -⟩ := lklOpen_opens (k := k) hflags hcreate h
    rw [hrun]

end Run

end UefiLkl
