import UefiLkl.OpenRun
set_option autoImplicit false

/-!
Creating what was created before: the file is opened again, the directory is refused.
-/

namespace UefiLkl
open Interaction PathWalk

def createRequest : UInt64 := EFI_FILE_MODE_READ ||| EFI_FILE_MODE_WRITE ||| EFI_FILE_MODE_CREATE

/-- Nothing was deleted on the way from `F` to `F'`. -/
def FsTree.Within (F F' : FsTree) : Prop := ∀ p n, F.node p = some n → F'.node p = some n

/-- The second call opens what the first one, which ended in `k₁`, returned as `f₁`, and changes
neither the tree nor any file. -/
structure OpenedAgain (k₁ : Linux) (f₁ : LklIfile) (k₂ : Linux)
    (r : (EfiStatus × Option LklIfile) × Linux) : Prop where
  success : r.1.1 = .success
  handle : ∃ f₂, r.1.2 = some f₂ ∧ f₂.filePath = f₁.filePath ∧
    ∃ o₁ o₂, k₁.fd f₁.fd = some o₁ ∧ r.2.fd f₂.fd = some o₂ ∧ o₂.ino = o₁.ino
  tree : r.2.fs = k₂.fs
  contents : r.2.inode = k₂.inode

/-- Whatever happens after a successful creating call, if only nothing is deleted, the same call
then opens the same object. -/
def CreatesAgain (k : Linux) (parent : LklIfile) (fileName : Option (List UInt16))
    (attributes : UInt64) : Prop :=
  ∀ f₁ k₁ k₂, (lklOpen parent fileName createRequest attributes).run Linux.handle k =
      ((.success, some f₁), k₁) → k₁.fs.Within k₂.fs →
    OpenedAgain k₁ f₁ k₂ ((lklOpen parent fileName createRequest attributes).run Linux.handle k₂)

section Grown

variable {F F' : FsTree} {k k₂ : Linux} {path : Bytes} {flags mode : Nat}

theorem FsTree.Within.tree (h : F.Within F') : F.tree.Within F'.tree := by
  intro p e he
  rw [FsTree.tree_entry, Option.map_eq_some_iff] at he ⊢
  obtain ⟨n, hn, rfl⟩ := he
  exact ⟨n, h p n hn, rfl⟩

theorem FsTree.within_insert (d : List Name) (a : Name) (n : FsNode) :
    F.Within (F.insert d a n) := by
  intro p m hm
  unfold FsTree.insert
  split
  · rename_i h
    have hp : p ≠ d ++ [a] := by
      rintro rfl
      rw [h.2.1] at hm
      cases hm
    exact (Function.update_of_ne hp _ _).trans hm
  · exact hm

theorem FsTree.Within.trans {F'' : FsTree} (h : F.Within F') (h' : F'.Within F'') : F.Within F'' :=
  fun p n hp => h' p n (h p n hp)

theorem FsTree.Within.of_eq (h : F = F') : F.Within F' := fun _ _ hp => h ▸ hp

theorem Linux.mkdir_within : k.fs.Within (k.mkdir path mode).2.fs := by
  unfold Linux.mkdir
  split
  · exact .of_eq rfl
  · split
    · exact FsTree.within_insert _ _ _
    · exact .of_eq rfl
  · exact .of_eq rfl

theorem Linux.open_within : k.fs.Within (k.open path flags mode).2.fs := by
  unfold Linux.open
  dsimp only
  repeat' split
  all_goals first | exact .of_eq rfl | exact FsTree.within_insert _ _ _

theorem realPathResult_grown {name : Bytes} {q : List Name} (h : F.Within F')
    (hq : realPathResult F name = some q) : realPathResult F' name = some q := by
  obtain ⟨habs, hw⟩ := walk_of_realPathResult hq
  have hgrown := walk_grown (m := ⟨false, true⟩) (l := realPathLimits) h.tree 40 []
    (components name)
  rw [realPathWalk] at hw
  rw [hw] at hgrown
  have hw' : realPathWalk F' 40 [] name = .found q := hgrown
  rw [realPathResult, if_pos habs, hw']
  rfl

theorem Linux.walkPath_grown (h : k.fs.Within k₂.fs) (f : Bool) (path : Bytes) :
    Outcome.GrownTo k₂.fs.tree (k₂.walkPath f path) (k.walkPath f path) := by
  unfold Linux.walkPath
  split
  · trivial
  · split
    · trivial
    · exact walk_grown h.tree 40 [] _

theorem Linux.create_filled {f : Bool} {d : List Name} {a : Name}
    (hw : k.walkPath f path = .missing d a) (ha : validName a = true) (isDir : Bool) (mode : Nat) :
    (k.create d a isDir mode).fs.node (d ++ [a]) =
      some (if isDir then .dir k.nextIno else .file k.nextIno) := by
  unfold Linux.walkPath at hw
  split at hw
  · cases hw
  split at hw
  · cases hw
  obtain ⟨hnone, hdir⟩ := walk_missing 40 [] _ hw
  rw [FsTree.tree_entry, Option.map_eq_none_iff] at hnone
  have hvalid : FsNode.valid (if isDir then .dir k.nextIno else .file k.nextIno) = true := by
    cases isDir <;> rfl
  unfold Linux.create
  dsimp only
  rw [FsTree.insert_node (hdir rfl) hnone ha hvalid, Function.update_self]

theorem Linux.open_again (hok : 0 ≤ (k.open path flags mode).1)
    (hkeep : (k.open path flags mode).2.fs.Within k₂.fs) :
    ∃ q n, (k.open path flags mode).2.fd (k.open path flags mode).1 = some ⟨n.ino, flags, 0⟩ ∧
      k₂.open path flags mode = k₂.install q n flags := by
  have hisdir : ¬0 ≤ -EISDIR := by decide
  have hnoent : ¬0 ≤ -ENOENT := by decide
  have hlong : ¬0 ≤ -ENAMETOOLONG := by decide
  revert hok hkeep
  unfold Linux.open
  by_cases hslash : flags &&& O_CREAT ≠ 0 ∧ path.getLast? = some slash
  · simp only [if_pos hslash]
    exact fun hok => absurd hok hisdir
  simp only [if_neg hslash]
  cases hw : k.walkPath true path with
  | fail e =>
    intro hok
    have hpos := Failure.errno_pos e
    dsimp only at hok
    omega
  | found q =>
    dsimp only
    cases hn : k.fs.node q with
    | none => exact fun hok => absurd hok hnoent
    | some n =>
      dsimp only
      by_cases hdir : n.entry = .dir ∧ (flags &&& O_CREAT ≠ 0 ∨ flags &&& 3 ≠ O_RDONLY)
      · rw [if_pos hdir]
        exact fun hok => absurd hok hisdir
      rw [if_neg hdir]
      intro _ hkeep
      have hfound : k₂.walkPath true path = .found q := by
        have hgrown := Linux.walkPath_grown (k := k) hkeep true path
        rwa [hw] at hgrown
      refine ⟨q, n, Linux.install_fd k q n flags, ?_⟩
      rw [hfound]
      dsimp only
      rw [hkeep q n hn]
      exact if_neg hdir
  | missing d a =>
    dsimp only
    by_cases hcreat : flags &&& O_CREAT ≠ 0
    swap
    · rw [if_pos (by simpa using hcreat)]
      exact fun hok => absurd hok hnoent
    rw [if_neg (by simpa using hcreat)]
    by_cases ha : validName a = true
    swap
    · rw [if_neg ha]
      exact fun hok => absurd hok hlong
    rw [if_pos ha]
    intro _ hkeep
    have hmade := hkeep _ _ (Linux.create_filled hw ha false mode)
    have hwithin : k.fs.Within k₂.fs := fun p n hp => hkeep p n (FsTree.within_insert d a _ p n hp)
    have hfound : k₂.walkPath true path = .found (d ++ [a]) := by
      have hgrown := Linux.walkPath_grown hwithin true path
      rw [hw] at hgrown
      exact hgrown .file (by rw [FsTree.tree_entry, hmade]; rfl) rfl
    refine ⟨d ++ [a], .file k.nextIno, Linux.install_fd _ _ _ flags, ?_⟩
    rw [hfound]
    dsimp only
    rw [hmade]
    exact if_neg fun h => by cases h.1

theorem Linux.mkdir_again (hok : (k.mkdir path mode).1 = 0)
    (hkeep : (k.mkdir path mode).2.fs.Within k₂.fs) :
    k₂.mkdir path mode = (-EEXIST, k₂) := by
  have hexist : ¬-EEXIST = 0 := by decide
  have hlong : ¬-ENAMETOOLONG = 0 := by decide
  revert hok hkeep
  unfold Linux.mkdir
  cases hw : k.walkPath false (removeTrailingSlashes path) with
  | found q => exact fun hok => absurd hok hexist
  | fail e =>
    intro hok
    have hpos := Failure.errno_pos e
    dsimp only at hok
    omega
  | missing d a =>
    dsimp only
    by_cases ha : validName a = true
    swap
    · rw [if_neg ha]
      exact fun hok => absurd hok hlong
    rw [if_pos ha]
    intro _ hkeep
    have hmade := hkeep _ _ (Linux.create_filled hw ha true mode)
    have hwithin : k.fs.Within k₂.fs := fun p n hp => hkeep p n (FsTree.within_insert d a _ p n hp)
    have hfound : k₂.walkPath false (removeTrailingSlashes path) = .found (d ++ [a]) := by
      have hgrown := Linux.walkPath_grown hwithin false (removeTrailingSlashes path)
      rw [hw] at hgrown
      exact hgrown .dir (by rw [FsTree.tree_entry, hmade]; rfl) rfl
    rw [hfound]

end Grown

section Run

variable {k k₂ : Linux} {parent : LklIfile} {name : List UInt16} {openMode attributes : UInt64}
  {flags mode : Nat} {q : List Name} {volume : LklVolume} {l : OpenLocals} {path : Bytes}

theorem openFile_success (h : ((openFile volume l path flags mode).run Linux.handle k).1.1 =
    .success) : startsWith path volume.lklMountPoint = true ∧ 0 ≤ (k.open path flags mode).1 := by
  unfold openFile at h
  by_cases hpre : startsWith path volume.lklMountPoint = true
  swap
  · rw [if_pos (by simpa using hpre), openDone_run_fst] at h
    cases h
  refine ⟨hpre, ?_⟩
  rw [if_neg (by simp [hpre]), Linux.run_open] at h
  by_contra hneg
  rw [if_pos (Int.not_le.mp hneg), openDone_run_fst] at h
  have hzero := lklError2EfiError_eq_success.mp h
  omega

/-- What follows the resolution of the directory. -/
def createdRun (volume : LklVolume) (l : OpenLocals) (path : Bytes) (flags mode : Nat)
    (attributes : UInt64) (k : Linux) : (EfiStatus × Option LklIfile) × Linux :=
  if attributes &&& EFI_FILE_DIRECTORY ≠ 0 then
    if (k.mkdir path mode).1 ≠ 0 then
      (openDone l (lklError2EfiError (k.mkdir path mode).1) none).run Linux.handle
        (k.mkdir path mode).2
    else (openFile volume l path O_RDONLY 0).run Linux.handle (k.mkdir path mode).2
  else (openFile volume l path flags mode).run Linux.handle k

theorem openCreate_run (volume : LklVolume) (l : OpenLocals) (abs base : Bytes) (flags mode : Nat)
    (attributes : UInt64) (k : Linux) :
    (openCreate volume l abs base flags mode attributes).run Linux.handle k =
      createdRun volume { l with absFilePath := some k.nextPtr } (createName abs base) flags mode
        attributes k.alloc.2 := by
  unfold openCreate createdRun
  rw [Linux.run_allocatePool]
  dsimp only
  rw [Prog.run_bind, freeUnlessNull_run]
  dsimp only
  by_cases hdir : attributes &&& EFI_FILE_DIRECTORY ≠ 0
  · rw [if_pos hdir, if_pos hdir, Linux.run_mkdir]
    by_cases hrc : (k.alloc.2.mkdir (createName abs base) mode).1 ≠ 0
    · rw [if_pos hrc, if_pos hrc]
    · rw [if_neg hrc, if_neg hrc]
  · rw [if_neg hdir, if_neg hdir]

theorem lklOpen_resolve_run (k : Linux) (name : List UInt16)
    (hflags : openFlags parent.volume.readOnly openMode attributes = .ok (flags, mode))
    (hcreate : createMode openMode = true) (hbase : (splitBase (openPath parent name)).2 ≠ []) :
    ∃ (r : Option (Ptr × Bytes)) (l : OpenLocals) (k₁ : Linux),
      r.map Prod.snd = (realPathResult k.fs (splitBase (openPath parent name)).1).map render ∧
      k₁.core = k.core ∧ l.fd = -1 ∧
      (lklOpen parent (some name) openMode attributes).run Linux.handle k =
        match r with
        | none => (openDone l .notFound none).run Linux.handle k₁
        | some (ptr, abs) => (openCreate parent.volume { l with absFilePath := some ptr } abs
            (splitBase (openPath parent name)).2 flags mode attributes).run Linux.handle k₁ := by
  obtain ⟨hresult, hcore⟩ := realPath_run k.alloc.2.alloc.2
    (nul_not_mem_splitBase (nul_not_mem_openPath parent name))
  rcases hrun : (realPath (some (splitBase (openPath parent name)).1) none).run Linux.handle
    k.alloc.2.alloc.2 with ⟨r, k₁⟩
  rw [hrun] at hresult hcore
  refine ⟨r, ⟨-1, some k.nextPtr, some k.alloc.2.nextPtr, none⟩, k₁, hresult, hcore, rfl, ?_⟩
  unfold lklOpen
  dsimp only
  rw [hflags]
  dsimp only
  rw [Linux.run_allocatePool]
  dsimp only
  rw [Linux.run_allocatePool]
  dsimp only
  rw [if_pos hcreate, if_neg hbase, Linux.run_touch, Prog.run_bind, hrun]
  cases r <;> rfl

theorem lklOpen_create_run
    (hflags : openFlags parent.volume.readOnly openMode attributes = .ok (flags, mode))
    (hcreate : createMode openMode = true) (hbase : (splitBase (openPath parent name)).2 ≠ [])
    (hq : realPathResult k.fs (splitBase (openPath parent name)).1 = some q) :
    ∃ (l : OpenLocals) (k₁ : Linux), k₁.core = k.core ∧ l.fd = -1 ∧
      (lklOpen parent (some name) openMode attributes).run Linux.handle k =
        createdRun parent.volume l (createName (render q) (splitBase (openPath parent name)).2)
          flags mode attributes k₁ := by
  obtain ⟨r, l, k₁, hresult, hcore, hl, hrun⟩ := lklOpen_resolve_run k name hflags hcreate hbase
  rw [hq, Option.map_some, Option.map_eq_some_iff] at hresult
  obtain ⟨⟨ptr, _⟩, rfl, rfl⟩ := hresult
  refine ⟨_, k₁.alloc.2, hcore, ?_, hrun.trans (openCreate_run _ _ _ _ _ _ _ _)⟩
  exact hl

theorem openFlags_ne_success {readOnly : Bool} {status : EfiStatus}
    (h : openFlags readOnly openMode attributes = .error status) : status ≠ .success := by
  unfold openFlags at h
  repeat' split at h
  all_goals cases h
  all_goals decide

theorem lklOpen_create_success (hcreate : createMode openMode = true)
    {fileName : Option (List UInt16)}
    (h : ((lklOpen parent fileName openMode attributes).run Linux.handle k).1.1 = .success) :
    ∃ name flags mode q, fileName = some name ∧
      openFlags parent.volume.readOnly openMode attributes = .ok (flags, mode) ∧
      (splitBase (openPath parent name)).2 ≠ [] ∧
      realPathResult k.fs (splitBase (openPath parent name)).1 = some q := by
  cases fileName with
  | none => cases h
  | some name =>
  rcases hflags : openFlags parent.volume.readOnly openMode attributes with status | ⟨flags, mode⟩
  · unfold lklOpen at h
    dsimp only at h
    rw [hflags] at h
    exact absurd h (openFlags_ne_success hflags)
  by_cases hbase : (splitBase (openPath parent name)).2 = []
  · unfold lklOpen at h
    dsimp only at h
    rw [hflags] at h
    dsimp only at h
    rw [Linux.run_allocatePool] at h
    dsimp only at h
    rw [Linux.run_allocatePool] at h
    dsimp only at h
    rw [if_pos hcreate, if_pos hbase, openDone_run_fst] at h
    cases h
  obtain ⟨r, l, k₁, hresult, -, -, hrun⟩ := lklOpen_resolve_run k name hflags hcreate hbase
  cases hq : realPathResult k.fs (splitBase (openPath parent name)).1 with
  | none =>
    rw [hq, Option.map_none, Option.map_eq_none_iff] at hresult
    rw [hrun, hresult] at h
    dsimp only at h
    rw [openDone_run_fst] at h
    cases h
  | some q => exact ⟨name, flags, mode, q, rfl, rfl, hbase, hq⟩

theorem createdRun_file (hdir : ¬attributes &&& EFI_FILE_DIRECTORY ≠ 0)
    (h : (createdRun volume l path flags mode attributes k).1.1 = .success) :
    ∃ f k₁, createdRun volume l path flags mode attributes k = ((.success, some f), k₁) ∧
      k.fs.Within k₁.fs ∧ ∀ l₂ k₂, k₁.fs.Within k₂.fs →
        OpenedAgain k₁ f k₂ (createdRun volume l₂ path flags mode attributes k₂) := by
  simp only [createdRun, if_neg hdir] at h ⊢
  obtain ⟨hpre, hok⟩ := openFile_success h
  obtain ⟨ino, hfd⟩ := Linux.open_fd hok
  refine ⟨_, _, openFile_run_opened hpre hok hfd, Linux.open_within, fun l₂ k₂ hkeep => ?_⟩
  obtain ⟨p, n, hino, hagain⟩ := Linux.open_again hok hkeep
  have hfd₂ : (k₂.open path flags mode).2.fd (k₂.open path flags mode).1 =
      some ⟨n.ino, flags, 0⟩ := by
    rw [hagain]
    exact Linux.install_fd k₂ p n flags
  have hok₂ : 0 ≤ (k₂.open path flags mode).1 := by
    rw [hagain]
    exact Int.natCast_nonneg _
  rw [openFile_run_opened hpre hok₂ hfd₂]
  refine ⟨rfl, ⟨_, rfl, rfl, _, _, hino, hfd₂, rfl⟩, ?_, ?_⟩
  · rw [hagain]
    rfl
  · rw [hagain]
    rfl

theorem createdRun_directory (hdir : attributes &&& EFI_FILE_DIRECTORY ≠ 0)
    (h : (createdRun volume l path flags mode attributes k).1.1 = .success) :
    ∃ f k₁, createdRun volume l path flags mode attributes k = ((.success, some f), k₁) ∧
      k.fs.Within k₁.fs ∧ ∀ l₂ k₂, k₁.fs.Within k₂.fs →
        (createdRun volume l₂ path flags mode attributes k₂).1.1 ≠ .success := by
  simp only [createdRun, if_pos hdir] at h ⊢
  by_cases hrc : (k.mkdir path mode).1 ≠ 0
  · rw [if_pos hrc, openDone_run_fst] at h
    exact absurd (lklError2EfiError_eq_success.mp h) hrc
  rw [if_neg hrc] at h ⊢
  obtain ⟨hpre, hok⟩ := openFile_success h
  obtain ⟨ino, hfd⟩ := Linux.open_fd hok
  refine ⟨_, _, openFile_run_opened hpre hok hfd, Linux.mkdir_within.trans Linux.open_within,
    fun l₂ k₂ hkeep => ?_⟩
  have hexist : -EEXIST ≠ 0 := by decide
  rw [Linux.mkdir_again (not_not.mp hrc) (Linux.open_within.trans hkeep), if_pos hexist,
    openDone_run_fst]
  exact fun h => hexist (lklError2EfiError_eq_success.mp h)

theorem lklOpen_create_twice {fileName : Option (List UInt16)}
    (hcreate : createMode openMode = true)
    (h : ((lklOpen parent fileName openMode attributes).run Linux.handle k).1.1 = .success) :
    ∃ volume l path flags mode k₁, k₁.fs = k.fs ∧
      (lklOpen parent fileName openMode attributes).run Linux.handle k =
        createdRun volume l path flags mode attributes k₁ ∧
      ∀ k₂, k.fs.Within k₂.fs → ∃ l₂ k₃, k₃.core = k₂.core ∧
        (lklOpen parent fileName openMode attributes).run Linux.handle k₂ =
          createdRun volume l₂ path flags mode attributes k₃ := by
  obtain ⟨name, flags, mode, q, rfl, hflags, hbase, hq⟩ := lklOpen_create_success hcreate h
  obtain ⟨l, k₁, hcore, -, hrun⟩ := lklOpen_create_run hflags hcreate hbase hq
  refine ⟨_, l, _, flags, mode, k₁, Linux.fs_eq_of_core hcore, hrun, fun k₂ hgrown => ?_⟩
  obtain ⟨l₂, k₃, hcore₂, -, hrun₂⟩ :=
    lklOpen_create_run hflags hcreate hbase (realPathResult_grown hgrown hq)
  exact ⟨l₂, k₃, hcore₂, hrun₂⟩

theorem createsAgain_file {fileName : Option (List UInt16)}
    (hfirst : ((lklOpen parent fileName createRequest attributes).run Linux.handle k).1.1 =
      .success) (hdir : ¬attributes &&& EFI_FILE_DIRECTORY ≠ 0) :
    CreatesAgain k parent fileName attributes := by
  obtain ⟨volume, l, path, flags, mode, kr, hfs, hrun, htwice⟩ :=
    lklOpen_create_twice (by decide) hfirst
  rw [hrun] at hfirst
  intro f₁ k₁ k₂ hopened hkeep
  obtain ⟨f, k', hopen, hkeep₁, hagain⟩ := createdRun_file hdir hfirst
  rw [hrun, hopen] at hopened
  cases hopened
  obtain ⟨l₂, k₃, hcore, hrun₂⟩ := htwice k₂ (hfs ▸ hkeep₁.trans hkeep)
  have hfs₂ := Linux.fs_eq_of_core hcore
  have hinode : k₃.inode = k₂.inode :=
    show k₃.core.inode = k₂.core.inode from congrArg Linux.inode hcore
  obtain ⟨hsuccess, hhandle, htree, hcontents⟩ := hagain l₂ k₃ (hfs₂ ▸ hkeep)
  rw [hrun₂]
  exact ⟨hsuccess, hhandle, htree.trans hfs₂, hcontents.trans hinode⟩

theorem createsAgain_directory {fileName : Option (List UInt16)}
    (hfirst : ((lklOpen parent fileName createRequest attributes).run Linux.handle k).1.1 =
      .success) (hdir : attributes &&& EFI_FILE_DIRECTORY ≠ 0) :
    ¬CreatesAgain k parent fileName attributes := by
  obtain ⟨volume, l, path, flags, mode, kr, hfs, hrun, htwice⟩ :=
    lklOpen_create_twice (by decide) hfirst
  rw [hrun] at hfirst
  intro hagain
  obtain ⟨f, k₁, hopen, hkeep, hfails⟩ := createdRun_directory hdir hfirst
  obtain ⟨l₂, k₃, hcore, hrun₂⟩ := htwice k₁ (hfs ▸ hkeep)
  have hopened := hagain f k₁ k₁ (hrun.trans hopen) (.of_eq rfl)
  rw [hrun₂] at hopened
  exact hfails l₂ k₃ (.of_eq (Linux.fs_eq_of_core hcore).symm) hopened.success

end Run

/-- A successful creating open can be repeated just where it does not ask for a directory. -/
theorem lklOpen_createsAgain_iff (k : Linux) (parent : LklIfile)
    (fileName : Option (List UInt16)) (attributes : UInt64)
    (hfirst : ((lklOpen parent fileName createRequest attributes).run Linux.handle k).1.1 =
      .success) :
    CreatesAgain k parent fileName attributes ↔ attributes &&& EFI_FILE_DIRECTORY = 0 := by
  constructor
  · intro hagain
    by_contra hdir
    exact createsAgain_directory hfirst hdir hagain
  · exact fun hdir => createsAgain_file hfirst (not_not.mpr hdir)

/-- The file `a` in the root directory of the volume. -/
theorem lklOpen_createsAgain_iff_file :
    CreatesAgain { Linux.boot with fs := mountedTree } rootHandle (some [0x61]) 0 ↔
      (0 : UInt64) &&& EFI_FILE_DIRECTORY = 0 :=
  lklOpen_createsAgain_iff { Linux.boot with fs := mountedTree } rootHandle (some [0x61]) 0
    (by decide +kernel)

/-- The directory `a` is made once, and the second call fails. -/
theorem lklOpen_createsAgain_directory :
    ¬CreatesAgain { Linux.boot with fs := mountedTree } rootHandle (some [0x61])
      EFI_FILE_DIRECTORY :=
  createsAgain_directory (by decide +kernel) (by decide)

end UefiLkl
