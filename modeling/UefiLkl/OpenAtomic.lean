import UefiLkl.Confinement
import UefiLkl.Resources
set_option autoImplicit false

/-!
What a failing `LKLOpen` leaves behind: never a descriptor or memory, but the directory or the
file that it created.
-/

namespace UefiLkl
open Interaction PathWalk

theorem Linux.handle_fs {c : Call} (hc : c.passive = true) (k : Linux) :
    (Linux.handle c k).2.fs = k.fs := by
  cases c
  case sysMkdir => exact Bool.noConfusion hc
  case sysOpen => exact Bool.noConfusion hc
  case sysUnlink => exact Bool.noConfusion hc
  all_goals
    simp only [Linux.handle, Linux.alloc, Linux.close, Linux.read, Linux.write, Linux.lseek,
      Linux.ftruncate, Linux.utime, Linux.chmod]
    repeat' split
    all_goals rfl

theorem Linux.always_passive_fs {α : Type} {p : Lkl α} (hp : p.Only fun c => c.passive = true)
    (k : Linux) : Linux.faulty.Always p (fun _ k' => k'.fs = k.fs) k := by
  refine Env.always_of_invariant (I := fun k' : Linux => k'.fs = k.fs) ?_ hp rfl
  rintro g c x g' hc hg (hx | ⟨-, rfl⟩)
  · obtain ⟨-, rfl⟩ := Prod.mk.inj hx
    exact (Linux.handle_fs hc g).trans hg
  · exact hg

theorem FsTree.insert_ne {F : FsTree} {d : List Name} {a : Name} {n : FsNode}
    (hd : F.tree.isDir d = true) (hn : F.node (d ++ [a]) = none) (hv : validName a = true)
    (hnv : n.valid = true) : F.insert d a n ≠ F := by
  intro h
  have hnode := congrFun (FsTree.insert_node hd hn hv hnv) (d ++ [a])
  rw [h, hn, Function.update_self] at hnode
  cases hnode

theorem Linux.mkdir_of_none {k : Linux} {path : Bytes} (h : k.mkdirTarget path = none)
    (mode : Nat) : (k.mkdir path mode).2 = k ∧ (k.mkdir path mode).1 ≠ 0 := by
  have hrc := (k.mkdir_target path mode).2
  rw [h] at hrc
  refine ⟨?_, fun h0 => Bool.false_ne_true (hrc.mp h0)⟩
  unfold Linux.mkdir
  unfold Linux.mkdirTarget at h
  cases hw : k.walkPath false (removeTrailingSlashes path) with
  | found p => rfl
  | fail e => rfl
  | missing d a =>
    rw [hw] at h
    by_cases ha : validName a = true
    · simp [ha] at h
    · simp [ha]

/-- The path leads to a free place where an object can be made. -/
def Linux.Free (k : Linux) (path : Bytes) : Prop :=
  ∃ d a, k.walkPath true path = .missing d a ∧ validName a = true

theorem Linux.walkPath_sound (k : Linux) (path : Bytes) :
    (k.walkPath true path).Sound k.fs.tree ⟨true, true⟩ := by
  unfold Linux.walkPath
  split
  · trivial
  · split
    · trivial
    · exact walk_sound rfl 40 [] _ k.fs.tree.canonical_root

/-- `open` changes the tree just where it creates a file. -/
theorem Linux.open_fs_iff (k : Linux) (path : Bytes) (flags mode : Nat) :
    (k.open path flags mode).2.fs = k.fs ↔
      ¬(flags &&& O_CREAT ≠ 0 ∧ path.getLast? ≠ some slash ∧ k.Free path) := by
  have hsound := k.walkPath_sound path
  unfold Linux.open Linux.Free
  by_cases hslash : flags &&& O_CREAT ≠ 0 ∧ path.getLast? = some slash
  · simp only [if_pos hslash]
    exact iff_of_true trivial fun h => h.2.1 hslash.2
  simp only [if_neg hslash]
  cases hw : k.walkPath true path with
  | fail e => simp
  | found p =>
    dsimp only
    refine iff_of_true ?_ (by simp)
    split
    · rfl
    · split <;> rfl
  | missing d a =>
    rw [hw] at hsound
    obtain ⟨-, -, hnone, hdir⟩ := hsound
    have hd := (k.fs.tree.isDir_iff d).mpr (hdir rfl)
    rw [FsTree.tree_entry, Option.map_eq_none_iff] at hnone
    by_cases hcreat : flags &&& O_CREAT ≠ 0
    swap
    · simp [hcreat]
    have hlast : path.getLast? ≠ some slash := fun h => hslash ⟨hcreat, h⟩
    by_cases ha : validName a = true
    · refine iff_of_false ?_ (not_not.mpr ⟨hcreat, hlast, d, a, rfl, ha⟩)
      have hne : k.fs.insert d a (.file k.nextIno) ≠ k.fs := FsTree.insert_ne hd hnone ha rfl
      simpa [hcreat, ha, Linux.install, Linux.create] using hne
    · simp [hcreat, ha]

theorem openDone_ends_with (l : OpenLocals) (status : EfiStatus) (ifile : Option LklIfile) :
    (openDone l status ifile).Ends fun r => r = (status, ifile) := by
  have hfree : (openDone.openFree l status ifile).Ends fun r => r = (status, ifile) :=
    Prog.ends_true.bind fun _ _ => Prog.ends_true.bind fun _ _ =>
      Prog.ends_true.bind fun _ _ => rfl
  unfold openDone
  split
  · exact Prog.ends_true.bind fun _ _ => hfree
  · exact hfree

/-- Where the call ends with an error, the tree is `F`. -/
def KeepsTree (F : FsTree) (r : EfiStatus × Option LklIfile) (k : Linux) : Prop :=
  r.1.isError = true → k.fs = F

theorem openDone_keeps {k : Linux} {F : FsTree} (hk : k.fs = F) (l : OpenLocals)
    (status : EfiStatus) (ifile : Option LklIfile) :
    Linux.faulty.Always (openDone l status ifile) (KeepsTree F) k :=
  (Linux.always_passive_fs (openDone_passive l status ifile) k).mono fun _ _ h _ => h.trans hk

theorem openDone_error {k : Linux} {F : FsTree} {l : OpenLocals} {status : EfiStatus}
    (hstatus : status.isError = true)
    (h : Linux.faulty.Always (openDone l status none) (KeepsTree F) k) : k.fs = F := by
  have hrun := Linux.always_run
    ((h.and (Linux.always_passive_fs (openDone_passive l status none) k)).and
      (openDone_ends_with l status none).always)
  obtain ⟨⟨hkeeps, hfs⟩, hr⟩ := hrun
  rw [← hfs]
  exact hkeeps (by rw [hr]; exact hstatus)

section File

variable {k : Linux} {F : FsTree} {volume : LklVolume} {l : OpenLocals} {path : Bytes}
  {flags mode : Nat}

theorem openFile_keeps (h : startsWith path volume.lklMountPoint = true →
      (k.open path flags mode).2.fs = k.fs) :
    Linux.faulty.Always (openFile volume l path flags mode) (KeepsTree k.fs) k := by
  unfold openFile
  by_cases hpre : startsWith path volume.lklMountPoint = true
  swap
  · rw [if_pos (by simpa using hpre)]
    exact openDone_keeps (by rfl) l _ none
  rw [if_neg (by simp [hpre])]
  apply Linux.always_open
  · refine (Linux.always_passive_fs ?_ _).mono fun _ _ hfs _ => hfs.trans (h hpre)
    split
    · exact openDone_passive _ _ _
    · refine (lklAllocateIFile_passive _ _).bind fun r => ?_
      dsimp only
      split <;> exact openDone_passive _ _ _
  · intro fd hfd
    rw [if_pos hfd]
    exact openDone_keeps (by rfl) l _ none

theorem openFile_error
    (h : Linux.faulty.Always (openFile volume l path flags mode) (KeepsTree F) k) :
    k.fs = F := by
  unfold openFile at h
  split at h
  · exact openDone_error rfl h
  · have hfail := (Linux.always_ask.mp h).2 (-1 : Int) rfl
    have hneg : (-1 : Int) < 0 := by decide
    rw [if_pos hneg] at hfail
    have herror : (lklError2EfiError (-1)).isError = true := lklError2EfiError_isError (by decide)
    exact openDone_error (k := { k with faulted := true }) herror hfail

theorem openFile_created (hpre : startsWith path volume.lklMountPoint = true)
    (hfd : 0 ≤ (k.open path flags mode).1)
    (h : Linux.faulty.Always (openFile volume l path flags mode) (KeepsTree F) k) :
    (k.open path flags mode).2.fs = F := by
  unfold openFile at h
  rw [if_neg (by simp [hpre])] at h
  have hopen := (Linux.always_ask.mp h).1
  have hneg : ¬(Linux.handle (.sysOpen path flags mode) k).1 < (0 : Int) := not_lt.mpr hfd
  rw [if_neg hneg, Env.always_bind] at hopen
  have hfail : Linux.faulty.Always
      (openDone { l with fd := (k.open path flags mode).1 } .outOfResources none) (KeepsTree F)
      { (k.open path flags mode).2 with faulted := true } :=
    (Linux.always_ask.mp hopen).2 none rfl
  exact openDone_error (k := { (k.open path flags mode).2 with faulted := true }) rfl hfail

end File

/-- A directory can be made under `base` in `q`. -/
structure NewDirectory (F : FsTree) (q : List Name) (base : Name) : Prop where
  dir : F.tree.isDir q = true
  free : F.node (q ++ [base]) = none
  valid : validName base = true
  short : (createName (render q) base).length < 4096

/-- The path of the new file begins like the mount point, and the creating `open` ends at a free
name, at `base` itself or at the end of a link. -/
structure NewFile (F : FsTree) (m q : List Name) (base : Name) : Prop where
  begins : render m <+: createName (render q) base
  short : (createName (render q) base).length < 4096
  free : ∃ d a, walk F.tree ⟨true, true⟩ .unlimited 40 q [base] = .missing d a ∧ validName a = true

def Creates (F : FsTree) (m : List Name) (parent : LklIfile) (fileName : Option (List UInt16))
    (openMode attributes : UInt64) : Prop :=
  ∃ name r q, fileName = some name ∧
    openFlags parent.volume.readOnly openMode attributes = .ok r ∧
    createMode openMode = true ∧
    realPathResult F (splitBase (openPath parent name)).1 = some q ∧
    if attributes &&& EFI_FILE_DIRECTORY ≠ 0 then
      NewDirectory F q (splitBase (openPath parent name)).2
    else NewFile F m q (splitBase (openPath parent name)).2

section Create

variable {k : Linux} {m q : List Name} {base : Name} {volume : LklVolume} {l : OpenLocals}
  {flags mode : Nat} {attributes : UInt64}

theorem newDirectory_iff (hq : k.fs.tree.Canonical q) (hb : slash ∉ base) (hne : base ≠ []) :
    NewDirectory k.fs q base ↔ k.mkdirTarget (createName (render q) base) = some (q ++ [base]) := by
  rw [Linux.mkdirTarget_createName hq hb hne]
  constructor
  · rintro ⟨hdir, hfree, hvalid, hshort⟩
    exact ⟨rfl, hdir, hfree, hvalid, hshort⟩
  · rintro ⟨-, hdir, hfree, hvalid, hshort⟩
    exact ⟨hdir, hfree, hvalid, hshort⟩

theorem newFile_iff (hm : volume.lklMountPoint.val = render m) (hq : k.fs.tree.Canonical q)
    (hb : slash ∉ base) :
    NewFile k.fs m q base ↔
      startsWith (createName (render q) base) volume.lklMountPoint = true ∧
        k.Free (createName (render q) base) := by
  rw [startsWith_iff, hm, Linux.Free, Linux.walkPath_createName true hq hb]
  constructor
  · rintro ⟨hbegins, hshort, hfree⟩
    rw [if_neg (Nat.not_le.mpr hshort)]
    exact ⟨hbegins, hfree⟩
  · rintro ⟨hbegins, d, a, hw, ha⟩
    split at hw
    · cases hw
    · exact ⟨hbegins, by omega, d, a, hw, ha⟩

theorem Linux.mkdir_of_newDirectory (hq : k.fs.tree.Canonical q) (hb : slash ∉ base)
    (hne : base ≠ []) (h : NewDirectory k.fs q base) (mode : Nat) :
    (k.mkdir (createName (render q) base) mode).1 = 0 ∧
      (k.mkdir (createName (render q) base) mode).2.fs ≠ k.fs := by
  rw [Linux.mkdir_createName hq hb hne mode ((newDirectory_iff hq hb hne).mp h)]
  exact ⟨rfl, FsTree.insert_ne h.dir h.free h.valid rfl⟩

theorem openCreate_keeps (hm : volume.lklMountPoint.val = render m) (hq : k.fs.tree.Canonical q)
    (hb : slash ∉ base) (hne : base ≠ [])
    (h : ¬if attributes &&& EFI_FILE_DIRECTORY ≠ 0 then NewDirectory k.fs q base
      else NewFile k.fs m q base) :
    Linux.faulty.Always (openCreate volume l (render q) base flags mode attributes)
      (KeepsTree k.fs) k := by
  unfold openCreate
  apply Linux.always_allocatePool
  swap
  · exact openDone_keeps (by rfl) _ _ none
  have hfree : Linux.faulty.Always (freeUnlessNull l.absFilePath)
      (fun _ k' => k' = k.alloc.2) k.alloc.2 := by
    cases l.absFilePath with
    | none => rfl
    | some p => exact Linux.always_freePool.mpr rfl
  refine Env.always_bind.mpr (hfree.mono ?_)
  rintro _ _ rfl
  dsimp only
  by_cases hdir : attributes &&& EFI_FILE_DIRECTORY ≠ 0
  · rw [if_pos hdir] at h ⊢
    have hnone : k.alloc.2.mkdirTarget (createName (render q) base) = none := by
      cases ht : k.alloc.2.mkdirTarget (createName (render q) base) with
      | none => rfl
      | some p =>
        obtain ⟨rfl, hrest⟩ := (Linux.mkdirTarget_createName (k := k.alloc.2) hq hb hne p).mp ht
        exact absurd ((newDirectory_iff hq hb hne).mpr ht) h
    obtain ⟨hsame, hrc⟩ := Linux.mkdir_of_none hnone mode
    apply Linux.always_mkdir
    · rw [if_pos hrc, hsame]
      exact openDone_keeps (by rfl) _ _ none
    · intro rc hfail
      rw [if_pos (by omega)]
      exact openDone_keeps (by rfl) _ _ none
  · rw [if_neg hdir] at h ⊢
    refine openFile_keeps (k := k.alloc.2) fun hpre => ?_
    rw [Linux.open_fs_iff]
    rintro ⟨-, -, hfree⟩
    exact h ((newFile_iff hm hq hb).mpr ⟨hpre, hfree⟩)

/-- A step later something fails, and what was created is still there. -/
theorem openCreate_leaves (hm : volume.lklMountPoint.val = render m) (hq : k.fs.tree.Canonical q)
    (hb : slash ∉ base) (hne : base ≠ []) (hcreat : flags &&& O_CREAT ≠ 0)
    (h : if attributes &&& EFI_FILE_DIRECTORY ≠ 0 then NewDirectory k.fs q base
      else NewFile k.fs m q base) :
    ¬Linux.faulty.Always (openCreate volume l (render q) base flags mode attributes)
      (KeepsTree k.fs) k := by
  intro hkeeps
  unfold openCreate at hkeeps
  have hrest := Env.always_bind.mp (Linux.always_ask.mp hkeeps).1
  have hfree : (freeUnlessNull l.absFilePath).run Linux.handle k.alloc.2 = ((), k.alloc.2) := by
    cases l.absFilePath <;> rfl
  have hgo := Linux.always_run hrest
  rw [show (Linux.handle (.allocatePool _) k).2 = k.alloc.2 from rfl, hfree] at hgo
  dsimp only at hgo
  by_cases hdir : attributes &&& EFI_FILE_DIRECTORY ≠ 0
  · rw [if_pos hdir] at h hgo
    obtain ⟨hrc, hfs⟩ := Linux.mkdir_of_newDirectory (k := k.alloc.2) hq hb hne h mode
    have hopen := (Linux.always_ask.mp hgo).1
    have hzero : ¬(Linux.handle (.sysMkdir (createName (render q) base) mode) k.alloc.2).1 ≠
        (0 : Int) := not_not.mpr hrc
    rw [if_neg hzero] at hopen
    exact hfs (openFile_error hopen)
  · rw [if_neg hdir] at h hgo
    obtain ⟨hpre, hspot⟩ := (newFile_iff hm hq hb).mp h
    have hlast : (createName (render q) base).getLast? ≠ some slash := createName_getLast hb hne
    have hne := mt (k.alloc.2.open_fs_iff (createName (render q) base) flags mode).mp
      (not_not.mpr ⟨hcreat, hlast, hspot⟩)
    refine hne (openFile_created hpre ?_ hgo)
    obtain ⟨d, a, hw, ha⟩ := hspot
    have hw' : k.alloc.2.walkPath true (createName (render q) base) = .missing d a := hw
    simp [Linux.open, hcreat, hlast, hw', ha, Linux.install]

end Create

/-- When `LKLOpen` fails the tree is what it was, and so are the descriptors and the memory, and
there is no handle. -/
structure AtomicOnFailure (k : Linux) (parent : LklIfile) (fileName : Option (List UInt16))
    (openMode attributes : UInt64) : Prop where
  tree : Linux.faulty.Always (lklOpen parent fileName openMode attributes)
    (fun r k' => r.1.isError = true → k'.fs = k.fs) k
  books : ∀ g, bookkeeping.Always (lklOpen parent fileName openMode attributes)
    (fun r g' => r.1.isError = true → r.2 = none ∧ g' = g) g

theorem lklOpen_books_of_error (parent : LklIfile) (fileName : Option (List UInt16))
    (openMode attributes : UInt64) (g : Books) :
    bookkeeping.Always (lklOpen parent fileName openMode attributes)
      (fun r g' => r.1.isError = true → r.2 = none ∧ g' = g) g := by
  refine (lklOpen_books parent fileName openMode attributes).mono fun r g' hr herror => ?_
  rcases hr with ⟨-, hnone, rfl⟩ | ⟨hsuccess, -⟩
  · exact ⟨hnone, rfl⟩
  · rw [hsuccess] at herror
    cases herror

theorem always_realPath {α : Type} {k : Linux} {name : Bytes} (h0 : 0 ∉ name)
    {f : Option (Ptr × Bytes) → Lkl α} {Q : α → Linux → Prop}
    (hnone : ∀ k' : Linux, k'.core = k.core → Linux.faulty.Always (f none) Q k')
    (hsome : ∀ (k' : Linux) ptr q, k'.core = k.core → realPathResult k.fs name = some q →
      Linux.faulty.Always (f (some (ptr, render q))) Q k') :
    Linux.faulty.Always (realPath (some name) none >>= f) Q k :=
  always_realPath_cases h0 (fun k' hcore _ => hnone k' hcore) (fun k' hcore _ => hnone k' hcore)
    hsome

theorem realPath_returns {k : Linux} {name : Bytes} (h0 : 0 ∉ name) (hf : k.faulted = false)
    {q : List Name} (hq : realPathResult k.fs name = some q)
    {f : Option (Ptr × Bytes) → Lkl (EfiStatus × Option LklIfile)} {F : FsTree}
    (h : Linux.faulty.Always (realPath (some name) none >>= f) (KeepsTree F) k) :
    ∃ k' ptr, k'.fs = k.fs ∧ Linux.faulty.Always (f (some (ptr, render q))) (KeepsTree F) k' := by
  have hrun := Linux.always_run ((realPath_always_result k h0).and (Env.always_bind.mp h))
  have hfault := Linux.run_faulted (realPath (some name) none) k
  obtain ⟨⟨hcore, hr⟩, hrest⟩ := hrun
  rcases hr with ⟨hbad, -⟩ | hr
  · rw [hfault, hf] at hbad
    cases hbad
  · rw [hq, Option.map_some, Option.map_eq_some_iff] at hr
    obtain ⟨⟨ptr, _⟩, hsome, rfl⟩ := hr
    rw [hsome] at hrest
    exact ⟨_, ptr, Linux.fs_eq_of_core hcore, hrest⟩

section Whole

variable {k : Linux} {m : List Name} {parent : LklIfile} {fileName : Option (List UInt16)}
  {openMode attributes : UInt64}

theorem lklOpen_keeps (hm : Mounted k.fs parent.volume m)
    (h : ¬Creates k.fs m parent fileName openMode attributes) :
    Linux.faulty.Always (lklOpen parent fileName openMode attributes) (KeepsTree k.fs) k := by
  unfold lklOpen
  cases fileName with
  | none => exact fun _ => rfl
  | some name =>
  dsimp only
  rcases hflags : openFlags parent.volume.readOnly openMode attributes with status | ⟨flags, mode⟩
  · exact fun _ => rfl
  dsimp only
  apply Linux.always_allocatePool
  swap
  · exact openDone_keeps (by rfl) _ _ none
  apply Linux.always_allocatePool
  swap
  · exact openDone_keeps (by rfl) _ _ none
  dsimp only
  have h0 := nul_not_mem_openPath parent name
  by_cases hcreate : createMode openMode = true
  · rw [if_pos hcreate, if_neg (splitBase_ne_nil hm name), Linux.always_touch]
    refine always_realPath (nul_not_mem_splitBase h0) ?_ ?_
    · exact fun k' hk' => openDone_keeps (Linux.fs_eq_of_core hk') _ _ none
    intro k' ptr q hcore hq
    have hk' : k'.fs = k.fs := Linux.fs_eq_of_core hcore
    have hcanon : k'.fs.tree.Canonical q := hk' ▸ realPathResult_canonical hq
    rw [← hk']
    refine openCreate_keeps (m := m) hm.point hcanon (slash_not_mem_splitBase hm name)
      (splitBase_ne_nil hm name) fun hnew => ?_
    rw [hk'] at hnew
    exact h ⟨name, _, q, rfl, hflags, hcreate, hq, hnew⟩
  · rw [if_neg hcreate]
    refine always_realPath h0 ?_ ?_
    · exact fun k' hk' => openDone_keeps (Linux.fs_eq_of_core hk') _ _ none
    intro k' ptr q hcore hq
    have hk' : k'.fs = k.fs := Linux.fs_eq_of_core hcore
    rw [← hk']
    refine openFile_keeps fun _ => ?_
    rw [Linux.open_fs_iff]
    rintro ⟨hcreat, -⟩
    obtain ⟨hvalid, hr⟩ := openFlags_ok hflags
    exact hcreate ((accessFlags_valid hvalid).1.mp (hr ▸ hcreat))

theorem lklOpen_leaves (hm : Mounted k.fs parent.volume m) (hf : k.faulted = false)
    (h : Creates k.fs m parent fileName openMode attributes) :
    ¬Linux.faulty.Always (lklOpen parent fileName openMode attributes) (KeepsTree k.fs) k := by
  obtain ⟨name, r, q, rfl, hflags, hcreate, hq, hnew⟩ := h
  obtain ⟨hvalid, hr⟩ := openFlags_ok hflags
  intro hkeeps
  unfold lklOpen at hkeeps
  dsimp only at hkeeps
  rw [hflags] at hkeeps
  have hbuffers := (Linux.always_ask.mp (Linux.always_ask.mp hkeeps).1).1
  dsimp only [Linux.handle, Linux.alloc] at hbuffers
  rw [if_pos hcreate, if_neg (splitBase_ne_nil hm name), Linux.always_touch] at hbuffers
  have h0 := nul_not_mem_splitBase (nul_not_mem_openPath parent name)
  obtain ⟨k', ptr, hk', hcreated⟩ := realPath_returns h0 (by exact hf) (by exact hq) hbuffers
  have hcanon := realPathResult_canonical hq
  have hfs : k'.fs = k.fs := hk'
  rw [← hfs] at hcanon hnew hcreated
  refine openCreate_leaves hm.point hcanon (slash_not_mem_splitBase hm name)
    (splitBase_ne_nil hm name) ?_ hnew hcreated
  rw [hr]
  exact (accessFlags_valid hvalid).1.mpr hcreate

end Whole

theorem lklOpen_atomic_iff (k : Linux) (m : List Name) (parent : LklIfile)
    (fileName : Option (List UInt16)) (openMode attributes : UInt64)
    (hm : Mounted k.fs parent.volume m) :
    AtomicOnFailure { k with faulted := false } parent fileName openMode attributes ↔
      ¬Creates k.fs m parent fileName openMode attributes := by
  constructor
  · intro hatomic hcreates
    exact lklOpen_leaves (k := { k with faulted := false }) hm rfl hcreates hatomic.tree
  · intro h
    exact ⟨lklOpen_keeps (k := { k with faulted := false }) hm h, lklOpen_books_of_error _ _ _ _⟩

/-- The root handle asked to open a file that is not there. -/
theorem lklOpen_atomic_iff_missing :
    AtomicOnFailure { Linux.boot with fs := mountedTree, faulted := false } rootHandle
        (some [0x61]) EFI_FILE_MODE_READ 0 ↔
      ¬Creates mountedTree [ascii ['m', 'n', 't'], ascii ['1']] rootHandle (some [0x61])
        EFI_FILE_MODE_READ 0 :=
  lklOpen_atomic_iff { Linux.boot with fs := mountedTree } _ rootHandle _ _ _
    ⟨by decide, by decide, by decide⟩

/-- The directory `a` is made, and is still there when it cannot be opened. -/
theorem lklOpen_leaves_directory :
    ¬AtomicOnFailure { Linux.boot with fs := mountedTree } rootHandle (some [0x61])
      (EFI_FILE_MODE_READ ||| EFI_FILE_MODE_WRITE ||| EFI_FILE_MODE_CREATE) EFI_FILE_DIRECTORY := by
  have hm : Mounted mountedTree rootHandle.volume [ascii ['m', 'n', 't'], ascii ['1']] :=
    ⟨by decide, by decide, by decide⟩
  intro h
  refine lklOpen_leaves (k := { Linux.boot with fs := mountedTree }) hm rfl ?_ h.tree
  refine ⟨[0x61], (accessFlags 0x8000000000000003, 0o600), [ascii ['m', 'n', 't'], ascii ['1']],
    rfl, rfl, rfl, ?_, ?_⟩
  · decide
  · exact ⟨by decide, by decide, by decide, by decide⟩

end UefiLkl
