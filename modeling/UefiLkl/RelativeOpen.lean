import UefiLkl.CreateAgain
set_option autoImplicit false

/-!
Opening by a name relative to a handle, and by the absolute name put together from
the path of the handle.
-/

namespace UefiLkl
open Interaction PathWalk

/-- `'\\' path '\\' name`, or `'\\' name` at the root. -/
def absoluteName (path : Bytes) (name : List UInt16) : List UInt16 :=
  if path = [] then 0x5C :: name else 0x5C :: (path.map UInt8.toUInt16 ++ 0x5C :: name)

/-- Without the address at which it was allocated. -/
def LklIfile.unplaced (f : LklIfile) : LklIfile := { f with ptr := 0 }

/-- Two calls end alike: with the same status, with handles that differ in their addresses at most,
and with the same files, descriptors and objects reached. -/
structure SameOpen (x y : (EfiStatus × Option LklIfile) × Linux) : Prop where
  status : x.1.1 = y.1.1
  handle : x.1.2.map LklIfile.unplaced = y.1.2.map LklIfile.unplaced
  kernel : x.2.core = y.2.core

section Same

variable {k k' : Linux} {path : Bytes} {flags mode : Nat} {volume : LklVolume}
  {l l' : OpenLocals} {attributes : UInt64}

theorem Linux.open_core (k : Linux) (path : Bytes) (flags mode : Nat) :
    (k.core.open path flags mode).1 = (k.open path flags mode).1 ∧
      (k.core.open path flags mode).2.core = (k.open path flags mode).2.core := by
  simp only [Linux.open, Linux.core, Linux.walkPath, Linux.create, Linux.install]
  repeat' split
  all_goals exact ⟨rfl, rfl⟩

theorem Linux.mkdir_core (k : Linux) (path : Bytes) (mode : Nat) :
    (k.core.mkdir path mode).1 = (k.mkdir path mode).1 ∧
      (k.core.mkdir path mode).2.core = (k.mkdir path mode).2.core := by
  simp only [Linux.mkdir, Linux.core, Linux.walkPath, Linux.create]
  repeat' split
  all_goals exact ⟨rfl, rfl⟩

theorem Linux.open_of_core (hk : k.core = k'.core) :
    (k.open path flags mode).1 = (k'.open path flags mode).1 ∧
      (k.open path flags mode).2.core = (k'.open path flags mode).2.core := by
  obtain ⟨hfd, hcore⟩ := k.open_core path flags mode
  obtain ⟨hfd', hcore'⟩ := k'.open_core path flags mode
  rw [← hfd, ← hcore, hk]
  exact ⟨hfd', hcore'⟩

theorem Linux.mkdir_of_core (hk : k.core = k'.core) :
    (k.mkdir path mode).1 = (k'.mkdir path mode).1 ∧
      (k.mkdir path mode).2.core = (k'.mkdir path mode).2.core := by
  obtain ⟨hrc, hcore⟩ := k.mkdir_core path mode
  obtain ⟨hrc', hcore'⟩ := k'.mkdir_core path mode
  rw [← hrc, ← hcore, hk]
  exact ⟨hrc', hcore'⟩

theorem openDone_run (hl : l.fd = -1) (status : EfiStatus) (ifile : Option LklIfile) (k : Linux) :
    (openDone l status ifile).run Linux.handle k = ((status, ifile), k) := by
  unfold openDone
  rw [if_neg (by simp [hl]), openFree_run]

theorem openDone_same (hk : k.core = k'.core) (hl : l.fd = -1) (hl' : l'.fd = -1)
    (status : EfiStatus) :
    SameOpen ((openDone l status none).run Linux.handle k)
      ((openDone l' status none).run Linux.handle k') := by
  rw [openDone_run hl, openDone_run hl']
  exact ⟨rfl, rfl, hk⟩

theorem openFile_same (hk : k.core = k'.core) (hl : l.fd = -1) (hl' : l'.fd = -1) :
    SameOpen ((openFile volume l path flags mode).run Linux.handle k)
      ((openFile volume l' path flags mode).run Linux.handle k') := by
  by_cases hpre : startsWith path volume.lklMountPoint = true
  swap
  · unfold openFile
    rw [if_pos (by simpa using hpre), if_pos (by simpa using hpre)]
    exact openDone_same hk hl hl' _
  obtain ⟨hfd, hcore⟩ := Linux.open_of_core hk
  by_cases hok : 0 ≤ (k.open path flags mode).1
  · obtain ⟨ino, hino⟩ := Linux.open_fd hok
    have hino' : (k'.open path flags mode).2.fd (k'.open path flags mode).1 =
        some ⟨ino, flags, 0⟩ := by
      rw [← hfd, ← hino]
      exact show (k'.open path flags mode).2.core.fd _ = (k.open path flags mode).2.core.fd _ by
        rw [hcore]
    have hinode : (k.open path flags mode).2.inode = (k'.open path flags mode).2.inode :=
      show (k.open path flags mode).2.core.inode = (k'.open path flags mode).2.core.inode by
        rw [hcore]
    rw [openFile_run_opened hpre hok hino, openFile_run_opened hpre (hfd ▸ hok) hino']
    refine ⟨rfl, ?_, hcore⟩
    simp [LklIfile.unplaced, hfd, hinode]
  · unfold openFile
    rw [if_neg (by simp [hpre]), if_neg (by simp [hpre]), Linux.run_open, Linux.run_open,
      if_pos (Int.not_le.mp hok), if_pos (hfd ▸ Int.not_le.mp hok), hfd]
    exact openDone_same hcore hl hl' _

theorem createdRun_same (hk : k.core = k'.core) (hl : l.fd = -1) (hl' : l'.fd = -1) :
    SameOpen (createdRun volume l path flags mode attributes k)
      (createdRun volume l' path flags mode attributes k') := by
  unfold createdRun
  by_cases hdir : attributes &&& EFI_FILE_DIRECTORY ≠ 0
  swap
  · rw [if_neg hdir, if_neg hdir]
    exact openFile_same hk hl hl'
  rw [if_pos hdir, if_pos hdir]
  obtain ⟨hrc, hcore⟩ := Linux.mkdir_of_core hk
  rw [← hrc]
  by_cases hfail : (k.mkdir path mode).1 ≠ 0
  · rw [if_pos hfail, if_pos hfail]
    exact openDone_same hcore hl hl' _
  · rw [if_neg hfail, if_neg hfail]
    exact openFile_same hcore hl hl'

end Same

structure SamePath (F : FsTree) (path path' : Bytes) : Prop where
  whole : realPathResult F path = realPathResult F path'
  directory : realPathResult F (splitBase path).1 = realPathResult F (splitBase path').1
  base : (splitBase path).2 = (splitBase path').2

section Alike

variable {k : Linux} {parent parent' : LklIfile} {name name' : List UInt16}
  {openMode attributes : UInt64} {flags mode : Nat}

theorem lklOpen_same_read (hvolume : parent'.volume = parent.volume)
    (hpath : SamePath k.fs (openPath parent name) (openPath parent' name'))
    (hflags : openFlags parent.volume.readOnly openMode attributes = .ok (flags, mode))
    (hcreate : createMode openMode = false) :
    SameOpen ((lklOpen parent (some name) openMode attributes).run Linux.handle k)
      ((lklOpen parent' (some name') openMode attributes).run Linux.handle k) := by
  obtain ⟨r, l, k₁, hr, hk₁, hl, hrun⟩ := lklOpen_run k name hflags hcreate
  obtain ⟨r', l', k₂, hr', hk₂, hl', hrun'⟩ := lklOpen_run k name' (hvolume ▸ hflags) hcreate
  rw [hrun, hrun', hvolume]
  rw [← hpath.whole] at hr'
  have hcore := hk₁.trans hk₂.symm
  cases hq : realPathResult k.fs (openPath parent name) with
  | none =>
    rw [hq, Option.map_none, Option.map_eq_none_iff] at hr hr'
    rw [hr, hr']
    exact openDone_same hcore hl hl' _
  | some q =>
    rw [hq, Option.map_some, Option.map_eq_some_iff] at hr hr'
    obtain ⟨⟨ptr, _⟩, rfl, rfl⟩ := hr
    obtain ⟨⟨ptr', _⟩, rfl, rfl⟩ := hr'
    exact openFile_same hcore hl hl'

theorem lklOpen_same_create (hvolume : parent'.volume = parent.volume)
    (hpath : SamePath k.fs (openPath parent name) (openPath parent' name'))
    (hflags : openFlags parent.volume.readOnly openMode attributes = .ok (flags, mode))
    (hcreate : createMode openMode = true)
    (hbase : (splitBase (openPath parent name)).2 ≠ []) :
    SameOpen ((lklOpen parent (some name) openMode attributes).run Linux.handle k)
      ((lklOpen parent' (some name') openMode attributes).run Linux.handle k) := by
  have hbase' := hpath.base ▸ hbase
  cases hq : realPathResult k.fs (splitBase (openPath parent name)).1 with
  | none =>
    obtain ⟨r, l, k₁, hr, hk₁, hl, hrun⟩ := lklOpen_resolve_run k name hflags hcreate hbase
    obtain ⟨r', l', k₂, hr', hk₂, hl', hrun'⟩ :=
      lklOpen_resolve_run k name' (hvolume ▸ hflags) hcreate hbase'
    rw [hq, Option.map_none, Option.map_eq_none_iff] at hr
    rw [← hpath.directory, hq, Option.map_none, Option.map_eq_none_iff] at hr'
    rw [hrun, hrun', hr, hr']
    exact openDone_same (hk₁.trans hk₂.symm) hl hl' _
  | some q =>
    obtain ⟨l, k₁, hk₁, hl, hrun⟩ := lklOpen_create_run hflags hcreate hbase hq
    obtain ⟨l', k₂, hk₂, hl', hrun'⟩ :=
      lklOpen_create_run (hvolume ▸ hflags) hcreate hbase' (hpath.directory.symm.trans hq)
    rw [hrun, hrun', hvolume, ← hpath.base]
    exact createdRun_same (hk₁.trans hk₂.symm) hl hl'

theorem lklOpen_same (hvolume : parent'.volume = parent.volume)
    (hpath : SamePath k.fs (openPath parent name) (openPath parent' name'))
    (openMode attributes : UInt64) :
    SameOpen ((lklOpen parent (some name) openMode attributes).run Linux.handle k)
      ((lklOpen parent' (some name') openMode attributes).run Linux.handle k) := by
  rcases hflags : openFlags parent.volume.readOnly openMode attributes with status | ⟨flags, mode⟩
  · unfold lklOpen
    dsimp only
    rw [hvolume, hflags]
    exact ⟨rfl, rfl, rfl⟩
  by_cases hcreate : createMode openMode = true
  swap
  · exact lklOpen_same_read hvolume hpath hflags (by simpa using hcreate)
  by_cases hbase : (splitBase (openPath parent name)).2 = []
  · have hbase' := hpath.base ▸ hbase
    unfold lklOpen
    dsimp only
    rw [hvolume, hflags]
    dsimp only
    rw [Linux.run_allocatePool, Linux.run_allocatePool]
    dsimp only
    rw [Linux.run_allocatePool, Linux.run_allocatePool]
    dsimp only
    rw [if_pos hcreate, if_pos hcreate, if_pos hbase, if_pos hbase']
    exact openDone_same rfl rfl rfl _
  · exact lklOpen_same_create hvolume hpath hflags hcreate hbase

end Alike

theorem openAscii_cons {c : UInt16} {b : UInt8} (name : List UInt16) (hc : c.toUInt8 = b)
    (hb : b ≠ 0) :
    openAscii (c :: name) = (if b = backslash then slash else b) :: openAscii name := by
  have hc0 : c ≠ 0 := by
    rintro rfl
    exact hb hc.symm
  simp [openAscii, unicodeStrToAsciiStr, cString, pathToUnixAscii, hc0, hc, hb]

theorem openAscii_append {path : Bytes} (h0 : 0 ∉ path) (hback : backslash ∉ path)
    (name : List UInt16) :
    openAscii (path.map UInt8.toUInt16 ++ name) = path ++ openAscii name := by
  induction path with
  | nil => rfl
  | cons b path ih =>
    simp only [List.mem_cons, not_or] at h0 hback
    rw [List.map_cons, List.cons_append, openAscii_cons _ (UInt8.toUInt8_toUInt16 b) (Ne.symm h0.1),
      if_neg (Ne.symm hback.1), ih h0.2 hback.2, List.cons_append]

theorem openAscii_absoluteName {path : Bytes} (h0 : 0 ∉ path) (hback : backslash ∉ path)
    (name : List UInt16) :
    openAscii (absoluteName path name) =
      if path = [] then slash :: openAscii name else slash :: path ++ slash :: openAscii name := by
  unfold absoluteName
  split
  · exact openAscii_cons _ rfl (by decide)
  · rw [openAscii_cons _ rfl (by decide), openAscii_append h0 hback,
      openAscii_cons _ rfl (by decide)]
    rfl

/-- The first character does not count as a separator, not even when it is cut to eight bits. -/
def Relative (name : List UInt16) : Prop :=
  ∀ c, name.head? = some c → c.toUInt8 ≠ slash ∧ c.toUInt8 ≠ backslash

theorem Relative.head {name : List UInt16} (h : Relative name) :
    (openAscii name).head? ≠ some slash := by
  cases name with
  | nil => simp [openAscii, unicodeStrToAsciiStr, cString, pathToUnixAscii]
  | cons c name =>
    obtain ⟨hslash, hback⟩ := h c rfl
    by_cases h0 : c.toUInt8 = 0
    · by_cases hc : c = 0 <;>
        simp [openAscii, unicodeStrToAsciiStr, cString, pathToUnixAscii, h0, hc]
    · rw [openAscii_cons _ rfl h0, if_neg hback]
      simpa using hslash

theorem realPathResult_doubled {F : FsTree} {m : List Name} {rest : Bytes}
    (hm : F.tree.Canonical m) (hne : m ≠ []) (h : AtSeparator rest) :
    realPathResult F (render m ++ slash :: rest) = realPathResult F (render m ++ rest) := by
  have hcomp : components (render m) = [] :: m :=
    components_render hne fun a ha => (F.plain_of_canonical hm a ha).1
  have hhead : ∀ t, (render m ++ t).head? = some slash := by
    intro t
    obtain ⟨a, m', rfl⟩ := List.exists_cons_of_ne_nil hne
    rw [render_of_ne (by simp), joined_cons]
    rfl
  have hwalk : realPathWalk F 40 [] (render m ++ slash :: rest) =
      realPathWalk F 40 [] (render m ++ rest) := by
    rw [realPathWalk, realPathWalk, components_append_slash, components_append _ h, hcomp,
      List.cons_append, List.cons_append, walk_here (by simp) rfl, walk_here (by simp) rfl]
    apply walk_canonical_congr hm
    rw [components_atSeparator h, walk_here (by simp) rfl, List.tail_cons]
  rw [realPathResult, realPathResult, if_pos (hhead _), if_pos (hhead _), hwalk]

theorem rdropWhile_append {s t : Bytes} {f : UInt8 → Bool} (h : t.rdropWhile f ≠ []) :
    (s ++ t).rdropWhile f = s ++ t.rdropWhile f := by
  have hne : (t.reverse.dropWhile f).isEmpty = false := by
    rw [List.isEmpty_eq_false_iff]
    simpa [List.rdropWhile] using h
  rw [List.rdropWhile, List.reverse_append, List.dropWhile_append, hne]
  simp [List.rdropWhile]

theorem removeTrailingSlashes_append {s t : Bytes} (hs : s ≠ [])
    (h : t.rdropWhile (· == slash) ≠ []) :
    removeTrailingSlashes (s ++ t) = s ++ t.rdropWhile (· == slash) := by
  obtain ⟨c, s', rfl⟩ := List.exists_cons_of_ne_nil hs
  rw [List.cons_append, removeTrailingSlashes, rdropWhile_append h, List.cons_append]

theorem basenameFrom_append {dir base : Bytes} (hb : slash ∉ base) (j : Nat)
    (hj : j < base.length) :
    basenameFrom (dir ++ slash :: base) (dir.length + 1 + j) = dir.length + 1 := by
  induction j with
  | zero => simp [basenameFrom]
  | succ j ih =>
    have hget : (dir ++ slash :: base)[dir.length + 1 + j]? = base[j]? := by
      rw [List.getElem?_append_right (by omega)]
      have hsub : dir.length + 1 + j - dir.length = j + 1 := by omega
      rw [hsub, List.getElem?_cons_succ]
    have hne : base[j]? ≠ some slash := fun h => hb (List.mem_of_getElem? h)
    rw [← Nat.add_assoc, basenameFrom, hget, if_neg hne]
    exact ih (by omega)

theorem splitBase_of_trimmed {path dir base : Bytes}
    (h : removeTrailingSlashes path = dir ++ slash :: base) (hb : slash ∉ base)
    (hne : base ≠ []) : splitBase path = (dir, base) := by
  have hpos := List.length_pos_iff.mpr hne
  have hptr : getBasenamePtr (dir ++ slash :: base) = dir.length + 1 := by
    have hlen : (dir ++ slash :: base).length - 1 = dir.length + 1 + (base.length - 1) := by
      rw [List.length_append, List.length_cons]
      omega
    rw [getBasenamePtr, hlen]
    exact basenameFrom_append hb _ (by omega)
  have htake : (dir ++ slash :: base).take dir.length = dir := List.take_left
  have hdrop : (dir ++ slash :: base).drop (dir.length + 1) = base := by
    rw [← List.drop_drop, List.drop_left]
    rfl
  simp [splitBase, h, hptr, htake, hdrop]

theorem last_slash (s : Bytes) : ∃ dir base, slash :: s = dir ++ slash :: base ∧ slash ∉ base := by
  induction s using List.reverseRecOn with
  | nil => exact ⟨[], [], rfl, by simp⟩
  | append_singleton s x ih =>
    by_cases hx : x = slash
    · exact ⟨slash :: s, [], by simp [hx], by simp⟩
    · obtain ⟨dir, base, hsplit, hb⟩ := ih
      refine ⟨dir, base ++ [x], ?_, by simp [hb, Ne.symm hx]⟩
      rw [← List.cons_append, hsplit, List.append_assoc, List.cons_append]

theorem atSeparator_of_append {s dir base : Bytes} (h : slash :: s = dir ++ slash :: base) :
    AtSeparator dir := by
  cases dir with
  | nil => exact .inl rfl
  | cons x dir =>
    rw [List.cons_append, List.cons.injEq] at h
    exact .inr ⟨dir, by rw [← h.1]⟩

theorem splitBase_congr {path path' : Bytes}
    (h : removeTrailingSlashes path = removeTrailingSlashes path') :
    splitBase path = splitBase path' := by
  rw [splitBase, splitBase, h]

/-- At the root of the volume the relative path has one separator more. -/
theorem samePath_doubled {F : FsTree} {m : List Name} {name : Bytes} (hm : F.tree.Canonical m)
    (hne : m ≠ []) (hname : name.head? ≠ some slash) :
    SamePath F (render m ++ slash :: slash :: name) (render m ++ slash :: name) := by
  have hwhole := realPathResult_doubled hm hne (.inr ⟨name, rfl⟩)
  have hrender : render m ≠ [] := by
    rw [render_of_ne hne]
    obtain ⟨a, m', rfl⟩ := List.exists_cons_of_ne_nil hne
    simp [joined_cons]
  by_cases hnil : name.rdropWhile (· == slash) = []
  · -- nothing but the mount point is left of both
    obtain rfl : name = [] := by
      cases name with
      | nil => rfl
      | cons x name =>
        have hx := List.rdropWhile_eq_nil_iff.mp hnil x (by simp)
        exact absurd (by simpa using hx) hname
    have htrim : removeTrailingSlashes (render m ++ [slash, slash]) =
        removeTrailingSlashes (render m ++ [slash]) := by
      obtain ⟨c, s, hs⟩ := List.exists_cons_of_ne_nil hrender
      have htwo : s ++ [slash, slash] = s ++ [slash] ++ [slash] := by simp
      rw [hs, List.cons_append, List.cons_append, removeTrailingSlashes, removeTrailingSlashes,
        htwo, List.rdropWhile_concat_pos _ _ _ (by simp)]
    have hsplit := splitBase_congr htrim
    exact ⟨hwhole, by rw [hsplit], by rw [hsplit]⟩
  have hdrop : (slash :: name).rdropWhile (· == slash) =
      slash :: name.rdropWhile (· == slash) := rdropWhile_append (s := [slash]) hnil
  have hdrop₂ : (slash :: slash :: name).rdropWhile (· == slash) =
      slash :: slash :: name.rdropWhile (· == slash) := rdropWhile_append (s := [slash, slash]) hnil
  have htrim := removeTrailingSlashes_append hrender (t := slash :: name) (by simp [hdrop])
  have htrim₂ := removeTrailingSlashes_append hrender (t := slash :: slash :: name)
    (by simp [hdrop₂])
  obtain ⟨dir, base, hsplit, hb⟩ := last_slash (name.rdropWhile (· == slash))
  have hbase : base ≠ [] := by
    rintro rfl
    have hlast := List.rdropWhile_last_not (· == slash) name hnil
    have hcons := congrArg List.getLast? hsplit
    rw [List.getLast?_concat, List.getLast?_cons_of_ne_nil hnil,
      List.getLast?_eq_some_getLast hnil] at hcons
    exact hlast (by simpa using hcons)
  rw [hdrop, hsplit, ← List.append_assoc] at htrim
  rw [hdrop₂, hsplit, ← List.cons_append, ← List.append_assoc] at htrim₂
  have hcut := splitBase_of_trimmed htrim hb hbase
  have hcut₂ := splitBase_of_trimmed htrim₂ hb hbase
  refine ⟨hwhole, ?_, by rw [hcut, hcut₂]⟩
  rw [hcut, hcut₂]
  exact realPathResult_doubled hm hne (atSeparator_of_append hsplit)

theorem openPath_relative {parent : LklIfile} {name : List UInt16} (h : Relative name) :
    openPath parent name = parent.volume.lklMountPoint.val ++
      slash :: parent.filePath.val ++ slash :: openAscii name :=
  if_neg h.head

theorem openPath_absolute {parent root : LklIfile} {name : List UInt16}
    (hroot : root.volume = parent.volume) (hback : backslash ∉ parent.filePath.val) :
    openPath root (absoluteName parent.filePath.val name) =
      if parent.filePath.val = [] then parent.volume.lklMountPoint.val ++ slash :: openAscii name
      else parent.volume.lklMountPoint.val ++
        slash :: parent.filePath.val ++ slash :: openAscii name := by
  have hname := openAscii_absoluteName parent.filePath.property hback name
  unfold openPath
  dsimp only
  rw [hname, hroot]
  by_cases hp : parent.filePath.val = []
  · simp [hp]
  · simp [hp]

/-- A name relative to a handle opens what the absolute name opens, if its first character does not
turn into a separator. -/
theorem lklOpen_relative (k : Linux) (m : List Name) (parent root : LklIfile)
    (name : List UInt16) (openMode attributes : UInt64) (hm : Mounted k.fs parent.volume m)
    (hroot : root.volume = parent.volume) (hback : backslash ∉ parent.filePath.val)
    (hname : Relative name) :
    SameOpen ((lklOpen parent (some name) openMode attributes).run Linux.handle k)
      ((lklOpen root (some (absoluteName parent.filePath.val name)) openMode attributes).run
        Linux.handle k) := by
  apply lklOpen_same hroot
  rw [openPath_relative hname, openPath_absolute hroot hback]
  by_cases hp : parent.filePath.val = []
  · rw [if_pos hp, hp, hm.point, List.append_assoc]
    exact samePath_doubled hm.canonical hm.below hname.head
  · rw [if_neg hp]
    exact ⟨rfl, rfl, rfl⟩

def directoryKernel : Linux :=
  { Linux.boot with
    fs := mountedTree.insert [ascii ['m', 'n', 't'], ascii ['1']] (ascii ['d']) (.dir 3) }

/-- A new file `a` in the directory `d`. -/
theorem lklOpen_relative_new :
    SameOpen
      ((lklOpen { rootHandle with filePath := .of (ascii ['d']) } (some [0x61]) createRequest 0).run
        Linux.handle directoryKernel)
      ((lklOpen rootHandle (some (absoluteName (ascii ['d']) [0x61])) createRequest 0).run
        Linux.handle directoryKernel) :=
  lklOpen_relative directoryKernel [ascii ['m', 'n', 't'], ascii ['1']]
    { rootHandle with filePath := .of (ascii ['d']) } rootHandle [0x61] createRequest 0
    ⟨by decide, by decide, by decide⟩ rfl (by decide) (by intro c hc; cases hc; decide)

def openedDirectory : (EfiStatus × Option LklIfile) × Linux :=
  (lklOpen rootHandle (some [0x64]) EFI_FILE_MODE_READ 0).run Linux.handle directoryKernel

/-- The character U+012F is no separator, but its low eight bits are those of one: relative to `d`
it leads to the root directory, and the absolute name to `d`. -/
theorem lklOpen_relative_narrowed :
    ∃ h, openedDirectory.1 = (.success, some h) ∧ backslash ∉ h.filePath.val ∧
      ¬SameOpen ((lklOpen h (some [0x12F]) EFI_FILE_MODE_READ 0).run Linux.handle
          openedDirectory.2)
        ((lklOpen rootHandle (some (absoluteName h.filePath.val [0x12F])) EFI_FILE_MODE_READ
          0).run Linux.handle openedDirectory.2) := by
  have hopen : openedDirectory.1.1 = .success := by decide +kernel
  have hdiffers : openedDirectory.1.2.any (fun h => backslash ∉ h.filePath.val ∧
      ((lklOpen h (some [0x12F]) EFI_FILE_MODE_READ 0).run Linux.handle
        openedDirectory.2).1.2.map LklIfile.unplaced ≠
      ((lklOpen rootHandle (some (absoluteName h.filePath.val [0x12F])) EFI_FILE_MODE_READ 0).run
        Linux.handle openedDirectory.2).1.2.map LklIfile.unplaced) = true := by
    decide +kernel
  obtain ⟨h, hsome, hne⟩ := (Option.any_eq_true _ _).mp hdiffers
  have hboth := of_decide_eq_true hne
  exact ⟨h, Prod.ext hopen hsome, hboth.1, fun hsame => hboth.2 hsame.handle⟩

end UefiLkl
