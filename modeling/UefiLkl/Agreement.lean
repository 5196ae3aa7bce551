import UefiLkl.Entries
import UefiLkl.Targets
set_option autoImplicit false

/-!
The record of an entry as the directory lists it, and as a handle of the entry reports it.
-/

namespace UefiLkl
open Interaction PathWalk

/-- The records say the same of the file; their sizes are left out. -/
structure SameDescription (a b : EfiFileInfo) : Prop where
  fileName : a.fileName = b.fileName
  fileSize : a.fileSize = b.fileSize
  physicalSize : a.physicalSize = b.physicalSize
  createTime : a.createTime = b.createTime
  lastAccessTime : a.lastAccessTime = b.lastAccessTime
  modificationTime : a.modificationTime = b.modificationTime
  attr : a.attr = b.attr

/-- The entry `name` is listed as `info`; it is opened by this name, with nothing in between, and
the handle reports `info'`. -/
inductive Described (w : Nat) (k : Linux) (f : LklIfile) (dir : List Name) (name : Name)
    (openMode attributes : UInt64) : EfiFileInfo → EfiFileInfo → Prop where
  | described {bufferSize bufferSize' size size' : Nat} {status status' : EfiStatus}
      {info info' : EfiFileInfo} {f' g : LklIfile} {k₁ k₂ k₃ : Linux}
      (hread : (Linux.streaming f.fd dir).Ran (lklRead w f bufferSize) k
        (status, size, .entry (some info), f') k₁)
      (hname : info.fileName = asciiStrToUnicodeStr name)
      (hopen : (lklOpen f' (some info.fileName) openMode attributes).run Linux.handle k₁ =
        ((.success, some g), k₂))
      (hinfo : (lklGetInfo w g .fileInfo bufferSize').run Linux.handle k₂ =
        ((status', size', some (.file info')), k₃)) :
      Described w k f dir name openMode attributes info info'

section Handles

variable {w : Nat} {k k₁ k₂ : Linux} {f f' g : LklIfile} {m p : List Name} {name : Name}
  {n : FsNode}
  {openMode attributes : UInt64}

theorem ifileName_eq (hpath : f.filePath.val = (joined (p ++ [name])).tail) (hs : slash ∉ name)
    (hne : name ≠ []) : ifileName f = name := by
  rw [ifileName, hpath]
  cases p with
  | nil =>
    rw [List.nil_append, joined_singleton, List.tail_cons]
    exact drop_getBasenamePtr hs
  | cons a p =>
    have htail : (joined (a :: p ++ [name])).tail = (a ++ joined p) ++ slash :: name := by
      rw [List.cons_append, joined_cons, joined_append, joined_singleton]
      simp
    rw [htail]
    exact drop_getBasenamePtr_append (a ++ joined p) hs hne

theorem statAttribute_eq_iff (i : Inode) :
    statAttribute i.stat =
        (if i.isDir then EFI_FILE_READ_ONLY ||| EFI_FILE_DIRECTORY else EFI_FILE_READ_ONLY) ↔
      i.ownerWrite = false := by
  have hperm : i.stat.mode &&& S_IWUSR = (i.perm : Nat) &&& S_IWUSR := by
    show fileMode i.isDir i.perm &&& S_IWUSR = (i.perm : Nat) &&& S_IWUSR
    rw [fileMode, Nat.and_or_distrib_right]
    cases i.isDir <;> simp [S_IFDIR, S_IFREG, S_IWUSR]
  have hdir : isDirMode i.stat.mode = i.isDir := i.isDirMode_mode
  rw [statAttribute, hperm, hdir, Inode.ownerWrite]
  by_cases hw : (i.perm : Nat) &&& S_IWUSR = 0
  · rw [if_pos hw]
    cases i.isDir <;> simp [hw]
  · rw [if_neg hw]
    have hfile : ¬(0 ||| 0 : UInt64) = EFI_FILE_READ_ONLY := by decide
    have hdirectory : ¬0 ||| EFI_FILE_DIRECTORY = EFI_FILE_READ_ONLY ||| EFI_FILE_DIRECTORY := by
      decide
    cases i.isDir
    · exact iff_of_false hfile (by simp [hw])
    · exact iff_of_false hdirectory (by simp [hw])

theorem DirectoryHandle.opened (hf : DirectoryHandle k.fs f m p)
    (hn : k.fs.node (m ++ p ++ [name]) = some n) (hlink : n.entry.isLink = false)
    (hback : backslash ∉ name) (hcreate : createMode openMode = false)
    (hopen : (lklOpen f (some (asciiStrToUnicodeStr name)) openMode attributes).run Linux.handle k =
      ((.success, some g), k₁)) :
    (render (m ++ p ++ [name])).length < pathMax ∧
      ∃ flags, NewHandle k k₁ f.volume (m ++ p ++ [name]) n flags g := by
  cases hflags : openFlags f.volume.readOnly openMode attributes with
  | error status =>
    unfold lklOpen at hopen
    dsimp only at hopen
    rw [hflags] at hopen
    cases hopen
  | ok r =>
    obtain ⟨flags, mode⟩ := r
    have hsuccess : ((lklOpen f (some (asciiStrToUnicodeStr name)) openMode attributes).run
        Linux.handle k).1.1 = .success := by rw [hopen]
    obtain ⟨q, n', htarget⟩ := (lklOpen_success_iff hflags hcreate).mp hsuccess
    have hresult := htarget.resolved
    rw [hf.result hn hlink hback] at hresult
    split at hresult
    · rename_i hlen
      cases hresult
      have hnode := htarget.node
      rw [hn] at hnode
      cases hnode
      obtain ⟨g', k', hrun, hnew⟩ := lklOpen_opens (k := k) hflags hcreate htarget
      rw [hopen] at hrun
      cases hrun
      exact ⟨hlen, flags, hnew⟩
    · cases hresult

theorem NewHandle.ifileName {flags : Nat} (h : NewHandle k k₁ f.volume (m ++ p ++ [name]) n flags g)
    (hm : Mounted k.fs f.volume m) (hn : k.fs.node (m ++ p ++ [name]) = some n)
    (hlink : n.entry.isLink = false) (hlen : (render (m ++ p ++ [name])).length < pathMax) :
    ifileName g = name := by
  have hvalid : validName name = true := k.fs.names (m ++ p) name (by rw [hn]; simp)
  have hparent : k.fs.tree.Canonical (m ++ p) :=
    k.fs.canonical_of_isDir ((k.fs.tree.isDir_iff _).mpr (k.fs.parent _ name (by rw [hn]; simp)))
  have hcanon : k.fs.tree.Canonical (m ++ p ++ [name]) :=
    hparent.snoc (by simp_all [validName]) (by rw [FsTree.tree_entry, hn]; rfl) hlink
  rw [List.append_assoc] at hcanon hlen
  have hpath : g.filePath.val = (joined (p ++ [name])).tail := by
    rw [h.path, List.append_assoc]
    exact storedPath_render hm hcanon hlen
  exact ifileName_eq hpath (slash_of_validName hvalid) (ne_nil_of_validName hvalid)

/-- The two records of an entry differ in the attribute alone: the listing asks the permissions,
and a handle is always reported as read-only. -/
theorem Described.records {info info' : EfiFileInfo} (hf : DirectoryHandle k.fs f m p)
    (hkind : isDirMode f.statBuf.mode = true) (hn : k.fs.node (m ++ p ++ [name]) = some n)
    (hlink : n.entry.isLink = false) (hback : backslash ∉ name)
    (hcreate : createMode openMode = false)
    (h : Described w k f (m ++ p) name openMode attributes info info') :
    info.attr = statAttribute (k.inode n.ino).stat ∧
      info'.attr = (if (k.inode n.ino).isDir then EFI_FILE_READ_ONLY ||| EFI_FILE_DIRECTORY
        else EFI_FILE_READ_ONLY) ∧
      (info.attr = info'.attr → SameDescription info info') := by
  obtain @⟨_, bufferSize', _, _, _, _, _, _, f', g, k₁, k₂, k₃, hread, hname, hopen, hinfo⟩ := h
  have hdone := (lklRead_delivers hkind hf.dir).ran hread
  have hf' := hf.read hdone
  have hn' : k₁.fs.node (m ++ p ++ [name]) = some n := by
    rw [hdone.files.fs]
    exact hn
  rw [hname] at hopen
  obtain ⟨hlen, flags, hnew⟩ := hf'.opened hn' hlink hback hcreate hopen
  have hfile := hnew.ifileName hf'.mounted hn' hlink hlen
  -- the record of the listing is that of this entry
  obtain ⟨name', hdelivered⟩ := hdone.entry info rfl
  have hnames : name' = name := asciiStrToUnicodeStr_inj (hdelivered.named.symm.trans hname)
  rw [hnames] at hdelivered
  obtain ⟨size₀, rfl⟩ := hdelivered.filled n hn hlink
  -- and so is that of the handle
  have hinode : k₂.inode n.ino = k.inode n.ino := by
    rw [hnew.inodes, hdone.files.inode]
  have hstat : isDirMode g.statBuf.mode = (k₂.inode n.ino).isDir := by
    rw [hnew.stat, hdone.files.inode, hinode]
    exact Inode.isDirMode_mode _
  by_cases hsize : infoSize g ≤ bufferSize'
  · rw [lklGetInfo_reports w hnew.descriptor hstat hsize] at hinfo
    cases hinfo
    rw [reportedInfo, hfile, hinode]
    exact ⟨rfl, rfl, fun hattr => ⟨rfl, rfl, rfl, rfl, rfl, rfl, hattr⟩⟩
  · -- the buffer is too small
    unfold lklGetInfo lklGetFileInfo at hinfo
    dsimp only at hinfo
    have hsmall : SIZE_OF_EFI_FILE_INFO + unicodeSize (UefiLkl.ifileName g) > bufferSize' :=
      Nat.not_le.mp hsize
    rw [if_pos hsmall] at hinfo
    cases hinfo

/-- The records agree exactly where the owner may not write. -/
theorem listing_agrees_iff {info info' : EfiFileInfo} (hf : DirectoryHandle k.fs f m p)
    (hkind : isDirMode f.statBuf.mode = true) (hn : k.fs.node (m ++ p ++ [name]) = some n)
    (hlink : n.entry.isLink = false) (hback : backslash ∉ name)
    (hcreate : createMode openMode = false)
    (h : Described w k f (m ++ p) name openMode attributes info info') :
    SameDescription info info' ↔ (k.inode n.ino).ownerWrite = false := by
  obtain ⟨hlisted, hreported, hsame⟩ := h.records hf hkind hn hlink hback hcreate
  rw [← statAttribute_eq_iff, ← hlisted, ← hreported]
  exact ⟨fun h => h.attr, hsame⟩

theorem exists_described (w : Nat) (hf : DirectoryHandle k.fs f m p)
    (hkind : isDirMode f.statBuf.mode = true) (hdir : f.dir = none) (hent : f.dirEnt = none)
    (hn : k.fs.node (m ++ p ++ [name]) = some n) (hlink : n.entry.isLink = false)
    (hback : backslash ∉ name) (hlen : (render (m ++ p ++ [name])).length < pathMax)
    (attributes : UInt64) :
    ∃ info info', Described w k f (m ++ p) name EFI_FILE_MODE_READ attributes info info' := by
  obtain ⟨info, f', k₁, hrun, hname⟩ := lklRead_reading w hkind hdir hent hf.dir
    (le_refl (entrySize name))
  have hread := Env.ran_run (Linux.reading_may f.fd (m ++ p) name) (lklRead w f (entrySize name)) k
  rw [hrun] at hread
  obtain ⟨g, k₂, hopen, hnew⟩ := hf.opens hkind hn hlink hback hlen hread hname attributes
  have hdone := (lklRead_delivers hkind hf.dir).ran hread
  have hstat : isDirMode g.statBuf.mode = (k₂.inode n.ino).isDir := by
    rw [hnew.stat, hnew.inodes]
    exact Inode.isDirMode_mode _
  exact ⟨info, _, .described hread hname hopen
    (lklGetInfo_reports w hnew.descriptor hstat (le_refl (infoSize g)))⟩

end Handles

def permittedKernel (perm : Fin 4096) : Linux :=
  { fileKernel with inode := fun _ => ⟨false, perm, 5, 8, 0, 0, fun _ => 0⟩ }

theorem exists_described_permitted (perm : Fin 4096) :
    ∃ info info', Described 32 (permittedKernel perm) listedRoot
      ([ascii ['m', 'n', 't'], ascii ['1']] ++ []) (ascii ['a']) EFI_FILE_MODE_READ 0 info info' :=
  exists_described 32 (k := permittedKernel perm) directoryHandle_listedRoot (by decide) rfl rfl
    (by decide : fileKernel.fs.node _ = some (.file 3)) rfl (by decide) (by decide) 0

/-- A file that nobody may write to is described in the same way twice. -/
theorem listing_agrees_iff_readOnly :
    ∃ info info', SameDescription info info' ∧
      Described 32 (permittedKernel 0o444) listedRoot ([ascii ['m', 'n', 't'], ascii ['1']] ++ [])
        (ascii ['a']) EFI_FILE_MODE_READ 0 info info' := by
  obtain ⟨info, info', h⟩ := exists_described_permitted 0o444
  have hiff := listing_agrees_iff (k := permittedKernel 0o444) directoryHandle_listedRoot
    (by decide) (by decide : fileKernel.fs.node _ = some (.file 3)) rfl (by decide) (by decide) h
  exact ⟨info, info', hiff.mpr (by decide), h⟩

/-- An ordinary file is listed as one that may be written to, and reported as read-only. -/
theorem listing_disagrees :
    ∃ info info', ¬SameDescription info info' ∧
      Described 32 (permittedKernel 0o644) listedRoot ([ascii ['m', 'n', 't'], ascii ['1']] ++ [])
        (ascii ['a']) EFI_FILE_MODE_READ 0 info info' := by
  obtain ⟨info, info', h⟩ := exists_described_permitted 0o644
  obtain ⟨hlisted, hreported, -⟩ := h.records (k := permittedKernel 0o644)
    directoryHandle_listedRoot (by decide) (by decide : fileKernel.fs.node _ = some (.file 3)) rfl
    (by decide) (by decide)
  refine ⟨info, info', fun hsame => ?_, h⟩
  have hattr := hsame.attr
  rw [hlisted, hreported] at hattr
  exact absurd hattr (by decide)

end UefiLkl
