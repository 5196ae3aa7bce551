import UefiLkl.Entries
import UefiLkl.Refusal
set_option autoImplicit false

/-!
File names: what `LKLRead` returns for an entry leads `LKLOpen` back to it, and different names
lead to different paths, as long as they consist of single bytes and keep clear of the separator.
-/

namespace UefiLkl
open Interaction PathWalk

def pathToUnix (fname : List UInt16) : List UInt16 :=
  fname.map fun c => if c = 0x5c then 0x2f else c

def startsWithSeparator (fileName : List UInt16) : Bool :=
  fileName.head? = some 0x5c || fileName.head? = some 0x2f

def Narrow (fileName : List UInt16) : Prop := ∀ c ∈ fileName, c ≠ 0 ∧ c < 0x100

instance (fileName : List UInt16) : Decidable (Narrow fileName) :=
  List.decidableBAll (fun c => c ≠ 0 ∧ c < 0x100) fileName

section Wide

variable {c d : UInt16} {a b : List UInt16}

theorem toUInt8_inj_of_lt (hc : c < 0x100) (hd : d < 0x100) (h : c.toUInt8 = d.toUInt8) :
    c = d := by
  have hn := congrArg UInt8.toNat h
  rw [UInt16.toNat_toUInt8, UInt16.toNat_toUInt8] at hn
  have hc' : c.toNat < 0x100 := UInt16.lt_iff_toNat_lt.mp hc
  have hd' : d.toNat < 0x100 := UInt16.lt_iff_toNat_lt.mp hd
  exact UInt16.toNat_inj.mp (by omega)

theorem toUInt8_ne_zero (h : c ≠ 0) (hc : c < 0x100) : c.toUInt8 ≠ 0 :=
  fun h0 => h (toUInt8_inj_of_lt hc (by decide) h0)

theorem openAscii_narrow (h : Narrow a) : openAscii a = (pathToUnix a).map UInt16.toUInt8 := by
  have hwide : a.takeWhile (· != 0) = a :=
    List.takeWhile_eq_self_iff.mpr fun c hc => bne_iff_ne.mpr (h c hc).1
  have h0 : 0 ∉ a.map UInt16.toUInt8 := by
    intro hmem
    obtain ⟨c, hc, hc0⟩ := List.mem_map.mp hmem
    exact toUInt8_ne_zero (h c hc).1 (h c hc).2 hc0
  rw [openAscii, unicodeStrToAsciiStr, hwide, cString_eq_self h0, pathToUnixAscii, pathToUnix,
    List.map_map, List.map_map]
  refine List.map_congr_left fun c hc => ?_
  by_cases hsep : c = 0x5c
  · simp only [hsep, Function.comp_apply]
    rfl
  · have hne : c.toUInt8 ≠ backslash :=
      fun hb => hsep (toUInt8_inj_of_lt (h c hc).2 (by decide) hb)
    simp only [Function.comp_apply, if_neg hsep, if_neg hne]

theorem narrow_pathToUnix (h : Narrow a) : Narrow (pathToUnix a) := by
  intro c hc
  obtain ⟨d, hd, rfl⟩ := List.mem_map.mp hc
  split
  · decide
  · exact h d hd

theorem narrow_inj (ha : Narrow a) (hb : Narrow b)
    (h : a.map UInt16.toUInt8 = b.map UInt16.toUInt8) : a = b := by
  induction a generalizing b with
  | nil => exact (List.map_eq_nil_iff.mp h.symm).symm
  | cons c a ih =>
    cases b with
    | nil => cases h
    | cons d b =>
      rw [List.map_cons, List.map_cons, List.cons.injEq] at h
      have hcd := toUInt8_inj_of_lt (ha c (by simp)).2 (hb d (by simp)).2 h.1
      rw [hcd, ih (fun c hc => ha c (by simp [hc])) (fun d hd => hb d (by simp [hd])) h.2]

theorem head_openAscii_iff (h : Narrow a) :
    (openAscii a).head? = some slash ↔ startsWithSeparator a = true := by
  rw [openAscii_narrow h]
  cases a with
  | nil => decide
  | cons c a =>
    have hc := (h c (by simp)).2
    by_cases hsep : c = 0x5c
    · simp [pathToUnix, startsWithSeparator, hsep, slash]
    · have hslash : c.toUInt8 = slash ↔ c = 0x2f :=
        ⟨fun hs => toUInt8_inj_of_lt hc (by decide) hs, fun hs => by rw [hs]; rfl⟩
      simp [pathToUnix, startsWithSeparator, hsep, hslash]

theorem openPath_inj (f : LklIfile) (ha : Narrow a) (hb : Narrow b)
    (hkind : startsWithSeparator a = startsWithSeparator b) (h : openPath f a = openPath f b) :
    pathToUnix a = pathToUnix b := by
  refine narrow_inj (narrow_pathToUnix ha) (narrow_pathToUnix hb) ?_
  rw [← openAscii_narrow ha, ← openAscii_narrow hb]
  unfold openPath at h
  dsimp only at h
  by_cases hsep : startsWithSeparator a = true
  · rw [if_pos ((head_openAscii_iff ha).mpr hsep),
      if_pos ((head_openAscii_iff hb).mpr (hkind ▸ hsep))] at h
    exact List.append_cancel_left h
  · rw [if_neg fun hh => hsep ((head_openAscii_iff ha).mp hh),
      if_neg fun hh => hsep (hkind ▸ (head_openAscii_iff hb).mp hh)] at h
    simpa using h

end Wide

section Back

variable {w : Nat} {k k₁ : Linux} {f f' : LklIfile} {m p : List Name} {name : Name} {n : FsNode}

/-- What a read of a directory delivers for an entry opens that entry, if there is no backslash
in its name and its path is shorter than `PATH_MAX`; and names of single bytes that differ, of
one kind, are resolved as different paths. -/
theorem fileNames_translated (w : Nat) (k : Linux) (f : LklIfile) (m p : List Name)
    (hf : DirectoryHandle k.fs f m p) (hkind : isDirMode f.statBuf.mode = true) :
    (∀ (name : Name) (n : FsNode), k.fs.node (m ++ p ++ [name]) = some n →
      n.entry.isLink = false → backslash ∉ name →
      (render (m ++ p ++ [name])).length < pathMax →
      ∀ (bufferSize : Nat) (status : EfiStatus) (size : Nat) (info : EfiFileInfo)
        (f' : LklIfile) (k₁ : Linux) (attributes : UInt64),
        (Linux.streaming f.fd (m ++ p)).Ran (lklRead w f bufferSize) k
          (status, size, .entry (some info), f') k₁ →
        info.fileName = asciiStrToUnicodeStr name →
        ∃ g k₂, (lklOpen f' (some info.fileName) EFI_FILE_MODE_READ attributes).run
              Linux.handle k₁ = ((.success, some g), k₂) ∧
          NewHandle k₁ k₂ f.volume (m ++ p ++ [name]) n O_RDONLY g) ∧
    ∀ (parent : LklIfile) (a b : List UInt16), Narrow a → Narrow b →
      startsWithSeparator a = startsWithSeparator b → pathToUnix a ≠ pathToUnix b →
      openPath parent a ≠ openPath parent b :=
  ⟨fun _ _ hn hlink hback hlen _ _ _ _ _ _ attributes hread hname =>
      hf.opens hkind hn hlink hback hlen hread hname attributes,
    fun parent _ _ ha hb hsep hne h => hne (openPath_inj parent ha hb hsep h)⟩

/-- The only entry of the root directory leads back to its file. -/
theorem fileNames_translated_first :
    ∃ (info : EfiFileInfo) (f' g : LklIfile) (k₁ k₂ : Linux),
      info.fileName = [0x61] ∧
      (lklOpen f' (some info.fileName) EFI_FILE_MODE_READ 0).run Linux.handle k₁ =
        ((.success, some g), k₂) ∧
      k₂.fd g.fd = some ⟨3, O_RDONLY, 0⟩ ∧ openPath g [0x61] ≠ openPath g [0x62] := by
  have hroot := directoryHandle_listedRoot
  obtain ⟨info, f', k₁, hrun, hname⟩ := lklRead_reading 32
    (by decide : isDirMode listedRoot.statBuf.mode = true) rfl rfl hroot.dir
    (by decide : entrySize (ascii ['a']) ≤ 200)
  have hread := Env.ran_run
    (Linux.reading_may listedRoot.fd ([ascii ['m', 'n', 't'], ascii ['1']] ++ [])
    (ascii ['a'])) (lklRead 32 listedRoot 200) fileKernel
  rw [hrun] at hread
  have h := fileNames_translated 32 fileKernel listedRoot _ [] hroot (by decide)
  obtain ⟨g, k₂, hopen, hnew⟩ := h.1 (ascii ['a']) (.file 3) (by decide) rfl (by decide) (by decide)
    _ _ _ _ _ _ 0 hread hname
  refine ⟨info, f', g, k₁, k₂, hname, hopen, hnew.descriptor, ?_⟩
  exact h.2 g _ _ (by decide) (by decide) (by decide) (by decide)

end Back

def FsTree.chain (l : List Name) (h : ∀ a ∈ l, validName a = true) : FsTree where
  node p := if p <+: l then some (.dir p.length) else none
  root := by simp [FsNode.entry]
  parent p a hp := by
    have hpre : p ++ [a] <+: l := by
      by_contra hno
      exact hp (if_neg hno)
    rw [if_pos ((List.prefix_append p [a]).trans hpre)]
    rfl
  names p a hp := by
    have hpre : p ++ [a] <+: l := by
      by_contra hno
      exact hp (if_neg hno)
    exact h a (hpre.subset (by simp))
  valid p n hn := by
    split at hn
    · cases hn
      rfl
    · cases hn

theorem FsTree.chain_node {l : List Name} (h : ∀ a ∈ l, validName a = true) {p : List Name}
    (hp : p <+: l) : (FsTree.chain l h).node p = some (.dir p.length) := if_pos hp

theorem FsTree.isDir_chain {l : List Name} (h : ∀ a ∈ l, validName a = true) {p : List Name}
    (hp : p <+: l) : (FsTree.chain l h).tree.isDir p = true := by
  rw [PathTree.isDir_iff, FsTree.tree_entry, FsTree.chain_node h hp]
  rfl

def longName : Name := List.replicate 255 0x61

theorem length_longName : longName.length = 255 := List.length_replicate

theorem validName_longName : validName longName = true := by
  have hlen := length_longName
  have hkind : PathName.kind longName = .name := by
    refine kind_name_iff.mpr ⟨fun h => ?_, fun h => ?_, fun h => ?_⟩
    · rw [h] at hlen
      cases hlen
    · rw [h] at hlen
      cases hlen
    · rw [h] at hlen
      cases hlen
  have hno : ∀ x : UInt8, x ≠ 0x61 → longName.contains x = false := by
    intro x hx
    rw [Bool.eq_false_iff]
    exact fun h => hx (List.eq_of_mem_replicate (List.contains_iff_mem.mp h))
  rw [validName, hkind, hno slash (by decide), hno 0 (by decide), hlen]
  rfl

/-- Sixteen directories below the mount point, one in the other. -/
def deepTree : FsTree :=
  FsTree.chain (([ascii ['m', 'n', 't'], ascii ['1']] ++ List.replicate 15 longName) ++ [longName])
    (by
      intro a ha
      simp only [List.mem_append, List.mem_cons, List.not_mem_nil, or_false, List.mem_replicate,
        ne_eq, OfNat.ofNat_ne_zero, not_false_eq_true, true_and] at ha
      rcases ha with ((rfl | rfl) | rfl) | rfl
      · decide
      · decide
      · exact validName_longName
      · exact validName_longName)

theorem length_joined_replicate (n : Nat) :
    (joined (List.replicate n longName)).length = 256 * n := by
  induction n with
  | zero => rfl
  | succ n ih =>
    rw [List.replicate_succ, joined_cons, List.length_append, List.length_cons, ih, length_longName]
    omega

def deepDirectory : LklIfile :=
  { listedRoot with filePath := ⟨(joined (List.replicate 15 longName)).tail, by
      intro h
      obtain ⟨a, ha, h0⟩ := List.mem_flatMap.mp (List.mem_of_mem_tail h)
      rw [List.eq_of_mem_replicate ha, List.mem_cons] at h0
      rcases h0 with h0 | h0
      · cases h0
      · cases List.eq_of_mem_replicate h0⟩ }

theorem directoryHandle_deep :
    DirectoryHandle deepTree deepDirectory [ascii ['m', 'n', 't'], ascii ['1']]
      (List.replicate 15 longName) where
  mounted := ⟨by decide, by decide, FsTree.isDir_chain _ ((List.prefix_append _ _).trans
    (List.prefix_append _ _))⟩
  path := rfl
  dir := FsTree.isDir_chain _ (List.prefix_append _ _)
  short := by
    rw [render_of_ne (by simp), joined_append, List.length_append, length_joined_replicate]
    decide

def backslashKernel : Linux :=
  { Linux.boot with
    fs := mountedTree.insert [ascii ['m', 'n', 't'], ascii ['1']] [0x61, backslash, 0x62]
      (.file 3) }

/-- A read delivers the entry `name`, and its name does not open anything. -/
def Lost (k : Linux) (f : LklIfile) (dir : List Name) (name : Name) (bufferSize : Nat) : Prop :=
  ∃ (status : EfiStatus) (size : Nat) (info : EfiFileInfo) (f' : LklIfile) (k₁ : Linux),
    (Linux.streaming f.fd dir).Ran (lklRead 32 f bufferSize) k
      (status, size, .entry (some info), f') k₁ ∧
    info.fileName = asciiStrToUnicodeStr name ∧
    ((lklOpen f' (some info.fileName) EFI_FILE_MODE_READ 0).run Linux.handle k₁).1.1 ≠ .success

theorem lost_of_not_found {k : Linux} {f : LklIfile} {m p : List Name} {name : Name}
    {bufferSize : Nat} (hf : DirectoryHandle k.fs f m p) (hkind : isDirMode f.statBuf.mode = true)
    (hdir : f.dir = none) (hent : f.dirEnt = none) (hsize : entrySize name ≤ bufferSize)
    (hnone : realPathResult k.fs (openPath f (asciiStrToUnicodeStr name)) = none) :
    Lost k f (m ++ p) name bufferSize := by
  obtain ⟨info, f', k₁, hrun, hname⟩ := lklRead_reading 32 hkind hdir hent hf.dir hsize
  have hread := Env.ran_run (Linux.reading_may f.fd (m ++ p) name) (lklRead 32 f bufferSize) k
  rw [hrun] at hread
  have hdone := (lklRead_delivers hkind hf.dir).ran hread
  refine ⟨_, _, info, f', k₁, hread, hname, ?_⟩
  have hpath : openPath f' info.fileName = openPath f (asciiStrToUnicodeStr name) := by
    unfold openPath
    rw [hname, hdone.volume, hdone.path]
  rw [ne_eq, lklOpen_success_iff (openFlags_read _ _) (by decide)]
  rintro ⟨q, n, htarget⟩
  have hresolved := htarget.resolved
  rw [hpath, hdone.files.fs, hnone] at hresolved
  cases hresolved

/-- A name with a backslash, and one at the end of a long path, do not lead back to their
entries; and two names that only differ above the low bytes are resolved as one path. -/
theorem fileNames_lost :
    (backslashKernel.fs.node [ascii ['m', 'n', 't'], ascii ['1'], [0x61, backslash, 0x62]] =
        some (.file 3) ∧
      Lost backslashKernel listedRoot [ascii ['m', 'n', 't'], ascii ['1']]
        [0x61, backslash, 0x62] 200) ∧
    (deepTree.node (([ascii ['m', 'n', 't'], ascii ['1']] ++ List.replicate 15 longName) ++
        [longName]) = some (.dir 18) ∧
      Lost { Linux.boot with fs := deepTree } deepDirectory
        ([ascii ['m', 'n', 't'], ascii ['1']] ++ List.replicate 15 longName) longName 1000) ∧
    pathToUnix [0x61] ≠ pathToUnix [0x161] ∧
    startsWithSeparator [0x61] = startsWithSeparator [0x161] ∧
    openPath listedRoot [0x61] = openPath listedRoot [0x161] := by
  have hroot : DirectoryHandle backslashKernel.fs listedRoot
      [ascii ['m', 'n', 't'], ascii ['1']] [] :=
    ⟨⟨by decide, by decide, by decide⟩, by decide, by decide, by decide⟩
  have hdeep : deepTree.node
    (([ascii ['m', 'n', 't'], ascii ['1']] ++ List.replicate 15 longName) ++
      [longName]) = some (.dir 18) := FsTree.chain_node _ (List.prefix_refl _)
  refine ⟨⟨by decide, ?_⟩, ⟨hdeep, ?_⟩, by decide, by decide, by decide⟩
  · exact lost_of_not_found hroot (by decide) rfl rfl (by decide) (by decide)
  · refine lost_of_not_found (k := { Linux.boot with fs := deepTree }) directoryHandle_deep
      (by decide) rfl rfl ?_ ?_
    · rw [entrySize, unicodeSize, length_longName]
      decide
    · refine (directoryHandle_deep.result hdeep rfl ?_).trans (if_neg ?_)
      · exact fun h => absurd (List.eq_of_mem_replicate h) (by decide)
      · rw [render_of_ne (by simp), joined_append, joined_append, List.length_append,
          List.length_append, length_joined_replicate, joined_singleton, List.length_cons,
          length_longName]
        decide

end UefiLkl
