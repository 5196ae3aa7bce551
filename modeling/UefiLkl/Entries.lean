import UefiLkl.Listing
import UefiLkl.OpenRun
set_option autoImplicit false

/-!
The entries of a directory: where opening one by its name leads, and what a read of the
directory finds out about one.
-/

namespace UefiLkl
open Interaction PathWalk

theorem toUInt16_ne_zero {x : UInt8} (h : x ≠ 0) : x.toUInt16 ≠ 0 := by
  intro h0
  have hback := congrArg UInt16.toUInt8 h0
  simp at hback
  exact h hback

theorem openAscii_asciiStrToUnicodeStr {name : Bytes} (h0 : 0 ∉ name) :
    openAscii (asciiStrToUnicodeStr name) = pathToUnixAscii name := by
  have hall : ∀ x ∈ asciiStrToUnicodeStr name, (x != 0) = true := by
    intro x hx
    obtain ⟨y, hy, rfl⟩ := List.mem_map.mp hx
    exact bne_iff_ne.mpr (toUInt16_ne_zero fun hy0 => h0 (hy0 ▸ hy))
  have hback : unicodeStrToAsciiStr (asciiStrToUnicodeStr name) = name := by
    unfold unicodeStrToAsciiStr
    rw [List.takeWhile_eq_self_iff.mpr hall, asciiStrToUnicodeStr, List.map_map]
    have hid : UInt16.toUInt8 ∘ UInt8.toUInt16 = id := by
      funext x
      simp
    rw [hid, List.map_id]
  rw [openAscii, hback, cString_eq_self h0]

theorem asciiStrToUnicodeStr_inj {a b : Bytes}
    (h : asciiStrToUnicodeStr a = asciiStrToUnicodeStr b) : a = b := by
  have hinj : Function.Injective UInt8.toUInt16 := by
    intro x y hxy
    simpa using congrArg UInt16.toUInt8 hxy
  exact List.map_injective_iff.mpr hinj h

theorem pathToUnixAscii_eq_self {name : Bytes} (h : backslash ∉ name) :
    pathToUnixAscii name = name := by
  induction name with
  | nil => rfl
  | cons x name ih =>
    have hx : x ≠ backslash := fun hx => h (by simp [hx])
    rw [pathToUnixAscii, List.map_cons, if_neg hx]
    exact congrArg _ (ih fun hm => h (List.mem_cons_of_mem x hm))

theorem basenameFrom_eq {s : Bytes} {j : Nat} (hj : s[j]? = some slash) (i : Nat)
    (hno : ∀ i', j < i' → i' < i → s[i']? ≠ some slash) (hi : j < i) :
    basenameFrom s i = j + 1 := by
  induction i with
  | zero => omega
  | succ i ih =>
    unfold basenameFrom
    by_cases hij : i = j
    · rw [hij, if_pos hj]
    · rw [if_neg (hno i (by omega) (by omega))]
      exact ih (fun i' h₁ h₂ => hno i' h₁ (by omega)) (by omega)

theorem basenameFrom_zero {s : Bytes} (i : Nat) (hno : ∀ i' < i, s[i']? ≠ some slash) :
    basenameFrom s i = 0 := by
  induction i with
  | zero => rfl
  | succ i ih =>
    unfold basenameFrom
    rw [if_neg (hno i (Nat.lt_succ_self i))]
    exact ih fun i' h' => hno i' (by omega)

theorem getElem?_ne_of_notMem {s : Bytes} {x : UInt8} (h : x ∉ s) (i : Nat) : s[i]? ≠ some x :=
  fun hi => h (List.mem_of_getElem? hi)

theorem drop_getBasenamePtr {name : Bytes} (hs : slash ∉ name) :
    name.drop (getBasenamePtr name) = name := by
  rw [getBasenamePtr, basenameFrom_zero _ fun i _ => getElem?_ne_of_notMem hs i, List.drop_zero]

theorem drop_getBasenamePtr_append (s : Bytes) {name : Bytes} (hs : slash ∉ name)
    (hne : name ≠ []) :
    (s ++ slash :: name).drop (getBasenamePtr (s ++ slash :: name)) = name := by
  have hlen := List.length_pos_iff.mpr hne
  have hat : (s ++ slash :: name)[s.length]? = some slash := by simp
  have hno : ∀ i, s.length < i → (s ++ slash :: name)[i]? ≠ some slash := by
    intro i hi
    obtain ⟨j, rfl⟩ := Nat.exists_eq_add_of_lt hi
    rw [show s.length + j + 1 = s.length + (j + 1) by omega, List.getElem?_append_right (by omega),
      Nat.add_sub_cancel_left, List.getElem?_cons_succ]
    exact getElem?_ne_of_notMem hs j
  rw [getBasenamePtr, basenameFrom_eq hat _ (fun i h _ => hno i h) (by simp; omega),
    List.append_cons, show s.length + 1 = (s ++ [slash]).length by simp, List.drop_left]

/-- `f` is a handle of the directory `p` of the volume that is mounted on `m`. -/
structure DirectoryHandle (F : FsTree) (f : LklIfile) (m p : List Name) : Prop where
  mounted : Mounted F f.volume m
  path : f.filePath.val = (joined p).tail
  dir : F.tree.isDir (m ++ p) = true
  short : (render (m ++ p)).length < pathMax

section Directories

variable {F : FsTree} {f : LklIfile} {m p : List Name} {name : Name} {n : FsNode}

theorem storedPath_render {volume : LklVolume} (hm : Mounted F volume m)
    (hq : F.tree.Canonical (m ++ p)) (hlen : (render (m ++ p)).length < pathMax) :
    (storedPath volume (render (m ++ p))).val = (joined p).tail := by
  have h0 : 0 ∉ (joined p).tail := by
    have hnul := F.nul_not_mem_render hq
    rw [render_of_ne (by simp [hm.below]), joined_append] at hnul
    exact fun h => hnul (List.mem_append_right _ (List.mem_of_mem_tail h))
  rw [render_of_ne (by simp [hm.below]), joined_append, List.length_append] at hlen
  have hshort : (joined p).tail.length < filePathSize := by
    unfold filePathSize
    unfold pathMax at hlen
    rw [List.length_tail]
    omega
  unfold storedPath
  dsimp only
  rw [render_of_ne (by simp [hm.below]), joined_append, hm.point, render_of_ne hm.below,
    List.drop_left]
  cases p with
  | nil =>
    decide
  | cons a p =>
    rw [joined_cons, List.cons_append, List.head?_cons, if_pos rfl]
    rw [joined_cons, List.cons_append] at hshort h0
    rw [if_pos hshort]
    exact cString_eq_self h0

theorem NewHandle.directory {k k' : Linux} {volume : LklVolume} {flags : Nat} {g : LklIfile}
    (h : NewHandle k k' volume (m ++ p) n flags g) (hm : Mounted k.fs volume m)
    (hd : k.fs.tree.isDir (m ++ p) = true) (hlen : (render (m ++ p)).length < pathMax) :
    DirectoryHandle k'.fs g m p := by
  have hstored := storedPath_render hm (k.fs.canonical_of_isDir hd) hlen
  obtain ⟨hpoint, hbelow, hdir⟩ := hm
  rw [← h.tree] at hdir hd
  rw [← h.belongs] at hpoint
  rw [← h.path] at hstored
  exact ⟨⟨hpoint, hbelow, hdir⟩, hstored, hd, hlen⟩

theorem DirectoryHandle.canonical (h : DirectoryHandle F f m p) : F.tree.Canonical (m ++ p) :=
  F.canonical_of_isDir h.dir

theorem DirectoryHandle.walk (h : DirectoryHandle F f m p) {fileName : List UInt16}
    (hrel : (openAscii fileName).head? ≠ some slash) :
    realPathWalk F 40 [] (openPath f fileName) =
      realPathWalk F 40 (m ++ p) (openAscii fileName) := by
  have hplain := F.plain_of_canonical h.canonical
  have hm : ∀ a ∈ m, slash ∉ a := fun a ha => (hplain a (by simp [ha])).1
  have hp : ∀ a ∈ p, slash ∉ a := fun a ha => (hplain a (by simp [ha])).1
  have hne : m ++ p ≠ [] := by simp [h.mounted.below]
  have hshort : ∀ t, t <+: m ++ p → realPathLimits.lookup t = true := by
    rintro t ⟨s, hs⟩
    have hlen := h.short
    rw [render_of_ne hne, ← hs, joined_append, List.length_append] at hlen
    exact decide_eq_true (by omega)
  have hmount : ∀ r, PathWalk.walk F.tree ⟨false, true⟩ realPathLimits 40 [] ([] :: m ++ r) =
      PathWalk.walk F.tree ⟨false, true⟩ realPathLimits 40 m r := by
    intro r
    rw [List.cons_append, walk_here (by simp) rfl]
    exact walk_canonical r h.mounted.canonical fun t ht _ =>
      hshort t (ht.trans (List.prefix_append m p))
  rw [openPath, if_neg hrel, h.mounted.point, render_of_ne h.mounted.below, h.path, realPathWalk,
    List.append_assoc, List.cons_append, components_append_slash, components_joined hm, hmount,
    components_append_slash, realPathWalk]
  cases p with
  | nil => rw [joined_nil, List.tail_nil, components_nil, List.singleton_append,
      walk_here (by simp) rfl, List.append_nil]
  | cons a p =>
    have hback : components (joined (a :: p)).tail = a :: p := by
      have hcomp := components_joined hp
      rw [joined_cons, List.cons_append, components_cons_slash, List.cons.injEq] at hcomp
      exact hcomp.2
    rw [hback]
    exact walk_descend (a :: p) m (fun b hb => h.canonical.names b (by simp [hb]))
      ((F.tree.isDir_iff _).mp h.dir) fun t ht _ =>
        hshort _ ((List.prefix_append_right_inj m).mpr ht)

theorem DirectoryHandle.result (h : DirectoryHandle F f m p)
    (hn : F.node (m ++ p ++ [name]) = some n) (hlink : n.entry.isLink = false)
    (hb : backslash ∉ name) :
    realPathResult F (openPath f (asciiStrToUnicodeStr name)) =
      if (render (m ++ p ++ [name])).length < pathMax then some (m ++ p ++ [name]) else none := by
  have hvalid : validName name = true := F.names (m ++ p) name (by rw [hn]; simp)
  have hs := slash_of_validName hvalid
  have h0 : 0 ∉ name := by simp_all [validName]
  have hk : PathName.kind name = .name := by simp_all [validName]
  have htext : openAscii (asciiStrToUnicodeStr name) = name := by
    rw [openAscii_asciiStrToUnicodeStr h0, pathToUnixAscii_eq_self hb]
  have hrel : (openAscii (asciiStrToUnicodeStr name)).head? ≠ some slash := by
    rw [htext]
    exact fun hhead => hs (List.mem_of_head? hhead)
  have habs : (openPath f (asciiStrToUnicodeStr name)).head? = some slash := by
    obtain ⟨a, m', hm⟩ := List.exists_cons_of_ne_nil h.mounted.below
    rw [openPath, if_neg hrel, h.mounted.point, render_of_ne h.mounted.below, hm, joined_cons]
    rfl
  have hwalk := h.walk hrel
  rw [htext] at hwalk
  have hname := realPathWalk_name F 40 (m ++ p) hk hs (.inl rfl : AtSeparator [])
  rw [List.append_nil] at hname
  rw [realPathResult, if_pos habs, hwalk, hname, render_of_ne (by simp)]
  by_cases hlen : pathMax ≤ (joined (m ++ p ++ [name])).length
  · rw [if_pos hlen, if_neg (Nat.not_lt.mpr hlen)]
    rfl
  · rw [if_neg hlen, if_pos (Nat.not_le.mp hlen), hn]
    cases n with
    | dir i => rw [realPathWalk_nil]; rfl
    | file i => rw [realPathWalk_nil]; rfl
    | link i target => cases hlink

end Directories

def Linux.openat (k : Linux) (dir : List Name) (name : Bytes) (flags : Nat) : Int × Linux :=
  match walk k.fs.tree ⟨true, true⟩ .unlimited 40 dir (components name) with
  | .found p => match k.fs.node p with
    | none => (-ENOENT, k)
    | some n =>
      if n.entry = .dir ∧ flags &&& 3 ≠ O_RDONLY then (-EISDIR, k) else k.install p n flags
  | .missing _ _ => (-ENOENT, k)
  | .fail e => (-e.errno, k)

/-- The kernel with a stream over the directory `dir`, which is open under `fd`. The stream may
deliver anything, in any order. -/
def Linux.streaming (fd : Int) (dir : List Name) : Env Call Call.Ans Linux where
  may k c x k' := match c, x with
    | .fdopendir _, _ | .readdir _, _ | .errdir _, _ | .rewinddir _, _ => k' = k
    | .sysOpenat fd' name flags _, x =>
      (x, k') = if fd' = fd then k.openat dir name flags else (-EBADF, k)
    | c, x => (x, k') = Linux.handle c k

structure SameFiles (k k' : Linux) : Prop where
  fs : k'.fs = k.fs
  inode : k'.inode = k.inode

theorem sameFiles_refl (k : Linux) : SameFiles k k := ⟨rfl, rfl⟩

/-- What a read of the directory `dir` delivers: the record of an entry that is there. Where the
entry is no link, everything in it is from its own file. -/
structure Delivered (w : Nat) (k : Linux) (dir : List Name) (info : EfiFileInfo) (name : Name) :
    Prop where
  named : info.fileName = asciiStrToUnicodeStr name
  filled : ∀ n, k.fs.node (dir ++ [name]) = some n → n.entry.isLink = false →
    ∃ size, info = fillFileInfo w (k.inode n.ino).stat (newFileInfo size name)

section Reading

variable {k : Linux} {fd : Int} {dir : List Name} {w : Nat}

theorem Linux.openat_entry {name : Name} {n : FsNode} (hd : k.fs.tree.isDir dir = true)
    (hn : k.fs.node (dir ++ [name]) = some n) (hlink : n.entry.isLink = false) :
    k.openat dir name O_RDONLY = k.install (dir ++ [name]) n O_RDONLY := by
  have hvalid : validName name = true := k.fs.names dir name (by rw [hn]; simp)
  have hk : PathName.kind name = .name := by simp_all [validName]
  have hw : walk k.fs.tree ⟨true, true⟩ .unlimited 40 dir (components name) =
      .found (dir ++ [name]) := by
    rw [components_of_not_mem (slash_of_validName hvalid), walk_name (fun _ => hd) hk]
    cases n with
    | dir i => simp [Limits.unlimited, hn, FsNode.entry]
    | file i => simp [Limits.unlimited, hn, FsNode.entry]
    | link i target => cases hlink
  unfold Linux.openat
  rw [hw]
  dsimp only
  rw [hn]
  exact if_neg fun h => h.2 rfl

theorem Linux.openat_sameFiles (k : Linux) (dir : List Name) (name : Bytes) (flags : Nat) :
    SameFiles k (k.openat dir name flags).2 := by
  unfold Linux.openat
  split
  · split
    · exact sameFiles_refl k
    · split
      · exact sameFiles_refl k
      · exact ⟨rfl, rfl⟩
  · exact sameFiles_refl k
  · exact sameFiles_refl k

theorem Linux.close_sameFiles (k : Linux) (fd : Int) : SameFiles k (k.close fd).2 := by
  unfold Linux.close
  split <;> exact ⟨rfl, rfl⟩

theorem entryInfo_delivers {f : LklIfile} (hd : k.fs.tree.isDir dir = true) (resultSize : Nat)
    (name : Name) :
    (Linux.streaming f.fd dir).Always (entryInfo w f resultSize name)
      (fun info k' => SameFiles k k' ∧ Delivered w k dir info name) k := by
  refine Env.always_ask_bind.mpr fun fd' k₁ hopen => ?_
  have hopen : (fd', k₁) = k.openat dir name O_RDONLY := by
    have := hopen
    simpa [Linux.streaming] using this
  have hsame : SameFiles k k₁ := by
    have hk₁ : k₁ = (k.openat dir name O_RDONLY).2 := by rw [← hopen]
    rw [hk₁]
    exact k.openat_sameFiles dir name O_RDONLY
  by_cases hfd : fd' ≥ 0
  · rw [if_pos hfd]
    refine Env.always_bind.mpr (Env.always_ask_bind.mpr fun x k₂ hstat => ?_)
    obtain ⟨rc, st⟩ := x
    obtain ⟨hx, rfl⟩ := Prod.mk.inj (show ((rc, st), k₂) = (k₁.fstat fd', k₁) from hstat)
    have hclose : ∀ info, Delivered w k dir info name →
        (Linux.streaming f.fd dir).Always (do
          let _ ← lklSysClose fd'
          pure info)
        (fun info k' => SameFiles k k' ∧ Delivered w k dir info name) k₂ := by
      intro info hinfo
      refine Env.always_ask_bind.mpr fun rc' k₃ hk₃ => ?_
      obtain ⟨-, rfl⟩ := Prod.mk.inj (show (rc', k₃) = k₂.close fd' from hk₃)
      have hlast := k₂.close_sameFiles fd'
      exact ⟨⟨hlast.fs.trans hsame.fs, hlast.inode.trans hsame.inode⟩, hinfo⟩
    -- a descriptor that was just opened can be asked about
    have hfound : ∀ n, k.fs.node (dir ++ [name]) = some n → n.entry.isLink = false →
        rc = 0 ∧ st = (k.inode n.ino).stat := by
      intro n hn hlink
      have hfile := Linux.install_fd k (dir ++ [name]) n O_RDONLY
      rw [Linux.openat_entry hd hn hlink] at hopen
      rw [← hopen] at hfile
      rw [Linux.fstat, hfile] at hx
      obtain ⟨hrc, hst⟩ := Prod.mk.inj hx
      rw [hsame.inode] at hst
      exact ⟨hrc, hst⟩
    dsimp only
    split
    · rename_i hrc
      exact hclose _ ⟨rfl, fun n hn hlink => absurd (hfound n hn hlink).1 hrc⟩
    · refine hclose _ ⟨rfl, fun n hn hlink => ⟨resultSize, ?_⟩⟩
      rw [(hfound n hn hlink).2]
  · rw [if_neg hfd]
    refine ⟨hsame, rfl, fun n hn hlink => absurd ?_ hfd⟩
    rw [Linux.openat_entry hd hn hlink] at hopen
    obtain ⟨rfl, -⟩ := Prod.mk.inj hopen
    exact Int.natCast_nonneg _

/-- A read of a directory changes neither the files nor what the handle says of itself. -/
structure ReadDone (w : Nat) (k k' : Linux) (f : LklIfile) (dir : List Name) (data : IoData)
    (f' : LklIfile) : Prop where
  files : SameFiles k k'
  volume : f'.volume = f.volume
  path : f'.filePath = f.filePath
  entry : ∀ info, data = .entry (some info) → ∃ name, Delivered w k dir info name

theorem lklIFileReadDir_delivers {f : LklIfile} {bufferSize : Nat}
    (hd : k.fs.tree.isDir dir = true) :
    (Linux.streaming f.fd dir).Always (lklIFileReadDir w f bufferSize)
      (fun r k' => ReadDone w k k' f dir (.entry r.2.2.1) r.2.2.2) k := by
  have hnone : ∀ {k' : Linux} {f' : LklIfile}, k' = k → f'.volume = f.volume →
      f'.filePath = f.filePath → ReadDone w k k' f dir (.entry none) f' := by
    rintro k' f' rfl hv hp
    exact ⟨sameFiles_refl k', hv, hp, fun info h => by cases h⟩
  have hopen : (Linux.streaming f.fd dir).Always (openDir f) (fun _ k' => k' = k) k := by
    unfold openDir
    cases f.dir with
    | some d => rfl
    | none =>
      refine Env.always_ask_bind.mpr fun x k' hk' => ?_
      obtain ⟨d, rc⟩ := x
      cases d with
      | some d => exact hk'
      | none => exact hk'
  unfold lklIFileReadDir
  refine Env.always_bind.mpr (hopen.mono fun r k₁ hk₁ => ?_)
  rw [hk₁]
  cases r with
  | error status => exact hnone rfl rfl rfl
  | ok d =>
    refine Env.always_bind.mpr (Env.Always.mono (Q := fun _ k' => k' = k) ?_ fun x k₂ hk₂ => ?_)
    · cases f.dirEnt with
      | none => exact fun _ _ h => h
      | some name => rfl
    rw [hk₂]
    cases x with
    | none =>
      refine Env.always_ask_bind.mpr fun err k₃ hk₃ => ?_
      dsimp only
      split <;> exact hnone hk₃ rfl rfl
    | some name =>
      dsimp only
      split
      · exact hnone rfl rfl rfl
      · refine Env.always_bind.mpr ((entryInfo_delivers hd _ name).mono ?_)
        rintro info k' ⟨hsame, hinfo⟩
        refine ⟨hsame, rfl, rfl, fun info' h => ?_⟩
        cases h
        exact ⟨name, hinfo⟩

theorem lklRead_delivers {f : LklIfile} {bufferSize : Nat} (hkind : isDirMode f.statBuf.mode = true)
    (hd : k.fs.tree.isDir dir = true) :
    (Linux.streaming f.fd dir).Always (lklRead w f bufferSize)
      (fun r k' => ReadDone w k k' f dir r.2.2.1 r.2.2.2) k := by
  have hwrite : ¬(isDirMode f.statBuf.mode = true ∧ IoMode.readData = .writeData) :=
    fun hw => IoMode.noConfusion hw.2
  have hro : ¬(IoMode.readData = .writeData ∧ f.volume.readOnly = true) :=
    fun hw => IoMode.noConfusion hw.1
  unfold lklRead lklIFileAccess
  rw [if_neg hwrite, if_neg hro, if_pos hkind]
  exact Env.always_bind.mpr ((lklIFileReadDir_delivers hd).mono fun r k' hr => hr)

theorem DirectoryHandle.read {f f' : LklIfile} {k₁ : Linux} {m p : List Name} {data : IoData}
    (h : DirectoryHandle k.fs f m p) (hread : ReadDone w k k₁ f (m ++ p) data f') :
    DirectoryHandle k₁.fs f' m p := by
  obtain ⟨⟨hpoint, hbelow, hdir⟩, hpath, hd, hshort⟩ := h
  rw [← hread.files.fs] at hdir hd
  rw [← hread.volume] at hpoint
  rw [← hread.path] at hpath
  exact ⟨⟨hpoint, hbelow, hdir⟩, hpath, hd, hshort⟩

theorem DirectoryHandle.opens {f f' : LklIfile} {k₁ : Linux} {m p : List Name} {name : Name}
    {n : FsNode} (hf : DirectoryHandle k.fs f m p)
    (hkind : isDirMode f.statBuf.mode = true)
    (hn : k.fs.node (m ++ p ++ [name]) = some n) (hlink : n.entry.isLink = false)
    (hback : backslash ∉ name) (hlen : (render (m ++ p ++ [name])).length < pathMax)
    {bufferSize size : Nat} {status : EfiStatus} {info : EfiFileInfo}
    (hread : (Linux.streaming f.fd (m ++ p)).Ran (lklRead w f bufferSize) k
      (status, size, .entry (some info), f') k₁)
    (hname : info.fileName = asciiStrToUnicodeStr name) (attributes : UInt64) :
    ∃ g k₂, (lklOpen f' (some info.fileName) EFI_FILE_MODE_READ attributes).run Linux.handle k₁ =
        ((.success, some g), k₂) ∧
      NewHandle k₁ k₂ f.volume (m ++ p ++ [name]) n O_RDONLY g := by
  have hdone := (lklRead_delivers hkind hf.dir).ran hread
  have hf' := hf.read hdone
  have hn' : k₁.fs.node (m ++ p ++ [name]) = some n := by
    rw [hdone.files.fs]
    exact hn
  have hresult := hf'.result hn' hlink hback
  rw [if_pos hlen, ← hname] at hresult
  rw [← hdone.volume]
  refine lklOpen_opens (openFlags_read _ _) (by decide)
    ⟨hresult, ?_, hn', fun h => absurd h (by decide)⟩
  rw [hf'.mounted.point, startsWith_iff, List.append_assoc, render_of_ne hf'.mounted.below,
    render_of_ne (by simp), joined_append]
  exact List.prefix_append _ _

end Reading

def Linux.reading (fd : Int) (dir : List Name) (name : Bytes) : Handler Call Call.Ans Linux
  | .fdopendir _, k => ((some 9, 0), k)
  | .readdir _, k => (some name, k)
  | .errdir _, k => (0, k)
  | .rewinddir _, k => ((), k)
  | .sysOpenat fd' name flags _, k => if fd' = fd then k.openat dir name flags else (-EBADF, k)
  | c, k => Linux.handle c k

theorem Linux.reading_may (fd : Int) (dir : List Name) (name : Bytes) (k : Linux) (c : Call) :
    (Linux.streaming fd dir).may k c (Linux.reading fd dir name c k).1
      (Linux.reading fd dir name c k).2 := by
  cases c <;> rfl

theorem lklRead_reading (w : Nat) {k : Linux} {f : LklIfile} {dir : List Name} {name : Name}
    {bufferSize : Nat} (hkind : isDirMode f.statBuf.mode = true) (hdir : f.dir = none)
    (hent : f.dirEnt = none) (hd : k.fs.tree.isDir dir = true)
    (hsize : entrySize name ≤ bufferSize) :
    ∃ info f' k₁, (lklRead w f bufferSize).run (Linux.reading f.fd dir name) k =
        ((.success, bufferSize, .entry (some info), f'), k₁) ∧
      info.fileName = asciiStrToUnicodeStr name := by
  have hwrite : ¬(isDirMode f.statBuf.mode = true ∧ IoMode.readData = .writeData) :=
    fun hw => IoMode.noConfusion hw.2
  have hro : ¬(IoMode.readData = .writeData ∧ f.volume.readOnly = true) :=
    fun hw => IoMode.noConfusion hw.1
  have hfits : ¬SIZE_OF_EFI_FILE_INFO + unicodeSize name > bufferSize := Nat.not_lt.mpr hsize
  have hinfo := ((entryInfo_delivers (f := { f with dir := some 9 }) (w := w) hd
    (SIZE_OF_EFI_FILE_INFO + unicodeSize name) name).ran
      (Env.ran_run (Linux.reading_may f.fd dir name) _ k)).2.named
  rcases hrun : (entryInfo w { f with dir := some 9 } (SIZE_OF_EFI_FILE_INFO + unicodeSize name)
    name).run (Linux.reading f.fd dir name) k with ⟨info, k₁⟩
  rw [hrun] at hinfo
  refine ⟨info, { f with dir := some 9, dirEnt := none }, k₁, ?_, hinfo⟩
  unfold lklRead lklIFileAccess
  rw [if_neg hwrite, if_neg hro, if_pos hkind]
  unfold lklIFileReadDir openDir
  rw [hdir]
  simp only [Prog.run_bind, lklFdopendir, Prog.ask, Prog.run_call, Linux.reading, Prog.run_ret,
    Prog.pure_eq, hent, lklReaddir, if_neg hfits]
  rw [hent] at hrun
  rw [hrun]

theorem directoryHandle_listedRoot :
    DirectoryHandle fileKernel.fs listedRoot [ascii ['m', 'n', 't'], ascii ['1']] [] :=
  ⟨⟨by decide, by decide, by decide⟩, by decide, by decide, by decide⟩

end UefiLkl
