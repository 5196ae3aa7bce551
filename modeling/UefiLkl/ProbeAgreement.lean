import UefiLkl.Probe
import Mathlib.Tactic.Common
set_option autoImplicit false

/-!
The two probes on one device. `GetFsType` gives up where a kilobyte runs past the end of
the device; `GetFsTypeLKL` looks at whatever the stack buffer then holds.
-/

namespace UefiLkl
open Interaction

/-- A device with the bytes `image`, the file position of its node, and the stack buffer of
the function that probes it. -/
structure Probing where
  image : Bytes
  position : Nat
  stack : Bytes
  size : stack.length = probeSize

def readInto (stack data : Bytes) : Bytes := (data ++ stack.drop data.length).take stack.length

theorem length_readInto (stack data : Bytes) : (readInto stack data).length = stack.length := by
  simp only [readInto, List.length_take, List.length_append, List.length_drop]
  omega

theorem readInto_nil (stack : Bytes) : readInto stack [] = stack := by simp [readInto]

def Probing.fill (g : Probing) (data : Bytes) : Probing :=
  { g with stack := readInto g.stack data, size := (length_readInto g.stack data).trans g.size }

def Probing.seekable (past : Bool) (g : Probing) (off : Nat) : Bool :=
  past || decide (off ≤ g.image.length)

/-- `ReadDisk` fails at a range that runs past the end, and `lkl_sys_read` reads up to the
end. Whether a seek behind the end succeeds is left open. -/
def Probing.handle (past : Bool) (fd : Nat) : Handler DriverCall DriverCall.Ans Probing
  | .readDisk _ _ off size, g =>
    if off + size ≤ g.image.length then
      (.ok ((g.image.drop off).take size), g.fill ((g.image.drop off).take size))
    else (.error .deviceError, g)
  | .sysOpen _ _ _, g => ((fd : Int), { g with position := 0 })
  | .sysLseek _ off, g =>
    if g.seekable past off then ((off : Int), { g with position := off }) else (-EINVAL, g)
  | .sysRead _ len, g =>
    let data := (g.image.drop g.position).take len
    (.ok (readInto g.stack data), { g.fill data with position := g.position + data.length })
  | c, g => (c.granted, g)

/-- The bytes of the image where the table puts the magic. -/
def FsIdMag.inImage (m : FsIdMag) (image : Bytes) : Bool :=
  (image.drop (m.kboff * 1024 + m.sboff)).take m.len = m.magic.take m.len

/-- The name of the first entry whose magic the image has. -/
def fsOfImage (image : Bytes) : Option Bytes :=
  (fsEntries.find? fun e => e.2.inImage image).map Prod.fst

theorem FsIdMag.offset_add (m : FsIdMag) :
    m.offset + (m.sboff &&& 0x3ff) = m.kboff * 1024 + m.sboff := by
  have hmask : m.sboff &&& 0x3ff = m.sboff % 1024 := Nat.and_two_pow_sub_one_eq_mod m.sboff 10
  rw [hmask, offset]
  omega

/-- The magic does not reach into the next kilobyte. -/
def FsIdMag.Fits (m : FsIdMag) : Prop :=
  (m.sboff &&& 0x3ff) + m.len ≤ probeSize ∧ m.len ≤ m.magic.length

instance (m : FsIdMag) : Decidable m.Fits := inferInstanceAs (Decidable (_ ∧ _))

theorem FsIdMag.found_block {m : FsIdMag} (hm : m.Fits) (image : Bytes) :
    m.found ((image.drop m.offset).take probeSize) = m.inImage image := by
  have hlen : min m.len (probeSize - (m.sboff &&& 0x3ff)) = m.len := by
    have := hm.1
    omega
  rw [found, inImage, List.drop_take, List.take_take, List.drop_drop, m.offset_add, hlen]

theorem FsIdMag.inImage_length {m : FsIdMag} {image : Bytes} (hm : m.Fits)
    (h : m.inImage image = true) :
    m.len + (m.kboff * 1024 + m.sboff) ≤ image.length ∨ m.len = 0 := by
  have heq := congrArg List.length (of_decide_eq_true h)
  simp only [List.length_take, List.length_drop] at heq
  have := hm.2
  omega

/-- A magic that the image has is found whatever the rest of the buffer holds. -/
theorem FsIdMag.found_readInto {m : FsIdMag} {image stack : Bytes} (hm : m.Fits)
    (hstack : stack.length = probeSize) (h : m.inImage image = true) :
    m.found (readInto stack ((image.drop m.offset).take probeSize)) = true := by
  have hoff := m.offset_add
  have hfit := hm.1
  rcases inImage_length hm h with hlen | hzero
  · rw [← found_block hm, found] at h
    rw [found, readInto, List.drop_take, List.take_take, List.drop_append_of_le_length,
      List.take_append_of_le_length]
    · have hmin : min m.len (stack.length - (m.sboff &&& 0x3ff)) = m.len := by omega
      rw [hmin]
      exact h
    · simp only [List.length_drop, List.length_take]
      omega
    · simp only [List.length_take, List.length_drop]
      omega
  · simp [found, hzero]

section Loops

variable {past : Bool} {fd : Nat}

theorem probeLoop_run_cons {G : Type} {h : Handler DriverCall DriverCall.Ans G} {g : G}
    {readBlock : Nat → Firmware (Option Bytes)} {name : Bytes} {m : FsIdMag}
    {rest : List (Bytes × FsIdMag)} :
    (probeLoop readBlock ((name, m) :: rest)).run h g =
      match (readBlock m.offset).run h g with
      | (none, g') => (probeLoop readBlock rest).run h g'
      | (some block, g') =>
        if m.found block then (some name, g') else (probeLoop readBlock rest).run h g' := by
  rw [probeLoop, Prog.run_bind]
  rcases (readBlock m.offset).run h g with ⟨_ | block, g'⟩
  · rfl
  · by_cases hf : m.found block = true
    · simp [hf]
    · simp [hf]

theorem readDiskBlock_run {c : Controller} {mediaId off : Nat} {g : Probing} :
    (readDiskBlock c mediaId off).run (Probing.handle past fd) g =
      if off + probeSize ≤ g.image.length then
        (some ((g.image.drop off).take probeSize), g.fill ((g.image.drop off).take probeSize))
      else (none, g) := by
  rw [readDiskBlock, Prog.run_ask_bind]
  by_cases h : off + probeSize ≤ g.image.length
  · simp [Probing.handle, h]
  · simp [Probing.handle, h]

/-- After a read of up to a kilobyte at `off`. -/
def Probing.after (g : Probing) (off : Nat) : Probing :=
  { g.fill ((g.image.drop off).take probeSize) with
    position := off + ((g.image.drop off).take probeSize).length }

theorem readFileBlock_run {off : Nat} {g : Probing} :
    (readFileBlock fd off).run (Probing.handle past fd) g =
      if g.seekable past off then (some (g.after off).stack, g.after off) else (none, g) := by
  have hoff : ¬ (off : Int) < 0 := by omega
  rw [readFileBlock, Prog.run_ask_bind]
  by_cases h : g.seekable past off = true
  · simp [Probing.handle, h, hoff, Probing.fill, Probing.after]
  · simp [Probing.handle, h, EINVAL]

theorem probeLoop_file_run {g : Probing} {name : Bytes} {m : FsIdMag}
    {rest : List (Bytes × FsIdMag)} :
    ((probeLoop (readFileBlock fd) ((name, m) :: rest)).run (Probing.handle past fd) g).1 =
      if g.seekable past m.offset then
        if m.found (g.after m.offset).stack then some name
        else ((probeLoop (readFileBlock fd) rest).run (Probing.handle past fd)
          (g.after m.offset)).1
      else ((probeLoop (readFileBlock fd) rest).run (Probing.handle past fd) g).1 := by
  rw [probeLoop_run_cons, readFileBlock_run]
  by_cases h : g.seekable past m.offset = true
  · by_cases hf : m.found (g.after m.offset).stack = true
    · simp [h, hf]
    · simp [h, hf]
  · simp [h]

theorem probeLoop_disk_run {c : Controller} {mediaId : Nat} {g : Probing}
    {es : List (Bytes × FsIdMag)} :
    ((probeLoop (readDiskBlock c mediaId) es).run (Probing.handle past fd) g).1 =
      (es.find? fun e => decide (e.2.offset + probeSize ≤ g.image.length) &&
        e.2.found ((g.image.drop e.2.offset).take probeSize)).map Prod.fst := by
  induction es generalizing g with
  | nil => rfl
  | cons e rest ih =>
    obtain ⟨name, m⟩ := e
    rw [probeLoop_run_cons, readDiskBlock_run]
    by_cases hfit : m.offset + probeSize ≤ g.image.length
    · by_cases hf : m.found ((g.image.drop m.offset).take probeSize) = true
      · simp [hfit, hf]
      · simp only [hfit, hf, if_true, List.find?_cons, decide_true, Bool.true_and]
        exact ih
    · simp [hfit, ih]

end Loops

def extMag : FsIdMag := ⟨[0o123, 0o357], 2, 1, 0x38⟩
def ntfsMag : FsIdMag := ⟨asciiString "NTFS    ", 8, 0, 3⟩
def f2fsMag : FsIdMag := ⟨[0x10, 0x20, 0xf5, 0xf2], 4, 1, 0⟩

theorem fsEntries_eq : fsEntries =
    [(idInfoExt.name, extMag), (idInfoNtfs.name, ntfsMag), (idInfoF2fs.name, f2fsMag)] := rfl

/-- The buffer after the read at the second kilobyte, and after the read at the first. -/
def Probing.afterExt (g : Probing) : Bytes := readInto g.stack ((g.image.drop 1024).take probeSize)

def Probing.afterNtfs (g : Probing) : Bytes := readInto g.afterExt (g.image.take probeSize)

def Probing.afterF2fs (g : Probing) : Bytes :=
  readInto g.afterNtfs ((g.image.drop 1024).take probeSize)

/-- The image ends before the second kilobyte is full, or even before the first is, and the
magic is found in bytes of the image and bytes that were in the buffer before. -/
structure Probing.Stale (past : Bool) (g : Probing) : Prop where
  short : g.image.length < 2 * probeSize
  found : g.seekable past 1024 ∧ extMag.found g.afterExt ∨
    g.image.length < probeSize ∧ ntfsMag.found g.afterNtfs ∨
    g.seekable past 1024 ∧ ¬ (probeSize ≤ g.image.length ∧ ntfsMag.found g.afterNtfs) ∧
      f2fsMag.found g.afterF2fs

/-- The two functions on one image: the same name, or `EFI_NOT_FOUND`, and a name only where
it is the first of the table that the image has. -/
def Probing.Agree (past : Bool) (fd : Nat) (c : Controller) (mediaId : Nat) (path : Bytes)
    (g : Probing) : Prop :=
  let disk := ((getFsType c mediaId).run (Probing.handle past fd) g).1
  let node := ((getFsTypeLkl path).run (Probing.handle past fd) g).1
  disk = node ∧ ∀ r, r = disk ∨ r = node →
    r = .error .notFound ∨ ∃ name, r = .ok name ∧ fsOfImage g.image = some name

def fsStatus : Option Bytes → Except EfiStatus Bytes
  | some name => .ok name
  | none => .error .notFound

section Agreement

variable {past : Bool} {fd mediaId : Nat} {c : Controller} {path : Bytes} {g g' : Probing}

theorem getFsType_eq : getFsType c mediaId =
    probeLoop (readDiskBlock c mediaId) fsEntries >>= fun r => .ret (fsStatus r) := by
  unfold getFsType
  congr
  funext r
  cases r with
  | none => rfl
  | some name => rfl

theorem getFsTypeLkl_eq : getFsTypeLkl path =
    Prog.ask (DriverCall.sysOpen path O_RDONLY 0) >>= fun fd : Int =>
      if fd < 0 then .ret (.error (lklError2EfiError fd))
      else probeLoop (readFileBlock fd) fsEntries >>= fun r =>
        Prog.ask (DriverCall.sysClose fd) >>= fun _ => .ret (fsStatus r) := by
  unfold getFsTypeLkl
  congr
  funext fd
  split
  · rfl
  · congr
    funext r
    cases r with
    | none => rfl
    | some name => rfl

theorem getFsType_run :
    ((getFsType c mediaId).run (Probing.handle past fd) g).1 =
      fsStatus (if 2 * probeSize ≤ g.image.length ∧ extMag.inImage g.image then some idInfoExt.name
        else if probeSize ≤ g.image.length ∧ ntfsMag.inImage g.image then some idInfoNtfs.name
        else if 2 * probeSize ≤ g.image.length ∧ f2fsMag.inImage g.image then some idInfoF2fs.name
        else none) := by
  have hloop := @probeLoop_disk_run past fd c mediaId g fsEntries
  rw [getFsType_eq, Prog.run_bind, Prog.run_ret, hloop, fsEntries_eq]
  have hext : extMag.Fits := by decide
  have hntfs : ntfsMag.Fits := by decide
  have hf2fs : f2fsMag.Fits := by decide
  have h1 : extMag.offset + probeSize = 2 * probeSize := rfl
  have h2 : ntfsMag.offset + probeSize = probeSize := rfl
  have h3 : f2fsMag.offset + probeSize = 2 * probeSize := rfl
  simp only [List.find?_cons, FsIdMag.found_block hext, FsIdMag.found_block hntfs,
    FsIdMag.found_block hf2fs, h1, h2, h3]
  by_cases hlen : 2 * probeSize ≤ g.image.length
  · have hlen' : probeSize ≤ g.image.length := by omega
    cases extMag.inImage g.image <;> cases ntfsMag.inImage g.image <;>
      cases f2fsMag.inImage g.image <;> simp [hlen, hlen', fsStatus]
  · by_cases hlen' : probeSize ≤ g.image.length
    · cases ntfsMag.inImage g.image <;> simp [hlen, hlen', fsStatus]
    · simp [hlen, hlen', fsStatus]

theorem afterExt_of_not_seekable (h : ¬ g.seekable past 1024 = true) : g.afterExt = g.stack := by
  have hlen : g.image.length ≤ 1024 := by
    simp only [Probing.seekable, Bool.or_eq_true, decide_eq_true_eq, not_or] at h
    omega
  simp [Probing.afterExt, List.drop_eq_nil_of_le hlen, readInto_nil]

theorem probeLoop_file_tail (hstack : g'.stack = g.afterExt) (himage : g'.image = g.image) :
    ((probeLoop (readFileBlock fd) [(idInfoNtfs.name, ntfsMag), (idInfoF2fs.name, f2fsMag)]).run
        (Probing.handle past fd) g').1 =
      if ntfsMag.found g.afterNtfs then some idInfoNtfs.name
      else if g.seekable past 1024 ∧ f2fsMag.found g.afterF2fs then some idInfoF2fs.name
      else none := by
  have hoff : f2fsMag.offset = 1024 := rfl
  have hseek : g'.seekable past ntfsMag.offset = true := by
    simp [Probing.seekable, FsIdMag.offset, ntfsMag]
  have hseek' : (g'.after ntfsMag.offset).seekable past 1024 = g.seekable past 1024 := by
    show (past || _) = (past || _)
    rw [← himage]
    rfl
  have hntfs : (g'.after ntfsMag.offset).stack = g.afterNtfs := by
    show readInto g'.stack (g'.image.take probeSize) = _
    rw [hstack, himage]
    rfl
  have hf2fs : ((g'.after ntfsMag.offset).after 1024).stack = g.afterF2fs := by
    show readInto (g'.after ntfsMag.offset).stack ((g'.image.drop 1024).take probeSize) = _
    rw [hntfs, himage]
    rfl
  rw [probeLoop_file_run, if_pos hseek, hntfs, probeLoop_file_run, hoff, hseek', hf2fs]
  by_cases hs : g.seekable past 1024 = true
  · simp [hs, probeLoop]
  · simp [hs, probeLoop]

theorem getFsTypeLkl_run :
    ((getFsTypeLkl path).run (Probing.handle past fd) g).1 =
      fsStatus (if g.seekable past 1024 ∧ extMag.found g.afterExt then some idInfoExt.name
        else if ntfsMag.found g.afterNtfs then some idInfoNtfs.name
        else if g.seekable past 1024 ∧ f2fsMag.found g.afterF2fs then some idInfoF2fs.name
        else none) := by
  have hfd : ¬ (fd : Int) < 0 := by omega
  have hopen : (getFsTypeLkl path).run (Probing.handle past fd) g =
      (probeLoop (readFileBlock fd) fsEntries >>= fun r =>
        Prog.ask (DriverCall.sysClose fd) >>= fun _ => .ret (fsStatus r)).run
          (Probing.handle past fd) { g with position := 0 } := by
    rw [getFsTypeLkl_eq, Prog.run_ask_bind]
    exact congrArg (Prog.run _ · _) (if_neg hfd)
  have hoff : extMag.offset = 1024 := rfl
  rw [hopen, Prog.run_bind, Prog.run_ask_bind, Prog.run_ret, fsEntries_eq, probeLoop_file_run, hoff]
  have hseek : ({ g with position := 0 } : Probing).seekable past 1024 = g.seekable past 1024 := rfl
  have hext : (({ g with position := 0 } : Probing).after 1024).stack = g.afterExt := rfl
  rw [hseek, hext]
  refine congrArg fsStatus ?_
  by_cases hs : g.seekable past 1024 = true
  · by_cases hf : extMag.found g.afterExt = true
    · simp [hs, hf]
    · rw [if_pos hs, if_neg hf, if_neg (by tauto)]
      exact probeLoop_file_tail hext rfl
  · rw [if_neg hs, if_neg (by tauto)]
    exact probeLoop_file_tail (afterExt_of_not_seekable hs).symm rfl

theorem ntfs_afterNtfs (h : probeSize ≤ g.image.length) :
    ntfsMag.found g.afterNtfs = ntfsMag.inImage g.image := by
  have hfits : ntfsMag.Fits := by decide
  have hlen : g.afterExt.length = probeSize := (length_readInto _ _).trans g.size
  have hdata : (g.image.take probeSize).length = probeSize := by simp [h]
  rw [← FsIdMag.found_block hfits]
  have hblock : g.afterNtfs = (g.image.drop ntfsMag.offset).take probeSize := by
    rw [Probing.afterNtfs, readInto, hlen, List.take_append_of_le_length hdata.ge,
      List.take_of_length_le hdata.le]
    rfl
  rw [hblock]

theorem second_kilobyte (stack : Bytes) (hstack : stack.length = probeSize)
    (h : 2 * probeSize ≤ g.image.length) :
    readInto stack ((g.image.drop 1024).take probeSize) = (g.image.drop 1024).take probeSize := by
  have hdata : ((g.image.drop 1024).take probeSize).length = probeSize := by
    have hsize : probeSize = 1024 := rfl
    simp only [List.length_take, List.length_drop]
    omega
  rw [readInto, hstack, List.take_append_of_le_length hdata.ge, List.take_of_length_le hdata.le]

theorem fsOfImage_eq (image : Bytes) : fsOfImage image =
    if extMag.inImage image then some idInfoExt.name
    else if ntfsMag.inImage image then some idInfoNtfs.name
    else if f2fsMag.inImage image then some idInfoF2fs.name else none := by
  rw [fsOfImage, fsEntries_eq]
  simp only [List.find?_cons, List.find?_nil]
  cases extMag.inImage image <;> cases ntfsMag.inImage image <;>
    cases f2fsMag.inImage image <;> rfl

theorem agree_of_fits (h : 2 * probeSize ≤ g.image.length) : g.Agree past fd c mediaId path := by
  have hlen : probeSize ≤ g.image.length := by omega
  have hseek : g.seekable past 1024 = true := by
    have : (1024 : Nat) ≤ g.image.length := hlen
    simp [Probing.seekable, this]
  have hsize : g.afterExt.length = probeSize := (length_readInto _ _).trans g.size
  have hsize' : g.afterNtfs.length = probeSize := (length_readInto _ _).trans hsize
  have hext : extMag.found g.afterExt = extMag.inImage g.image := by
    rw [Probing.afterExt, second_kilobyte _ g.size h]
    exact FsIdMag.found_block (by decide) _
  have hf2fs : f2fsMag.found g.afterF2fs = f2fsMag.inImage g.image := by
    rw [Probing.afterF2fs, second_kilobyte _ hsize' h]
    exact FsIdMag.found_block (by decide) _
  simp only [Probing.Agree, getFsType_run, getFsTypeLkl_run, hext, hf2fs, ntfs_afterNtfs hlen,
    h, hlen, hseek, true_and, ← fsOfImage_eq]
  intro r hr
  rw [or_self] at hr
  rw [hr]
  cases fsOfImage g.image with
  | none => exact .inl rfl
  | some name => exact .inr ⟨name, rfl, rfl⟩

/-- A stale buffer is believed by one of the two only. -/
theorem not_agree_of_stale (h : g.Stale past) : ¬ g.Agree past fd c mediaId path := by
  have hlen : ¬ 2 * probeSize ≤ g.image.length := by
    have := h.short
    omega
  have hname : idInfoExt.name ≠ idInfoNtfs.name := by decide
  have hname' : idInfoF2fs.name ≠ idInfoNtfs.name := by decide
  intro hagree
  have heq := hagree.1
  simp only [getFsType_run, getFsTypeLkl_run, hlen, false_and, if_false] at heq
  by_cases hext : g.seekable past 1024 = true ∧ extMag.found g.afterExt = true
  · rw [if_pos hext] at heq
    split at heq <;> simp_all [fsStatus]
  rw [if_neg hext] at heq
  rcases h.found with h' | ⟨hshort, hntfs⟩ | ⟨hseek, hntfs, hf2fs⟩
  · exact hext h'
  · have hshort' : ¬ probeSize ≤ g.image.length := by omega
    simp [hshort', hntfs, fsStatus] at heq
  · by_cases hone : probeSize ≤ g.image.length
    · have hntfs' : ¬ ntfsMag.found g.afterNtfs = true := fun hm => hntfs ⟨hone, hm⟩
      have himage : ¬ ntfsMag.inImage g.image = true := by rwa [← ntfs_afterNtfs hone]
      simp [himage, hntfs', hseek, hf2fs, fsStatus] at heq
    · by_cases hm : ntfsMag.found g.afterNtfs = true
      · simp [hone, hm, fsStatus] at heq
      · simp [hone, hm, hseek, hf2fs, fsStatus] at heq

theorem agree_of_not_stale (hlen : g.image.length < 2 * probeSize) (h : ¬ g.Stale past) :
    g.Agree past fd c mediaId path := by
  have hlen' : ¬ 2 * probeSize ≤ g.image.length := by omega
  have hext : ¬ (g.seekable past 1024 = true ∧ extMag.found g.afterExt = true) :=
    fun h' => h ⟨hlen, .inl h'⟩
  simp only [Probing.Agree, getFsType_run, getFsTypeLkl_run, hlen', false_and, if_false,
    if_neg hext]
  by_cases hone : probeSize ≤ g.image.length
  · have hseek : g.seekable past 1024 = true := by
      have : (1024 : Nat) ≤ g.image.length := hone
      simp [Probing.seekable, this]
    by_cases hntfs : ntfsMag.found g.afterNtfs = true
    · have himage : ntfsMag.inImage g.image = true := by rwa [← ntfs_afterNtfs hone]
      have hnoext : ¬ extMag.inImage g.image = true := fun hin =>
        hext ⟨hseek, FsIdMag.found_readInto (by decide) g.size hin⟩
      simp [hone, himage, hntfs, fsOfImage_eq, hnoext, fsStatus]
    · have himage : ¬ ntfsMag.inImage g.image = true := by rwa [← ntfs_afterNtfs hone]
      have hf2fs : ¬ f2fsMag.found g.afterF2fs = true :=
        fun h' => h ⟨hlen, .inr (.inr ⟨hseek, fun hn => hntfs hn.2, h'⟩)⟩
      simp [himage, hntfs, hf2fs, fsStatus]
  · have hntfs : ¬ ntfsMag.found g.afterNtfs = true :=
      fun h' => h ⟨hlen, .inr (.inl ⟨by omega, h'⟩)⟩
    have hf2fs : ¬ (g.seekable past 1024 = true ∧ f2fsMag.found g.afterF2fs = true) :=
      fun h' => h ⟨hlen, .inr (.inr ⟨h'.1, fun hn => hone hn.1, h'.2⟩)⟩
    simp only [hone, hntfs, false_and, if_false, if_neg hf2fs]
    simp [fsStatus]

/-- The two agree, and tell the truth, exactly when no magic is made of stale bytes. -/
theorem probes_agree_iff : g.Agree past fd c mediaId path ↔ ¬ g.Stale past := by
  constructor
  · intro hagree hstale
    exact not_agree_of_stale hstale hagree
  · intro h
    by_cases hlen : 2 * probeSize ≤ g.image.length
    · exact agree_of_fits hlen
    · exact agree_of_not_stale (by omega) h

end Agreement

def oneKilobyte : Probing where
  image := [0x10, 0x20, 0xf5, 0xf2] ++ List.replicate 1020 0
  position := 0
  stack := List.replicate probeSize 0
  size := List.length_replicate

/-- The read at the second kilobyte returns nothing, and the first is taken for it. -/
theorem probes_disagree_oneKilobyte :
    ¬ oneKilobyte.Agree false 3 0 0 (asciiString "/dev/fe000000") := by
  have hlen : oneKilobyte.image.length = 1024 := by
    show ([0x10, 0x20, 0xf5, 0xf2] ++ List.replicate 1020 (0 : UInt8)).length = 1024
    rw [List.length_append, List.length_replicate]
    rfl
  have hfirst : oneKilobyte.image.take probeSize = oneKilobyte.image :=
    List.take_of_length_le hlen.le
  have hsecond : oneKilobyte.image.drop 1024 = [] := List.drop_eq_nil_of_le hlen.le
  have hbuffer : oneKilobyte.afterF2fs = oneKilobyte.image := by
    have hext : oneKilobyte.afterExt = List.replicate probeSize 0 := by
      rw [Probing.afterExt, hsecond]
      exact readInto_nil _
    have hsize : (List.replicate probeSize (0 : UInt8)).length = probeSize := List.length_replicate
    have hntfs : oneKilobyte.afterNtfs = oneKilobyte.image := by
      rw [Probing.afterNtfs, hext, hfirst, readInto, hsize,
        List.take_append_of_le_length (by exact hlen.ge), hfirst]
    rw [Probing.afterF2fs, hsecond, hntfs]
    exact readInto_nil _
  apply not_agree_of_stale
  refine ⟨?_, .inr (.inr ⟨?_, ?_, ?_⟩)⟩
  · rw [hlen]
    decide
  · simp [Probing.seekable, hlen]
  · rintro ⟨-, hntfs⟩
    rw [ntfs_afterNtfs hlen.ge] at hntfs
    revert hntfs
    decide
  · rw [hbuffer]
    decide

end UefiLkl
