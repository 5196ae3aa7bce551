import UefiLkl.RealPath
set_option autoImplicit false

/-!
Opening a file: the handle that is returned and the path that is opened.
-/

namespace UefiLkl
open Interaction

/-- The fields of `LKL_VOLUME` that the file protocol reads. -/
structure LklVolume where
  lklMountPoint : CString
  readOnly : Bool
  fsType : CString
  deriving DecidableEq

/-- `LKL_IFILE`, allocated at `ptr`. -/
structure LklIfile where
  ptr : Ptr
  volume : LklVolume
  fd : Int
  linuxOpenFlags : Nat
  statBuf : Stat
  filePath : CString
  dir : Option Ptr
  dirEnt : Option Bytes
  deriving DecidableEq

def EFI_FILE_MODE_READ : UInt64 := 1
def EFI_FILE_MODE_WRITE : UInt64 := 2
def EFI_FILE_MODE_CREATE : UInt64 := 0x8000000000000000

def EFI_FILE_READ_ONLY : UInt64 := 0x01
def EFI_FILE_DIRECTORY : UInt64 := 0x10
def EFI_FILE_VALID_ATTR : UInt64 := 0x37

/-- `sizeof (LKL_IFILE)`, and of the path in it. -/
def ifileSize : Nat := 4352
def filePathSize : Nat := 4096

def lklAllocateIFile (volume : LklVolume) (fd : Int) : Lkl (EfiStatus × Option LklIfile) := do
  match ← allocatePool ifileSize with
  | none => pure (.outOfResources, none)
  | some ptr =>
    let (rc, statBuf) ← lklSysFstat fd
    if rc ≠ 0 then
      let status := lklError2EfiError rc
      if status.isError then do
        freePool ptr
        pure (status, none)
      else pure (status, none)
    else
      pure (.success, some ⟨ptr, volume, fd, 0, statBuf, .of [], none, none⟩)

def validMode (openMode : UInt64) : Bool :=
  openMode = EFI_FILE_MODE_READ ||
  openMode = EFI_FILE_MODE_READ ||| EFI_FILE_MODE_WRITE ||
  openMode = EFI_FILE_MODE_READ ||| EFI_FILE_MODE_WRITE ||| EFI_FILE_MODE_CREATE

def readMode (openMode : UInt64) : Bool := openMode &&& EFI_FILE_MODE_READ ≠ 0
def writeMode (openMode : UInt64) : Bool := openMode &&& EFI_FILE_MODE_WRITE ≠ 0
def createMode (openMode : UInt64) : Bool := openMode &&& EFI_FILE_MODE_CREATE ≠ 0

def accessFlags (openMode : UInt64) : Nat :=
  let access :=
    if readMode openMode ∧ writeMode openMode then O_RDWR
    else if readMode openMode then O_RDONLY
    else O_WRONLY
  if createMode openMode then access ||| O_CREAT else access

/-- The flags and the mode for the kernel, or the status of the check that failed. -/
def openFlags (readOnly : Bool) (openMode attributes : UInt64) : Except EfiStatus (Nat × Nat) :=
  if !validMode openMode then .error .invalidParameter
  else if createMode openMode ∧ attributes &&& (EFI_FILE_READ_ONLY ||| ~~~EFI_FILE_VALID_ATTR) ≠ 0
    then .error .invalidParameter
  else if !readMode openMode ∧ !writeMode openMode then .error .accessDenied
  else
    let mode :=
      if !createMode openMode then 0
      else if attributes &&& EFI_FILE_READ_ONLY ≠ 0 then S_IRUSR
      else S_IRUSR ||| S_IWUSR
    if readOnly ∧ writeMode openMode then .error .writeProtected
    else .ok (accessFlags openMode, mode)

def openAscii (fileName : List UInt16) : Bytes :=
  pathToUnixAscii (cString (unicodeStrToAsciiStr fileName))

def openPath (parent : LklIfile) (fileName : List UInt16) : Bytes :=
  let ascii := openAscii fileName
  let mountPoint := parent.volume.lklMountPoint.val
  if ascii.head? = some slash then mountPoint ++ ascii
  else mountPoint ++ slash :: parent.filePath.val ++ slash :: ascii

/-- The base name of the trimmed path, and the path in front of it. Where the base name
is the whole path, the cut falls outside of the string. -/
def splitBase (path : Bytes) : Bytes × Bytes :=
  let path := removeTrailingSlashes path
  let i := getBasenamePtr path
  (if i = 0 then path else path.take (i - 1), path.drop i)

def createName (abs base : Bytes) : Bytes := abs ++ slash :: base

/-- The pool memory to free at the end. -/
structure OpenLocals where
  fd : Int
  fileNameAscii : Option Ptr
  newFileName : Option Ptr
  absFilePath : Option Ptr

def freeUnlessNull : Option Ptr → Lkl Unit
  | none => pure ()
  | some p => freePool p

def openDone (l : OpenLocals) (status : EfiStatus) (ifile : Option LklIfile) :
    Lkl (EfiStatus × Option LklIfile) := do
  if status.isError ∧ l.fd ≥ 0 then do
    let _ ← lklSysClose l.fd
    openFree
  else openFree
where
  openFree : Lkl (EfiStatus × Option LklIfile) := do
    freeUnlessNull l.fileNameAscii
    freeUnlessNull l.newFileName
    freeUnlessNull l.absFilePath
    pure (status, ifile)

/-- From the prefix test on. -/
def openFile (volume : LklVolume) (l : OpenLocals) (path : Bytes) (flags mode : Nat) :
    Lkl (EfiStatus × Option LklIfile) := do
  if !startsWith path volume.lklMountPoint then openDone l .notFound none
  else
    let fd ← lklSysOpen path flags mode
    if fd < 0 then openDone l (lklError2EfiError fd) none
    else
      let l := { l with fd := fd }
      let (status, ifile) ← lklAllocateIFile volume fd
      if status.isError then openDone l status none
      else
        let rest := path.drop volume.lklMountPoint.val.length
        let rest := if rest.head? = some slash then rest.tail else rest
        -- a path that does not fit is not copied at all
        let filePath := if rest.length < filePathSize then CString.of rest else .of []
        openDone l status (ifile.map fun f => { f with filePath, linuxOpenFlags := flags })

def openCreate (volume : LklVolume) (l : OpenLocals) (abs base : Bytes) (flags mode : Nat)
    (attributes : UInt64) : Lkl (EfiStatus × Option LklIfile) := do
  match ← allocatePool (abs.length + 1 + base.length + 1) with
  | none => openDone l .outOfResources none
  | some ptr =>
    freeUnlessNull l.absFilePath
    let l := { l with absFilePath := some ptr }
    let path := createName abs base
    if attributes &&& EFI_FILE_DIRECTORY ≠ 0 then
      let rc ← lklSysMkdir path mode
      if rc ≠ 0 then openDone l (lklError2EfiError rc) none
      else openFile volume l path O_RDONLY 0
    else openFile volume l path flags mode

def lklOpen (parent : LklIfile) (fileName : Option (List UInt16)) (openMode attributes : UInt64) :
    Lkl (EfiStatus × Option LklIfile) := do
  let volume := parent.volume
  match fileName with
  | none => pure (.invalidParameter, none)
  | some fileName =>
  match openFlags volume.readOnly openMode attributes with
  | .error status => pure (status, none)
  | .ok (flags, mode) =>
    let l : OpenLocals := ⟨-1, none, none, none⟩
    match ← allocatePool ((unicodeStrToAsciiStr fileName).length + 1) with
    | none => openDone l .outOfResources none
    | some ascii =>
    let l := { l with fileNameAscii := some ascii }
    let path := openPath parent fileName
    match ← allocatePool (path.length + 1) with
    | none => openDone l .outOfResources none
    | some newFileName =>
    let l := { l with newFileName := some newFileName }
    if createMode openMode then
      let (dir, base) := splitBase path
      if base = [] then openDone l .notFound none
      else
        touch .newFileName ((getBasenamePtr (removeTrailingSlashes path) : Int) - 1) 1
          (path.length + 1)
        match ← realPath (some dir) none with
        | none => openDone l .notFound none
        | some (ptr, abs) =>
          openCreate volume { l with absFilePath := some ptr } abs base flags mode attributes
    else
      match ← realPath (some path) none with
      | none => openDone l .notFound none
      | some (ptr, abs) => openFile volume { l with absFilePath := some ptr } abs flags mode

def lklOpenEx (_parent : LklIfile) (_fileName : Option (List UInt16))
    (_openMode _attributes : UInt64) : Lkl (EfiStatus × Option LklIfile) :=
  pure (.deviceError, none)

def lklIFileClose (ifile : LklIfile) : Lkl EfiStatus := do
  let _ ← lklSysClose ifile.fd
  freePool ifile.ptr
  pure .success

/-- The flags are also written when there is no handle to write them to. -/
def lklOpenVolume (volume : LklVolume) : Lkl (EfiStatus × Option LklIfile) := do
  let fd ← lklSysOpen volume.lklMountPoint O_RDONLY 0o644
  if fd < 0 then pure (lklError2EfiError fd, none)
  else
    match ← lklAllocateIFile volume fd with
    | (status, some ifile) => pure (status, some { ifile with linuxOpenFlags := O_RDONLY })
    | (status, none) =>
      touch .ifile 0 4 0
      if status.isError then
        let _ ← lklSysClose fd
        pure (status, none)
      else pure (status, none)

def storedPath (volume : LklVolume) (path : Bytes) : CString :=
  let rest := path.drop volume.lklMountPoint.val.length
  let rest := if rest.head? = some slash then rest.tail else rest
  if rest.length < filePathSize then CString.of rest else .of []

theorem storedPath_self (volume : LklVolume) :
    (storedPath volume volume.lklMountPoint).val = [] := by
  simp only [storedPath, List.drop_length]
  decide

theorem storedPath_inside {volume : LklVolume} {path : Bytes} (h0 : 0 ∉ path)
    (hlen : path.length < 4096) (h : volume.lklMountPoint.val ++ [slash] <+: path) :
    volume.lklMountPoint.val ++ slash :: (storedPath volume path).val = path := by
  obtain ⟨rest, rfl⟩ := h
  have hdrop : (volume.lklMountPoint.val ++ [slash] ++ rest).drop
      volume.lklMountPoint.val.length = slash :: rest := by
    rw [List.append_assoc, List.drop_left]
    rfl
  have hshort : rest.length < filePathSize := by
    rw [List.length_append] at hlen
    unfold filePathSize
    omega
  have hnul : 0 ∉ rest := fun h => h0 (List.mem_append_right _ h)
  have hval : (storedPath volume (volume.lklMountPoint.val ++ [slash] ++ rest)).val = rest := by
    simp only [storedPath, hdrop, List.head?_cons, if_true, List.tail_cons, if_pos hshort]
    exact cString_eq_self hnul
  rw [hval, List.append_assoc, List.singleton_append]

theorem openFlags_ok {readOnly : Bool} {openMode attributes : UInt64} {r : Nat × Nat}
    (h : openFlags readOnly openMode attributes = .ok r) :
    validMode openMode = true ∧ r.1 = accessFlags openMode := by
  unfold openFlags at h
  split at h
  · cases h
  · rename_i hv
    refine ⟨by simpa using hv, ?_⟩
    dsimp only at h
    split at h
    · cases h
    split at h
    · cases h
    split at h
    · cases h
    · cases h
      rfl

theorem accessFlags_valid {openMode : UInt64} (h : validMode openMode = true) :
    (accessFlags openMode &&& O_CREAT ≠ 0 ↔ createMode openMode = true) ∧
      (accessFlags openMode &&& 3 ≠ O_RDONLY ↔ writeMode openMode = true) := by
  simp only [validMode, Bool.or_eq_true, decide_eq_true_eq] at h
  rcases h with (rfl | rfl) | rfl <;> decide

theorem openFlags_readOnly {openMode attributes : UInt64} {r : Nat × Nat}
    (h : openFlags true openMode attributes = .ok r) :
    createMode openMode = false ∧ r.1 &&& O_CREAT = 0 := by
  obtain ⟨hvalid, hflags⟩ := openFlags_ok h
  have hwrite : writeMode openMode = false := by
    unfold openFlags at h
    dsimp only at h
    cases hw : writeMode openMode with
    | false => rfl
    | true =>
      rw [hw] at h
      repeat' split at h
      all_goals simp_all
  have hcreate : createMode openMode = false := by
    simp only [validMode, Bool.or_eq_true, decide_eq_true_eq] at hvalid
    rcases hvalid with (rfl | rfl) | rfl
    · rfl
    · rfl
    · exact absurd hwrite (by decide)
  refine ⟨hcreate, ?_⟩
  by_contra hne
  rw [hflags] at hne
  have := (accessFlags_valid hvalid).1.mp hne
  rw [hcreate] at this
  cases this

theorem openFlags_read (readOnly : Bool) (attributes : UInt64) :
    openFlags readOnly EFI_FILE_MODE_READ attributes = .ok (O_RDONLY, 0) := by
  have hvalid : ¬(!validMode EFI_FILE_MODE_READ) = true := by decide
  have hcreate : ¬(createMode EFI_FILE_MODE_READ = true ∧
      attributes &&& (EFI_FILE_READ_ONLY ||| ~~~EFI_FILE_VALID_ATTR) ≠ 0) := by
    intro h
    exact absurd h.1 (by decide)
  have hread : ¬((!readMode EFI_FILE_MODE_READ) = true ∧
      (!writeMode EFI_FILE_MODE_READ) = true) := by
    decide
  have hwrite : ¬(readOnly = true ∧ writeMode EFI_FILE_MODE_READ = true) := by
    intro h
    exact absurd h.2 (by decide)
  unfold openFlags
  rw [if_neg hvalid, if_neg hcreate, if_neg hread]
  dsimp only
  rw [if_neg hwrite]
  rfl

theorem freeUnlessNull_plain (p : Option Ptr) :
    (freeUnlessNull p).Only (fun c => c.plain = true) := by
  cases p with
  | none => trivial
  | some p => exact ⟨rfl, fun _ => trivial⟩

theorem openDone_plain (l : OpenLocals) (status : EfiStatus) (ifile : Option LklIfile) :
    (openDone l status ifile).Only (fun c => c.plain = true) := by
  have hfree : (openDone.openFree l status ifile).Only (fun c => c.plain = true) :=
    (freeUnlessNull_plain _).bind fun _ => (freeUnlessNull_plain _).bind fun _ =>
      (freeUnlessNull_plain _).bind fun _ => trivial
  unfold openDone
  split
  · exact ⟨rfl, fun _ => hfree⟩
  · exact hfree

theorem lklAllocateIFile_plain (volume : LklVolume) (fd : Int) :
    (lklAllocateIFile volume fd).Only (fun c => c.plain = true) := by
  refine Prog.only_ask_bind.mpr ⟨rfl, fun ptr => ?_⟩
  cases ptr with
  | none => trivial
  | some ptr =>
    refine Prog.only_ask_bind.mpr ⟨rfl, fun x => ?_⟩
    split
    split
    · dsimp only
      split
      · exact ⟨rfl, fun _ => trivial⟩
      · trivial
    · trivial

theorem openDone_passive (l : OpenLocals) (status : EfiStatus) (ifile : Option LklIfile) :
    (openDone l status ifile).Only (fun c => c.passive = true) :=
  (openDone_plain l status ifile).mono fun _ => Call.passive_of_plain

theorem lklAllocateIFile_passive (volume : LklVolume) (fd : Int) :
    (lklAllocateIFile volume fd).Only (fun c => c.passive = true) :=
  (lklAllocateIFile_plain volume fd).mono fun _ => Call.passive_of_plain

def mountedTree : FsTree :=
  (FsTree.empty.insert [] (ascii ['m', 'n', 't']) (.dir 1)).insert [ascii ['m', 'n', 't']]
    (ascii ['1']) (.dir 2)

def mountedVolume : LklVolume where
  lklMountPoint := .of (ascii ['/', 'm', 'n', 't', '/', '1'])
  readOnly := false
  fsType := .of (ascii ['e', 'x', 't', '4'])

def rootHandle : LklIfile := ⟨0, mountedVolume, 3, O_RDONLY, default, .of [], none, none⟩

def fileKernel : Linux :=
  { Linux.boot with
    fs := mountedTree.insert [ascii ['m', 'n', 't'], ascii ['1']] (ascii ['a']) (.file 3) }

end UefiLkl
