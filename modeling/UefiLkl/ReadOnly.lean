import UefiLkl.FileProtocol
set_option autoImplicit false

/-!
Which requests on a read-only volume modify it.
-/

namespace UefiLkl
open Interaction

def Call.modifies : Call → Bool
  | .sysWrite _ _ | .sysMkdir _ _ | .sysFtruncate _ _ | .sysChmod _ _ | .sysUtime _ _ _
  | .sysUnlink _ => true
  | .sysOpen _ flags _ | .sysOpenat _ _ flags _ => flags &&& O_CREAT ≠ 0
  | _ => false

abbrev Harmless {α : Type} (p : Lkl α) : Prop := p.Only fun c => c.modifies = false

theorem Call.modifies_of_passive {c : Call} (h : c.passive = true) : c.modifies = false := by
  cases c <;> first | rfl | exact Bool.noConfusion h

theorem harmless_of_passive {α : Type} {p : Lkl α} (h : p.Only fun c => c.passive = true) :
    Harmless p :=
  h.mono fun _ => Call.modifies_of_passive

theorem openFile_harmless (volume : LklVolume) (l : OpenLocals) (path : Bytes) {flags : Nat}
    (mode : Nat) (h : flags &&& O_CREAT = 0) :
    Harmless (openFile volume l path flags mode) := by
  have hdone : ∀ l status ifile, Harmless (openDone l status ifile) := fun l status ifile =>
    harmless_of_passive (openDone_passive l status ifile)
  have hopen : (Call.sysOpen path flags mode).modifies = false := by simp [Call.modifies, h]
  unfold openFile
  split
  · exact hdone _ _ _
  · refine Prog.only_ask_bind.mpr ⟨hopen, fun fd => ?_⟩
    split
    · exact hdone _ _ _
    · refine (harmless_of_passive (lklAllocateIFile_passive volume fd)).bind fun r => ?_
      dsimp only
      split
      · exact hdone _ _ _
      · exact hdone _ _ _

theorem lklOpen_harmless {f : LklIfile} (hro : f.volume.readOnly = true)
    (fileName : Option (List UInt16)) (openMode attributes : UInt64) :
    Harmless (lklOpen f fileName openMode attributes) := by
  unfold lklOpen
  cases fileName with
  | none => trivial
  | some fileName =>
    dsimp only
    rw [hro]
    cases hflags : openFlags true openMode attributes with
    | error status => trivial
    | ok r =>
      obtain ⟨flags, mode⟩ := r
      obtain ⟨hcreate, hcreat⟩ := openFlags_readOnly hflags
      have hdone : ∀ l status ifile, Harmless (openDone l status ifile) := fun l status ifile =>
        harmless_of_passive (openDone_passive l status ifile)
      dsimp only
      refine Prog.only_ask_bind.mpr ⟨rfl, fun ascii => ?_⟩
      cases ascii with
      | none => exact hdone _ _ _
      | some ascii =>
        refine Prog.only_ask_bind.mpr ⟨rfl, fun newFileName => ?_⟩
        cases newFileName with
        | none => exact hdone _ _ _
        | some newFileName =>
          dsimp only
          rw [hcreate, if_neg Bool.false_ne_true]
          refine (harmless_of_passive (realPath_passive _ _)).bind fun r => ?_
          cases r with
          | none => exact hdone _ _ _
          | some r => exact openFile_harmless _ _ _ _ hcreat

theorem lklOpenVolume_harmless (volume : LklVolume) : Harmless (lklOpenVolume volume) := by
  refine Prog.only_ask_bind.mpr ⟨rfl, fun fd => ?_⟩
  split
  · trivial
  · refine (harmless_of_passive (lklAllocateIFile_passive volume fd)).bind fun r => ?_
    obtain ⟨status, ifile⟩ := r
    cases ifile with
    | some ifile => trivial
    | none =>
      refine Prog.only_ask_bind.mpr ⟨rfl, fun _ => ?_⟩
      split
      · exact ⟨rfl, fun _ => trivial⟩
      · trivial

theorem lklFillFileInfo_harmless (w : Nat) (fd : Int) (info : EfiFileInfo) :
    Harmless (lklFillFileInfo w fd info) := by
  refine Prog.only_ask_bind.mpr ⟨rfl, fun x => ?_⟩
  dsimp only
  split <;> trivial

theorem entryInfo_harmless (w : Nat) (f : LklIfile) (resultSize : Nat) (name : Bytes) :
    Harmless (entryInfo w f resultSize name) := by
  refine Prog.only_ask_bind.mpr ⟨rfl, fun fd => ?_⟩
  split
  · exact (lklFillFileInfo_harmless w fd _).bind fun _ => ⟨rfl, fun _ => trivial⟩
  · trivial

theorem openDir_harmless (f : LklIfile) : Harmless (openDir f) := by
  unfold openDir
  cases f.dir with
  | some dir => trivial
  | none =>
    refine Prog.only_ask_bind.mpr ⟨rfl, fun x => ?_⟩
    obtain ⟨dir, rc⟩ := x
    cases dir <;> trivial

theorem lklIFileReadDir_harmless (w : Nat) (f : LklIfile) (bufferSize : Nat) :
    Harmless (lklIFileReadDir w f bufferSize) := by
  refine (openDir_harmless f).bind fun r => ?_
  cases r with
  | error status => trivial
  | ok dir =>
    refine Prog.Only.bind ?_ fun entry => ?_
    · cases f.dirEnt with
      | none => exact ⟨rfl, fun _ => trivial⟩
      | some name => trivial
    · cases entry with
      | none =>
        refine Prog.only_ask_bind.mpr ⟨rfl, fun err => ?_⟩
        split <;> trivial
      | some name =>
        dsimp only
        split
        · trivial
        · exact (entryInfo_harmless w _ _ name).bind fun _ => trivial

theorem lklIFileAccess_harmless (w : Nat) {f : LklIfile} (hro : f.volume.readOnly = true)
    (ioMode : IoMode) (bufferSize : Nat) (buffer : Bytes) :
    Harmless (lklIFileAccess w f ioMode bufferSize buffer) := by
  unfold lklIFileAccess
  rw [hro]
  split
  · trivial
  · split
    · trivial
    · split
      · exact (lklIFileReadDir_harmless w f bufferSize).bind fun _ => trivial
      · rename_i hmode _
        split
        · rename_i hwrite
          exact absurd ⟨hwrite, rfl⟩ hmode
        · refine Prog.only_ask_bind.mpr ⟨rfl, fun x => ?_⟩
          cases x <;> trivial

theorem lklGetInfo_harmless (w : Nat) (f : LklIfile) (type : EfiGuid) (bufferSize : Nat) :
    Harmless (lklGetInfo w f type bufferSize) := by
  cases type with
  | fileInfo =>
    unfold lklGetInfo lklGetFileInfo
    dsimp only
    split
    · trivial
    · exact (lklFillFileInfo_harmless w f.fd _).bind fun _ => trivial
  | fileSystemInfo =>
    refine Prog.only_ask_bind.mpr ⟨rfl, fun x => ?_⟩
    dsimp only
    split
    · trivial
    · split <;> trivial
  | other => trivial

theorem lklSetInfo_harmless (w : Nat) {f : LklIfile} (hro : f.volume.readOnly = true)
    (type : EfiGuid) (bufferSize : Nat) (info : EfiFileInfo) :
    Harmless (lklSetInfo w f type bufferSize info) := by
  unfold lklSetInfo
  rw [hro]
  cases type <;> trivial

theorem lklIFileClose_harmless (f : LklIfile) : Harmless (lklIFileClose f) :=
  ⟨rfl, fun _ => ⟨rfl, fun _ => trivial⟩⟩

theorem lklSetPosition_harmless (f : LklIfile) (position : UInt64) :
    Harmless (lklSetPosition f position) := by
  unfold lklSetPosition
  split
  · split
    · cases f.dir with
      | none => trivial
      | some dir => exact ⟨rfl, fun _ => trivial⟩
    · trivial
  · split
    · refine Prog.only_ask_bind.mpr ⟨rfl, fun x => ?_⟩
      dsimp only
      split <;> trivial
    · refine Prog.only_ask_bind.mpr ⟨rfl, fun x => ?_⟩
      dsimp only
      split <;> trivial

theorem lklClose_harmless (f : LklIfile) : Harmless (lklClose f) :=
  (lklIFileClose_harmless f).bind fun _ => trivial

/-- Every entry of the table but one looks at `ReadOnly` before it modifies anything. -/
theorem serve_harmless (w : Nat) {f : LklIfile} (hro : f.volume.readOnly = true) {r : Request}
    (hr : r ≠ .delete) : Harmless (r.serve w f) := by
  cases r with
  | «open» fileName openMode attributes =>
    refine (lklOpen_harmless hro _ _ _).bind fun x => ?_
    obtain ⟨status, new⟩ := x
    cases new <;> trivial
  | close => exact (lklClose_harmless f).bind fun _ => trivial
  | delete => exact absurd rfl hr
  | read bufferSize => exact (lklIFileAccess_harmless w hro _ _ _).bind fun _ => trivial
  | write buffer => exact (lklIFileAccess_harmless w hro _ _ _).bind fun _ => trivial
  | getPosition =>
    refine Prog.Only.bind ?_ fun _ => trivial
    refine Prog.only_ask_bind.mpr ⟨rfl, fun x => ?_⟩
    split <;> trivial
  | setPosition position => exact (lklSetPosition_harmless f position).bind fun _ => trivial
  | getInfo type bufferSize => exact (lklGetInfo_harmless w f type bufferSize).bind fun _ => trivial
  | setInfo type bufferSize info =>
    exact (lklSetInfo_harmless w hro type bufferSize info).bind fun _ => trivial
  | flush => exact ⟨rfl, fun _ => trivial⟩
  | openEx fileName openMode attributes => trivial
  | readEx => trivial
  | writeEx => trivial
  | flushEx => trivial

section Volume

variable {v : LklVolume}

def OfVolume (v : LklVolume) (r : EfiStatus × Option LklIfile) : Prop :=
  ∀ f, r.2 = some f → f.volume = v

theorem ofVolume_none (status : EfiStatus) : OfVolume v (status, none) := by
  intro f hf
  cases hf

theorem openDone_ends (l : OpenLocals) {status : EfiStatus} {ifile : Option LklIfile}
    (h : OfVolume v (status, ifile)) : (openDone l status ifile).Ends (OfVolume v) := by
  have hfree : (openDone.openFree l status ifile).Ends (OfVolume v) :=
    Prog.ends_true.bind fun _ _ => Prog.ends_true.bind fun _ _ =>
      Prog.ends_true.bind fun _ _ => h
  unfold openDone
  split
  · exact Prog.ends_true.bind fun _ _ => hfree
  · exact hfree

theorem lklAllocateIFile_ends (volume : LklVolume) (fd : Int) :
    (lklAllocateIFile volume fd).Ends (OfVolume volume) := by
  refine Prog.ends_ask_bind.mpr fun ptr => ?_
  cases ptr with
  | none => exact ofVolume_none _
  | some ptr =>
    refine Prog.ends_ask_bind.mpr fun x => ?_
    split
    split
    · dsimp only
      split
      · exact fun _ => ofVolume_none _
      · exact ofVolume_none _
    · intro f hf
      cases hf
      rfl

theorem openFile_ends (volume : LklVolume) (l : OpenLocals) (path : Bytes) (flags mode : Nat) :
    (openFile volume l path flags mode).Ends (OfVolume volume) := by
  unfold openFile
  split
  · exact openDone_ends l (ofVolume_none _)
  · refine Prog.ends_ask_bind.mpr fun fd => ?_
    split
    · exact openDone_ends l (ofVolume_none _)
    · refine (lklAllocateIFile_ends volume fd).bind fun r hr => ?_
      obtain ⟨status, ifile⟩ := r
      dsimp only
      split
      · exact openDone_ends _ (ofVolume_none _)
      · refine openDone_ends _ fun f hf => ?_
        obtain ⟨g, hg, rfl⟩ := Option.map_eq_some_iff.mp hf
        exact hr g hg

theorem openCreate_ends (volume : LklVolume) (l : OpenLocals) (abs base : Bytes)
    (flags mode : Nat) (attributes : UInt64) :
    (openCreate volume l abs base flags mode attributes).Ends (OfVolume volume) := by
  refine Prog.ends_ask_bind.mpr fun ptr => ?_
  cases ptr with
  | none => exact openDone_ends l (ofVolume_none _)
  | some ptr =>
    refine Prog.ends_true.bind fun _ _ => ?_
    dsimp only
    split
    · refine Prog.ends_ask_bind.mpr fun rc => ?_
      split
      · exact openDone_ends _ (ofVolume_none _)
      · exact openFile_ends _ _ _ _ _
    · exact openFile_ends _ _ _ _ _

theorem lklOpen_ends (f : LklIfile) (fileName : Option (List UInt16))
    (openMode attributes : UInt64) :
    (lklOpen f fileName openMode attributes).Ends (OfVolume f.volume) := by
  unfold lklOpen
  cases fileName with
  | none => exact ofVolume_none _
  | some fileName =>
    dsimp only
    split
    · exact ofVolume_none _
    · refine Prog.ends_ask_bind.mpr fun ascii => ?_
      cases ascii with
      | none => exact openDone_ends _ (ofVolume_none _)
      | some ascii =>
        refine Prog.ends_ask_bind.mpr fun newFileName => ?_
        cases newFileName with
        | none => exact openDone_ends _ (ofVolume_none _)
        | some newFileName =>
          dsimp only
          split
          · split
            · exact openDone_ends _ (ofVolume_none _)
            · refine Prog.ends_ask_bind.mpr fun _ => Prog.ends_true.bind fun r _ => ?_
              cases r with
              | none => exact openDone_ends _ (ofVolume_none _)
              | some r => exact openCreate_ends _ _ _ _ _ _ _
          · refine Prog.ends_true.bind fun r _ => ?_
            cases r with
            | none => exact openDone_ends _ (ofVolume_none _)
            | some r => exact openFile_ends _ _ _ _ _

theorem lklOpenVolume_ends (volume : LklVolume) :
    (lklOpenVolume volume).Ends (OfVolume volume) := by
  refine Prog.ends_ask_bind.mpr fun fd => ?_
  split
  · exact ofVolume_none _
  · refine (lklAllocateIFile_ends volume fd).bind fun r hr => ?_
    obtain ⟨status, ifile⟩ := r
    cases ifile with
    | some ifile =>
      intro f hf
      cases hf
      exact hr ifile rfl
    | none =>
      refine Prog.ends_ask_bind.mpr fun _ => ?_
      split
      · exact fun _ => ofVolume_none _
      · exact ofVolume_none _

def HandleChange.OfVolume (v : LklVolume) : HandleChange → Prop
  | .kept f => f.volume = v
  | .closed => True
  | .opened f => f.volume = v

theorem lklIFileReadDir_ends (w : Nat) (f : LklIfile) (bufferSize : Nat) :
    (lklIFileReadDir w f bufferSize).Ends fun r => r.2.2.2.volume = f.volume := by
  refine Prog.ends_true.bind fun r _ => ?_
  cases r with
  | error status => rfl
  | ok dir =>
    refine Prog.ends_true.bind fun entry _ => ?_
    cases entry with
    | none =>
      refine Prog.ends_ask_bind.mpr fun err => ?_
      split <;> rfl
    | some name =>
      dsimp only
      split
      · rfl
      · exact Prog.ends_true.bind fun _ _ => rfl

theorem lklIFileAccess_ends (w : Nat) (f : LklIfile) (ioMode : IoMode) (bufferSize : Nat)
    (buffer : Bytes) :
    (lklIFileAccess w f ioMode bufferSize buffer).Ends fun r => r.2.2.2.volume = f.volume := by
  unfold lklIFileAccess
  split
  · rfl
  · split
    · rfl
    · split
      · exact (lklIFileReadDir_ends w f bufferSize).bind fun _ h => h
      · split
        · refine Prog.ends_ask_bind.mpr fun x => ?_
          split <;> rfl
        · refine Prog.ends_ask_bind.mpr fun x => ?_
          cases x <;> rfl

theorem lklSetPosition_ends (f : LklIfile) (position : UInt64) :
    (lklSetPosition f position).Ends fun r => r.2.volume = f.volume := by
  unfold lklSetPosition
  split
  · split
    · cases f.dir with
      | none => rfl
      | some dir => exact fun _ => rfl
    · rfl
  · split
    · refine Prog.ends_ask_bind.mpr fun x => ?_
      dsimp only
      split <;> rfl
    · refine Prog.ends_ask_bind.mpr fun x => ?_
      dsimp only
      split <;> rfl

theorem serve_ends (w : Nat) (f : LklIfile) (r : Request) :
    (r.serve w f).Ends fun x => x.2.OfVolume f.volume := by
  cases r with
  | «open» fileName openMode attributes =>
    refine (lklOpen_ends f fileName openMode attributes).bind fun x hx => ?_
    obtain ⟨status, new⟩ := x
    cases new with
    | none => rfl
    | some new => exact hx new rfl
  | close => exact Prog.ends_true.bind fun _ _ => trivial
  | delete => exact Prog.ends_true.bind fun _ _ => trivial
  | read bufferSize => exact (lklIFileAccess_ends w f _ _ _).bind fun _ h => h
  | write buffer => exact (lklIFileAccess_ends w f _ _ _).bind fun _ h => h
  | setPosition position => exact (lklSetPosition_ends f position).bind fun _ h => h
  | getPosition => exact Prog.ends_true.bind fun _ _ => rfl
  | getInfo type bufferSize => exact Prog.ends_true.bind fun _ _ => rfl
  | setInfo type bufferSize info => exact Prog.ends_true.bind fun _ _ => rfl
  | flush => exact Prog.ends_true.bind fun _ _ => rfl
  | openEx fileName openMode attributes => exact Prog.ends_true.bind fun _ _ => rfl
  | readEx => exact Prog.ends_true.bind fun _ _ => rfl
  | writeEx => exact Prog.ends_true.bind fun _ _ => rfl
  | flushEx => exact Prog.ends_true.bind fun _ _ => rfl

end Volume

def Session.OfVolume (s : Session) (v : LklVolume) : Prop :=
  ∀ h f, s h = some f → f.volume = v

theorem Session.OfVolume.update {s : Session} {v : LklVolume} (hs : s.OfVolume v) {h : Ptr}
    {f : Option LklIfile} (hf : ∀ g, f = some g → g.volume = v) :
    Session.OfVolume (Function.update s h f) v := by
  intro h' g hg
  by_cases hh : h' = h
  · subst hh
    rw [Function.update_self] at hg
    exact hf g hg
  · rw [Function.update_of_ne hh] at hg
    exact hs h' g hg

theorem Session.OfVolume.add {s : Session} {v : LklVolume} (hs : s.OfVolume v)
    {f : Option LklIfile} (hf : ∀ g, f = some g → g.volume = v) : (s.add f).OfVolume v := by
  cases f with
  | none => exact hs
  | some f => exact hs.update hf

theorem Session.Step.ofVolume {w : Nat} {v : LklVolume} {s s' : Session} {r : Option Request}
    {t : Trace} (h : Session.Step w v s r t s') (hs : s.OfVolume v) : s'.OfVolume v := by
  cases h with
  | openVolume h => exact hs.add ((lklOpenVolume_ends v).exec h)
  | call hf hr =>
    rename_i h f r status c
    have hc := (serve_ends w f r).exec hr
    rw [hs h f hf] at hc
    cases c with
    | kept g =>
      refine hs.update fun g' hg => ?_
      cases hg
      exact hc
    | closed =>
      refine hs.update fun g' hg => ?_
      cases hg
    | opened g =>
      refine Session.OfVolume.add (f := some g) hs fun g' hg => ?_
      cases hg
      exact hc

/-- A `LKLDelete` that got the memory for its path. -/
def Deletes (r : Option Request) (t : Trace) : Prop :=
  r = some .delete ∧ ∃ size ptr, (⟨.allocatePool size, some ptr⟩ : Event Call Call.Ans) ∈ t

def Modifies (t : Trace) : Prop := ∃ e ∈ t, e.1.modifies = true

theorem lklDelete_modifies_iff {f : LklIfile} {t : Trace} {status : EfiStatus}
    (h : (lklDelete f).Exec t status) :
    Modifies t ↔ ∃ size ptr, (⟨.allocatePool size, some ptr⟩ : Event Call Call.Ans) ∈ t := by
  obtain ⟨x, u, ht, h₁⟩ := Prog.exec_ask_bind_iff.mp h
  obtain ⟨rc, u₁, hu, h₂⟩ := Prog.exec_ask_bind_iff.mp h₁
  obtain ⟨y, u₂, hu₁, h₃⟩ := Prog.exec_ask_bind_iff.mp h₂
  cases x with
  | none =>
    obtain ⟨hu₂, -⟩ := Prog.exec_ret_iff.mp h₃
    simp [ht, hu, hu₁, hu₂, Modifies, Call.modifies]
  | some ptr =>
    obtain ⟨rc', u₃, hu₂, -⟩ := Prog.exec_ask_bind_iff.mp h₃
    constructor
    · intro _
      exact ⟨_, ptr, ht ▸ List.mem_cons_self⟩
    · intro _
      exact ⟨⟨.sysUnlink (ifilePath f.volume f), rc'⟩, by simp [ht, hu, hu₁, hu₂], rfl⟩

/-- A step on a read-only volume modifies it exactly if it is a deletion. -/
theorem Session.Step.modifies_iff {w : Nat} {v : LklVolume} (hro : v.readOnly = true)
    {s s' : Session} {r : Option Request} {t : Trace} (h : Session.Step w v s r t s')
    (hs : s.OfVolume v) : Modifies t ↔ Deletes r t := by
  cases h with
  | openVolume h =>
    have hnone := (lklOpenVolume_harmless v).exec h
    constructor
    · intro hmod
      obtain ⟨e, he, hm⟩ := hmod
      rw [hnone e he] at hm
      cases hm
    · intro hdel
      cases hdel.1
  | call hf hr =>
    rename_i h f r status c
    have hvol : f.volume.readOnly = true := by rw [hs h f hf, hro]
    by_cases hdel : r = .delete
    · subst hdel
      obtain ⟨u, u', x, rfl, hx, hret⟩ := Prog.exec_bind_iff.mp hr
      obtain ⟨rfl, -⟩ := Prog.exec_ret_iff.mp hret
      rw [List.append_nil, lklDelete_modifies_iff hx]
      exact (and_iff_right rfl).symm
    · have hnone := (serve_harmless w hvol hdel).exec hr
      constructor
      · intro hmod
        obtain ⟨e, he, hm⟩ := hmod
        rw [hnone e he] at hm
        cases hm
      · intro h
        exact absurd (Option.some.inj h.1) hdel

theorem readOnly_run_iff {w : Nat} {v : LklVolume} (hro : v.readOnly = true) {s s' : Session}
    (hs : s.OfVolume v) {run : List (Option Request × Trace)}
    (hrun : Session.Run w v s run s') :
    (∀ x ∈ run, ¬Modifies x.2) ↔ ∀ x ∈ run, ¬Deletes x.1 x.2 := by
  induction hrun with
  | nil s => simp
  | cons hstep _ ih =>
    rw [List.forall_mem_cons, List.forall_mem_cons, hstep.modifies_iff hro hs,
      ih (hstep.ofVolume hs)]

def readOnlyVolume : LklVolume := { mountedVolume with readOnly := true }

def readOnlyKernel : Linux :=
  { Linux.boot with
    fs := mountedTree.insert [ascii ['m', 'n', 't'], ascii ['1']] (ascii ['a']) (.file 3)
    inode := fun ino => ⟨ino ≠ 3, 0o644, 0, 0, 0, 0, fun _ => 0⟩ }

def readOnlyRoot : LklIfile :=
  ⟨1, readOnlyVolume, 3, O_RDONLY, ⟨fileMode true 0o644, 0, 0, 0, 0⟩, .of [], none, none⟩

def readOnlyFile : LklIfile :=
  ⟨5, readOnlyVolume, 4, O_RDONLY, ⟨fileMode false 0o644, 0, 0, 0, 0⟩, .of (ascii ['a']), none,
    none⟩

/-- The root is opened, the file is opened for reading, and is deleted. -/
def deletion : List (Option Request × Trace) :=
  let openFile := Request.open (some [0x61]) EFI_FILE_MODE_READ 0
  let k₁ := ((lklOpenVolume readOnlyVolume).run Linux.handle readOnlyKernel).2
  let k₂ := ((openFile.serve 32 readOnlyRoot).run Linux.handle k₁).2
  [(none, (lklOpenVolume readOnlyVolume).trace Linux.handle readOnlyKernel),
    (some openFile, (openFile.serve 32 readOnlyRoot).trace Linux.handle k₁),
    (some .delete, (Request.delete.serve 32 readOnlyFile).trace Linux.handle k₂)]

theorem run_deletion : ∃ s, Session.Run 32 readOnlyVolume (fun _ => none) deletion s := by
  have hroot := Prog.exec_trace Linux.handle (lklOpenVolume readOnlyVolume) readOnlyKernel
  have hrootResult : ((lklOpenVolume readOnlyVolume).run Linux.handle readOnlyKernel).1 =
      (.success, some readOnlyRoot) := by decide
  rw [hrootResult] at hroot
  generalize hk₁ : ((lklOpenVolume readOnlyVolume).run Linux.handle readOnlyKernel).2 = k₁
  have hopen := Prog.exec_trace Linux.handle
    ((Request.open (some [0x61]) EFI_FILE_MODE_READ 0).serve 32 readOnlyRoot) k₁
  have hopenResult : (((Request.open (some [0x61]) EFI_FILE_MODE_READ 0).serve 32
      readOnlyRoot).run Linux.handle k₁).1 = (.success, .opened readOnlyFile) := by
    subst hk₁
    decide
  rw [hopenResult] at hopen
  unfold deletion
  rw [hk₁]
  exact ⟨_, .cons (.openVolume hroot) (.cons (.call (Session.add_self _ _) hopen)
    (.cons (.call (Session.add_self _ _) (Prog.exec_trace _ _ _)) (.nil _)))⟩

theorem readOnly_run_iff_deletion :
    (∀ x ∈ deletion, ¬Modifies x.2) ↔ ∀ x ∈ deletion, ¬Deletes x.1 x.2 := by
  obtain ⟨s, hs⟩ := run_deletion
  exact readOnly_run_iff rfl (fun _ _ hf => by cases hf) hs

theorem readOnly_run_deletes :
    ∃ s, Session.Run 32 readOnlyVolume (fun _ => none) deletion s ∧
      ∃ x ∈ deletion, Modifies x.2 := by
  obtain ⟨s, hs⟩ := run_deletion
  refine ⟨s, hs, ?_⟩
  have hlast : (deletion.any fun x => x.2.any fun e => e.1.modifies) = true := by decide
  obtain ⟨x, hx, hany⟩ := List.any_eq_true.mp hlast
  obtain ⟨e, he, hmod⟩ := List.any_eq_true.mp hany
  exact ⟨x, hx, e, he, hmod⟩

end UefiLkl
