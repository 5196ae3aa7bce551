import UefiLkl.Entries
set_option autoImplicit false

/-!
The kernel as a volume in use meets it: every call may fail, transfers may be short, and
directories can be listed.
-/

namespace UefiLkl
open Interaction

/-- A write of no bytes leaves the file as it is. -/
def Linux.writeSome (k : Linux) (fd : Int) (data : Bytes) : Int × Linux :=
  if data = [] then (0, k) else k.write fd data

/-- The answers of a call that does not fail. Streams and the figures of a volume may say anything,
the entry that is opened is one of some directory, and fewer bytes than asked for are transferred
only if transfers may be `short`. Nothing answers a write through a handle that was not made. -/
def Linux.answers (short : Bool) (k : Linux) : (c : Call) → c.Ans → Linux → Prop
  | .touch .ifile _ _ _, _, _ => False
  | .sysRead fd len, x, k' => ∃ n ≤ len, (short = false → n = len) ∧ (x, k') = k.read fd n
  | .sysWrite fd data, x, k' =>
    ∃ n, (short = false → data.length ≤ n) ∧ (x, k') = k.writeSome fd (data.take n)
  | .sysOpenat _ name flags _, x, k' => ∃ dir, (x, k') = k.openat dir name flags
  | .sysStatfs _, _, k' | .fdopendir _, _, k' | .readdir _, _, k' | .errdir _, _, k' => k' = k
  | c, x, k' => (x, k') = Linux.handle c k

def Linux.answering (short : Bool) : Env Call Call.Ans Linux where
  may k c x k' := k.answers short c x k' ∨
    (Call.failed c x = true ∧ k' = { k with faulted := true })

/-- The calls that are answered in no other way than by `Linux.faulty`. -/
def Call.firm : Call → Bool
  | .sysRead _ _ | .sysWrite _ _ | .sysOpenat _ _ _ _ | .sysStatfs _ | .fdopendir _ | .readdir _
  | .errdir _ => false
  | _ => true

theorem Call.firm_of_plain {c : Call} (h : c.plain = true) : c.firm = true := by
  cases c <;> first | rfl | cases h

section Rules

variable {α : Type} {Q : α → Linux → Prop} {k : Linux} {short : Bool} {p : Lkl α}

theorem Linux.always_answering_ask {c : Call} {f : c.Ans → Lkl α} :
    (Linux.answering short).Always (Prog.ask c >>= f) Q k ↔
      (∀ x k', k.answers short c x k' → (Linux.answering short).Always (f x) Q k') ∧
      ∀ x, Call.failed c x = true →
        (Linux.answering short).Always (f x) Q { k with faulted := true } := by
  constructor
  · intro h
    exact ⟨fun x k' hx => h x k' (.inl hx), fun x hx => h x _ (.inr ⟨hx, rfl⟩)⟩
  · rintro ⟨hok, hfault⟩ x k' (hx | ⟨hx, rfl⟩)
    · exact hok x k' hx
    · exact hfault x hx

theorem Linux.handle_of_answers {c : Call} {x : c.Ans} {k' : Linux} (hc : c.firm = true)
    (h : k.answers short c x k') : (x, k') = Linux.handle c k := by
  cases c with
  | touch buffer off len size => cases buffer <;> first | exact h | cases h
  | sysRead | sysWrite | sysOpenat | sysStatfs | fdopendir | readdir | errdir => cases hc
  | _ => exact h

theorem Linux.always_answering (h : Linux.faulty.Always p Q k)
    (hp : p.Only fun c => c.firm = true) : (Linux.answering short).Always p Q k :=
  h.restrict (fun _ _ _ _ hc hx => hx.imp_left (Linux.handle_of_answers hc)) hp

end Rules

theorem openDone_firm (l : OpenLocals) (status : EfiStatus) (ifile : Option LklIfile) :
    (openDone l status ifile).Only fun c => c.firm = true :=
  (openDone_plain l status ifile).mono fun _ => Call.firm_of_plain

theorem lklAllocateIFile_firm (volume : LklVolume) (fd : Int) :
    (lklAllocateIFile volume fd).Only fun c => c.firm = true :=
  (lklAllocateIFile_plain volume fd).mono fun _ => Call.firm_of_plain

theorem realPath_firm (name : Option Bytes) (resolved : Option Ptr) :
    (realPath name resolved).Only fun c => c.firm = true :=
  (realPath_plain name resolved).mono fun _ => Call.firm_of_plain

theorem openFile_firm (volume : LklVolume) (l : OpenLocals) (path : Bytes) (flags mode : Nat) :
    (openFile volume l path flags mode).Only fun c => c.firm = true := by
  unfold openFile
  split
  · exact openDone_firm _ _ _
  · refine Prog.only_ask_bind.mpr ⟨rfl, fun fd => ?_⟩
    split
    · exact openDone_firm _ _ _
    · refine (lklAllocateIFile_firm volume fd).bind fun r => ?_
      dsimp only
      split <;> exact openDone_firm _ _ _

theorem openCreate_firm (volume : LklVolume) (l : OpenLocals) (abs base : Bytes)
    (flags mode : Nat) (attributes : UInt64) :
    (openCreate volume l abs base flags mode attributes).Only fun c => c.firm = true := by
  refine Prog.only_ask_bind.mpr ⟨rfl, fun ptr => ?_⟩
  cases ptr with
  | none => exact openDone_firm _ _ _
  | some ptr =>
    refine Prog.Only.bind ((freeUnlessNull_plain _).mono fun _ => Call.firm_of_plain) fun _ => ?_
    dsimp only
    split
    · refine Prog.only_ask_bind.mpr ⟨rfl, fun rc => ?_⟩
      split
      · exact openDone_firm _ _ _
      · exact openFile_firm _ _ _ _ _
    · exact openFile_firm _ _ _ _ _

theorem lklOpen_firm (parent : LklIfile) (fileName : Option (List UInt16))
    (openMode attributes : UInt64) :
    (lklOpen parent fileName openMode attributes).Only fun c => c.firm = true := by
  unfold lklOpen
  cases fileName with
  | none => trivial
  | some fileName =>
    dsimp only
    rcases openFlags parent.volume.readOnly openMode attributes with status | ⟨flags, mode⟩
    · trivial
    refine Prog.only_ask_bind.mpr ⟨rfl, fun ascii => ?_⟩
    cases ascii with
    | none => exact openDone_firm _ _ _
    | some ascii =>
      refine Prog.only_ask_bind.mpr ⟨rfl, fun newFileName => ?_⟩
      cases newFileName with
      | none => exact openDone_firm _ _ _
      | some newFileName =>
        dsimp only
        split
        · split
          · exact openDone_firm _ _ _
          · refine Prog.only_ask_bind.mpr ⟨rfl, fun _ => (realPath_firm _ _).bind fun r => ?_⟩
            cases r with
            | none => exact openDone_firm _ _ _
            | some r => exact openCreate_firm _ _ _ _ _ _ _
        · refine (realPath_firm _ _).bind fun r => ?_
          cases r with
          | none => exact openDone_firm _ _ _
          | some r => exact openFile_firm _ _ _ _ _

theorem lklOpenVolume_firm (volume : LklVolume) :
    (lklOpenVolume volume).Only fun c => c.firm = true := by
  refine Prog.only_ask_bind.mpr ⟨rfl, fun fd => ?_⟩
  split
  · trivial
  · refine (lklAllocateIFile_firm volume fd).bind fun r => ?_
    obtain ⟨status, ifile⟩ := r
    cases ifile with
    | some ifile => trivial
    | none =>
      refine Prog.only_ask_bind.mpr ⟨rfl, fun _ => ?_⟩
      split
      · exact ⟨rfl, fun _ => trivial⟩
      · trivial

theorem lklIFileClose_firm (f : LklIfile) : (lklIFileClose f).Only fun c => c.firm = true :=
  ⟨rfl, fun _ => ⟨rfl, fun _ => trivial⟩⟩

theorem lklDelete_firm (f : LklIfile) : (lklDelete f).Only fun c => c.firm = true := by
  refine Prog.only_ask_bind.mpr ⟨rfl, fun ptr => (lklIFileClose_firm f).bind fun _ => ?_⟩
  cases ptr with
  | none => trivial
  | some ptr => exact ⟨rfl, fun _ => ⟨rfl, fun _ => trivial⟩⟩

theorem lklGetPosition_firm (f : LklIfile) : (lklGetPosition f).Only fun c => c.firm = true := by
  refine Prog.only_ask_bind.mpr ⟨rfl, fun x => ?_⟩
  split <;> trivial

theorem lklSetPosition_firm (f : LklIfile) (position : UInt64) :
    (lklSetPosition f position).Only fun c => c.firm = true := by
  have hseek : ∀ (off : Int) (whence : Nat), Prog.Only (fun c : Call => c.firm = true) (do
      let newPosition ← lklSysLseek f.fd off whence
      if newPosition < 0 then pure (lklError2EfiError newPosition, f)
      else pure (EfiStatus.success, f)) := by
    intro off whence
    refine Prog.only_ask_bind.mpr ⟨rfl, fun x => ?_⟩
    split <;> trivial
  unfold lklSetPosition
  split
  · split
    · cases f.dir with
      | none => trivial
      | some dir => exact ⟨rfl, fun _ => trivial⟩
    · trivial
  · split <;> exact hseek _ _

theorem lklSetFileInfo_firm (w : Nat) (volume : LklVolume) (f : LklIfile) (bufferSize : Nat)
    (info : EfiFileInfo) :
    (lklSetFileInfo w volume f bufferSize info).Only fun c => c.firm = true := by
  have hsize : ∀ (st : Stat) (readOnly isDirectory : UInt8),
      (applySize f st readOnly isDirectory info).Only fun c => c.firm = true := by
    intro st readOnly isDirectory
    unfold applySize
    split
    · split
      · trivial
      · refine Prog.only_ask_bind.mpr ⟨rfl, fun rc => ?_⟩
        split <;> trivial
    · trivial
  have hattributes : ∀ (st : Stat) (readOnly isDirectory : UInt8),
      (applyAttributes f st readOnly isDirectory info).Only fun c => c.firm = true := by
    intro st readOnly isDirectory
    unfold applyAttributes
    split
    · trivial
    dsimp only
    split
    · trivial
    have hrest : ∀ rc : Int, Prog.Only (fun c : Call => c.firm = true)
        (if rc ≠ 0 then pure (lklError2EfiError rc)
        else applySize f st readOnly isDirectory info) := by
      intro rc
      split
      · trivial
      · exact hsize _ _ _
    split
    · exact Prog.only_ask_bind.mpr ⟨rfl, fun rc => hrest rc⟩
    · exact hrest 0
  unfold lklSetFileInfo
  split
  · trivial
  split
  · trivial
  refine Prog.only_ask_bind.mpr ⟨rfl, fun x => ?_⟩
  dsimp only
  split
  · trivial
  split
  · trivial
  have hrest : ∀ (rc : Int) (st : Stat) (readOnly isDirectory : UInt8),
      Prog.Only (fun c : Call => c.firm = true) (if rc ≠ 0 then pure (lklError2EfiError rc)
        else applyAttributes f st readOnly isDirectory info) := by
    intro rc st readOnly isDirectory
    split
    · trivial
    · exact hattributes _ _ _
  split
  · refine Prog.Only.bind ?_ fun rc => hrest rc _ _ _
    exact ⟨rfl, fun _ => ⟨rfl, fun _ => ⟨rfl, fun _ => trivial⟩⟩⟩
  · exact hrest 0 _ _ _

theorem lklSetInfo_firm (w : Nat) (f : LklIfile) (type : EfiGuid) (bufferSize : Nat)
    (info : EfiFileInfo) :
    (lklSetInfo w f type bufferSize info).Only fun c => c.firm = true := by
  unfold lklSetInfo
  cases type with
  | fileInfo =>
    dsimp only
    split
    · trivial
    · exact lklSetFileInfo_firm w f.volume f bufferSize info
  | _ => trivial

/-- Only reading, writing and asking for information call anything else. -/
theorem serve_firm (w : Nat) (f : LklIfile) {r : Request} (hread : ∀ size, r ≠ .read size)
    (hwrite : ∀ buffer, r ≠ .write buffer) (hinfo : ∀ type size, r ≠ .getInfo type size) :
    (r.serve w f).Only fun c => c.firm = true := by
  cases r with
  | «open» fileName openMode attributes =>
    refine (lklOpen_firm f fileName openMode attributes).bind fun x => ?_
    obtain ⟨status, new⟩ := x
    cases new <;> trivial
  | close =>
    refine Prog.Only.bind (p := lklClose f) ?_ fun _ => trivial
    exact (lklIFileClose_firm f).bind fun _ => trivial
  | delete => exact (lklDelete_firm f).bind fun _ => trivial
  | read bufferSize => exact absurd rfl (hread bufferSize)
  | write buffer => exact absurd rfl (hwrite buffer)
  | getPosition => exact (lklGetPosition_firm f).bind fun _ => trivial
  | setPosition position => exact (lklSetPosition_firm f position).bind fun _ => trivial
  | getInfo type bufferSize => exact absurd rfl (hinfo type bufferSize)
  | setInfo type bufferSize info =>
    exact (lklSetInfo_firm w f type bufferSize info).bind fun _ => trivial
  | flush => exact ⟨rfl, fun _ => trivial⟩
  | _ => trivial

end UefiLkl
