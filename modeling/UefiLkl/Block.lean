import UefiLkl.Efi
import UefiLkl.Lib.Interaction
import UefiLkl.Lib.FlatMemory
set_option autoImplicit false

/-!
The block device of the kernel: its requests, served by the disk and block protocols of
the firmware.
-/

namespace UefiLkl
open Interaction FlatMemory

structure Iovec where
  iovBase : Nat
  iovLen : BitVec 32
  deriving DecidableEq, Repr

inductive BlkType where
  | read | write | flush | flushOut | other
  deriving DecidableEq, Repr

/-- `struct lkl_blk_req`, with `count` buffers. -/
structure LklBlkReq where
  type : BlkType
  sector : BitVec 64
  buf : List Iovec
  deriving DecidableEq, Repr

inductive BlkStatus where
  | ok | ioerr | unsup
  deriving DecidableEq, Repr

inductive BlockCall where
  | readDisk (mediaId : Nat) (offset : BitVec 64) (bufferSize : BitVec 32) (buffer : Nat)
  | writeDisk (mediaId : Nat) (offset : BitVec 64) (bufferSize : BitVec 32) (buffer : Nat)
  | flushBlocks
  deriving DecidableEq, Repr

abbrev BlockCall.Ans (_ : BlockCall) : Type := EfiStatus

abbrev BlockDev (α : Type) := Prog BlockCall BlockCall.Ans α
abbrev BlockTrace := List (Event BlockCall BlockCall.Ans)

abbrev DiskFn := Nat → BitVec 64 → BitVec 32 → Nat → BlockCall

/-- The parts of `EFI_BLOCK_IO_MEDIA` that the capacity is computed from. -/
structure BlockMedia where
  lastBlock : BitVec 64
  blockSize : BitVec 32
  deriving DecidableEq, Repr

def uefiBlkGetCapacity (media : BlockMedia) : BitVec 64 :=
  (media.lastBlock + 1) * media.blockSize.setWidth 64

/-- The buffers from number `i` on, at offset `off`. -/
def doRwLoop (mediaId : Nat) (fn : DiskFn) : List Iovec → BitVec 64 → BlockDev Int
  | [], _ => pure 0
  | v :: rest, off => do
    let status ← Prog.ask (fn mediaId off v.iovLen v.iovBase)
    if status.isError then pure (-1)
    -- `len` is an `int`, and the offset signed
    else doRwLoop mediaId fn rest (off + v.iovLen.signExtend 64)

def doRw (mediaId : Nat) (fn : DiskFn) (req : LklBlkReq) : BlockDev Int :=
  doRwLoop mediaId fn req.buf (req.sector * 512)

def blkStatus (err : Int) : BlkStatus := if err < 0 then .ioerr else .ok

def uefiBlkRequest (mediaId : Nat) (req : LklBlkReq) : BlockDev BlkStatus :=
  match req.type with
  | .read => do
    let err ← doRw mediaId .readDisk req
    pure (blkStatus err)
  | .write => do
    let err ← doRw mediaId .writeDisk req
    pure (blkStatus err)
  | .flush | .flushOut => do
    -- what the flush returns is not looked at
    let _ ← Prog.ask BlockCall.flushBlocks
    pure (blkStatus 0)
  | .other => pure .unsup

/-- A disk and the memory, byte by byte, and what the firmware will answer. -/
structure FlatDisk where
  disk : Nat → UInt8
  memory : Nat → UInt8
  answers : Nat → EfiStatus

def FlatDisk.transfer (d : FlatDisk) : BlockCall → FlatDisk
  | .readDisk _ off size buffer =>
    { d with memory := store d.memory buffer (load d.disk off.toNat size.toNat) }
  | .writeDisk _ off size buffer =>
    { d with disk := store d.disk off.toNat (load d.memory buffer size.toNat) }
  | .flushBlocks => d

def FlatDisk.answering (d : FlatDisk) (answers : Nat → EfiStatus) : FlatDisk :=
  ⟨d.disk, d.memory, answers⟩

/-- A call that fails transfers nothing. -/
def flatDisk : Handler BlockCall BlockCall.Ans FlatDisk := fun c d =>
  let status := d.answers 0
  (status, (if status.isError then d else d.transfer c).answering fun n => d.answers (n + 1))

def Iovec.range (v : Iovec) : Range := ⟨v.iovBase, v.iovLen.toNat⟩

def LklBlkReq.start (req : LklBlkReq) : Nat := 512 * req.sector.toNat
def LklBlkReq.ranges (req : LklBlkReq) : List Range := req.buf.map Iovec.range

/-- Every length is an `int`, and the end of the request an offset. -/
structure LklBlkReq.Fits (req : LklBlkReq) : Prop where
  length : ∀ v ∈ req.buf, v.iovLen.toNat < 2 ^ 31
  last : req.start + total req.ranges < 2 ^ 63

/-- What a request is for: `done` are the buffers that take part. -/
def FlatDisk.moved (d : FlatDisk) (type : BlkType) (start : Nat) (done : List Range) : FlatDisk :=
  match type with
  | .read => { d with memory := scatter d.memory done (load d.disk start (total done)) }
  | .write => { d with disk := store d.disk start (gather d.memory done) }
  | _ => d

/-- The bytes of the ranges, in their order, are on the disk from `start` on, and no others. -/
structure FlatDisk.Wrote (d d' : FlatDisk) (start : Nat) (done : List Range) : Prop where
  memory : d'.memory = d.memory
  written : load d'.disk start (total done) = gather d.memory done
  others : ∀ x, x < start ∨ start + total done ≤ x → d'.disk x = d.disk x

/-- The ranges were filled one after the other from the disk, and nothing else was. -/
structure FlatDisk.ReadInto (d d' : FlatDisk) (start : Nat) (done : List Range) : Prop where
  disk : d'.disk = d.disk
  filled : d'.memory = scatter d.memory done (load d.disk start (total done))
  apart : done.Pairwise Range.Disjoint → gather d'.memory done = load d.disk start (total done)
  others : ∀ x, (∀ r ∈ done, ¬r.Holds x) → d'.memory x = d.memory x

structure FlatDisk.Reached (d : FlatDisk) (buf done : List Iovec) (failed : Bool) : Prop where
  front : done <+: buf
  succeeded : ∀ i < done.length, (d.answers i).isError = false
  complete : failed = false → done = buf
  failing : failed = true →
    done.length < buf.length ∧ (d.answers done.length).isError = true

section Loop

variable {mediaId : Nat} {d : FlatDisk}

theorem offset_add {off : BitVec 64} {len : BitVec 32} (hlen : len.toNat < 2 ^ 31)
    (hend : off.toNat + len.toNat < 2 ^ 63) :
    (off + len.signExtend 64).toNat = off.toNat + len.toNat := by
  have hmsb : len.msb = false := by
    rw [BitVec.msb_eq_false_iff_two_mul_lt]
    omega
  rw [BitVec.signExtend_eq_setWidth_of_msb_false hmsb, BitVec.toNat_add,
    BitVec.toNat_setWidth_of_le (by decide)]
  omega

theorem FlatDisk.moved_nil (d : FlatDisk) (type : BlkType) (start : Nat) :
    d.moved type start [] = d := by
  cases type <;> rfl

theorem FlatDisk.moved_read_one (d : FlatDisk) (start : Nat) (r : Range) :
    d.moved .read start [r] =
      { d with memory := store d.memory r.base (load d.disk start r.len) } := by
  have hall : (load d.disk start r.len).take r.len = load d.disk start r.len :=
    List.take_of_length_le (Nat.le_of_eq (length_load _ _ _))
  simp [moved, scatter, hall]

theorem FlatDisk.moved_cons (d : FlatDisk) (type : BlkType) (start : Nat) (r : Range)
    (rs : List Range) :
    d.moved type start (r :: rs) = (d.moved type start [r]).moved type (start + r.len) rs := by
  cases type with
  | read =>
    rw [moved_read_one]
    simp only [moved, total_cons, load_add]
    rw [scatter_cons_append (length_load _ _ _)]
  | write => simp [moved, gather, store_append]
  | flush => rfl
  | flushOut => rfl
  | other => rfl

theorem FlatDisk.moved_answering (d : FlatDisk) (type : BlkType) (start : Nat) (done : List Range)
    (answers : Nat → EfiStatus) :
    (d.answering answers).moved type start done = (d.moved type start done).answering answers := by
  cases type <;> rfl

def Transfers (mediaId : Nat) (fn : DiskFn) (type : BlkType) : Prop :=
  ∀ (d : FlatDisk) off len a,
    d.transfer (fn mediaId off len a) = d.moved type off.toNat [⟨a, len.toNat⟩]

theorem readDisk_transfers (mediaId : Nat) : Transfers mediaId .readDisk .read := by
  intro d off len a
  rw [FlatDisk.moved_read_one]
  rfl

theorem writeDisk_transfers (mediaId : Nat) : Transfers mediaId .writeDisk .write := by
  intro d off len a
  simp [FlatDisk.transfer, FlatDisk.moved, gather]

/-- The offset of the next call is that of the disk, after all the lengths before it. -/
theorem doRwLoop_moves {fn : DiskFn} {type : BlkType} (hfn : Transfers mediaId fn type)
    {buf : List Iovec} (off : BitVec 64) (hlen : ∀ v ∈ buf, v.iovLen.toNat < 2 ^ 31)
    (hend : off.toNat + total (buf.map Iovec.range) < 2 ^ 63) (d : FlatDisk) :
    ∃ (done : List Iovec) (failed : Bool) (answers : Nat → EfiStatus), d.Reached buf done failed ∧
      (doRwLoop mediaId fn buf off).run flatDisk d =
        (if failed then -1 else 0,
          (d.moved type off.toNat (done.map Iovec.range)).answering answers) := by
  induction buf generalizing off d with
  | nil =>
    refine ⟨[], false, d.answers, ⟨List.nil_prefix, by simp, by simp, by simp⟩, ?_⟩
    rw [List.map_nil, FlatDisk.moved_nil]
    rfl
  | cons v rest ih =>
    have hv := hlen v List.mem_cons_self
    rw [List.map_cons, total_cons] at hend
    have hoff : (off + v.iovLen.signExtend 64).toNat = off.toNat + v.iovLen.toNat :=
      offset_add hv (by simp only [Iovec.range] at hend; omega)
    simp only [doRwLoop, Prog.run_ask_bind, flatDisk]
    by_cases herror : (d.answers 0).isError = true
    · refine ⟨[], true, fun n => d.answers (n + 1), ⟨List.nil_prefix, by simp, by simp, ?_⟩, ?_⟩
      · exact fun _ => ⟨by simp, herror⟩
      · simp [herror, FlatDisk.moved_nil]
    · rw [Bool.not_eq_true] at herror
      simp only [herror, Bool.false_eq_true, if_false, hfn d]
      obtain ⟨done, failed, answers, hreached, hrun⟩ := ih (off + v.iovLen.signExtend 64)
        (fun w hw => hlen w (List.mem_cons_of_mem v hw))
        (by rw [hoff]; simp only [Iovec.range] at hend ⊢; omega)
        ((d.moved type off.toNat [v.range]).answering fun n => d.answers (n + 1))
      refine ⟨v :: done, failed, answers, ⟨?_, ?_, ?_, ?_⟩, ?_⟩
      · exact List.cons_prefix_cons.mpr ⟨rfl, hreached.front⟩
      · intro i hi
        cases i with
        | zero => exact herror
        | succ i => exact hreached.succeeded i (by simpa using hi)
      · intro hall
        rw [hreached.complete hall]
      · intro hfailed
        obtain ⟨hlt, hanswer⟩ := hreached.failing hfailed
        exact ⟨by simpa using hlt, hanswer⟩
      · rw [List.map_cons, d.moved_cons type off.toNat v.range (done.map Iovec.range)]
        rw [hoff, FlatDisk.moved_answering] at hrun
        exact hrun

theorem FlatDisk.moved_wrote (d : FlatDisk) (start : Nat) (done : List Range)
    (answers : Nat → EfiStatus) :
    d.Wrote ((d.moved .write start done).answering answers) start done := by
  have hlen := length_gather d.memory done
  refine ⟨rfl, load_store_same hlen, fun x hx => store_of_outside ?_⟩
  rw [hlen]
  exact hx

theorem FlatDisk.moved_readInto (d : FlatDisk) (start : Nat) (done : List Range)
    (answers : Nat → EfiStatus) :
    d.ReadInto ((d.moved .read start done).answering answers) start done :=
  ⟨rfl, rfl, fun h => gather_scatter h (length_load _ _ _), fun _ => scatter_of_outside⟩

theorem LklBlkReq.Fits.offset {req : LklBlkReq} (h : req.Fits) :
    (req.sector * 512).toNat = req.start := by
  have hlast := h.last
  simp only [LklBlkReq.start] at hlast ⊢
  rw [BitVec.toNat_mul]
  have hconst : (512 : BitVec 64).toNat = 512 := rfl
  rw [hconst]
  omega

theorem doRw_moves {fn : DiskFn} {type : BlkType} (hfn : Transfers mediaId fn type)
    {req : LklBlkReq} (h : req.Fits) (d : FlatDisk) :
    ∃ (done : List Iovec) (failed : Bool) (answers : Nat → EfiStatus),
      d.Reached req.buf done failed ∧
      (doRw mediaId fn req).run flatDisk d =
        (if failed then -1 else 0,
          (d.moved type req.start (done.map Iovec.range)).answering answers) := by
  have hoff := h.offset
  have hmoves := doRwLoop_moves hfn (req.sector * 512) h.length (by rw [hoff]; exact h.last) d
  rw [hoff] at hmoves
  exact hmoves

theorem uefiBlkRequest_moves (mediaId : Nat) {req : LklBlkReq}
    (hrw : req.type = .read ∨ req.type = .write) (h : req.Fits) (d : FlatDisk) :
    ∃ (done : List Iovec) (failed : Bool) (answers : Nat → EfiStatus),
      d.Reached req.buf done failed ∧
      (uefiBlkRequest mediaId req).run flatDisk d =
        (if failed then .ioerr else .ok,
          (d.moved req.type req.start (done.map Iovec.range)).answering answers) := by
  rcases hrw with htype | htype
  · obtain ⟨done, failed, answers, hreached, hrun⟩ := doRw_moves (readDisk_transfers mediaId) h d
    refine ⟨done, failed, answers, hreached, ?_⟩
    simp only [uefiBlkRequest, htype, Prog.run_bind, hrun]
    cases failed <;> rfl
  · obtain ⟨done, failed, answers, hreached, hrun⟩ := doRw_moves (writeDisk_transfers mediaId) h d
    refine ⟨done, failed, answers, hreached, ?_⟩
    simp only [uefiBlkRequest, htype, Prog.run_bind, hrun]
    cases failed <;> rfl

theorem FlatDisk.Reached.complete_of_ok {d : FlatDisk} {buf done : List Iovec} {failed : Bool}
    (h : d.Reached buf done failed)
    (hok : (if failed then BlkStatus.ioerr else .ok) = .ok) : done = buf := by
  cases failed with
  | false => exact h.complete rfl
  | true => cases hok

/-- A request is a transfer from or to a flat disk, and what is written in some buffers is
read into any others. -/
theorem uefiBlkRequest_refines_flatDisk (mediaId : Nat) {req : LklBlkReq}
    (hrw : req.type = .read ∨ req.type = .write) (h : req.Fits) (d : FlatDisk) :
    ∃ (done : List Iovec) (failed : Bool) (d' : FlatDisk), d.Reached req.buf done failed ∧
      (uefiBlkRequest mediaId req).run flatDisk d = (if failed then .ioerr else .ok, d') ∧
      (req.type = .write → d.Wrote d' req.start (done.map Iovec.range)) ∧
      (req.type = .read → d.ReadInto d' req.start (done.map Iovec.range)) ∧
      ∀ (req' : LklBlkReq) (d₁ d₂ : FlatDisk), req.type = .write → failed = false →
        req'.type = .read → req'.Fits → req'.sector = req.sector →
        total req'.ranges = total req.ranges → req'.ranges.Pairwise Range.Disjoint →
        d₁.disk = d'.disk → (uefiBlkRequest mediaId req').run flatDisk d₁ = (.ok, d₂) →
        gather d₂.memory req'.ranges = gather d.memory req.ranges := by
  obtain ⟨done, failed, answers, hreached, hrun⟩ := uefiBlkRequest_moves mediaId hrw h d
  refine ⟨done, failed, _, hreached, hrun, ?_, ?_, ?_⟩
  · intro hwrite
    rw [hwrite]
    exact d.moved_wrote _ _ answers
  · intro hread
    rw [hread]
    exact d.moved_readInto _ _ answers
  · intro req' d₁ d₂ hwrite hfailed hread h' hsector htotal hapart hdisk hrun'
    have hdone : done = req.buf := hreached.complete hfailed
    obtain ⟨done', failed', answers', hreached', hmoves'⟩ :=
      uefiBlkRequest_moves mediaId (.inl hread) h' d₁
    rw [hmoves', Prod.mk.injEq] at hrun'
    have hdone' : done' = req'.buf := hreached'.complete_of_ok hrun'.1
    have hwrote := d.moved_wrote req.start (done.map Iovec.range) answers
    have hreadInto := d₁.moved_readInto req'.start (done'.map Iovec.range) answers'
    rw [← hwrite] at hwrote
    rw [← hread, hrun'.2] at hreadInto
    subst hdone hdone'
    have hstart : req'.start = req.start := congrArg (512 * ·.toNat) hsector
    calc gather d₂.memory req'.ranges
        = load d₁.disk req'.start (total req'.ranges) := hreadInto.apart hapart
      _ = load (d.moved req.type req.start req.ranges).disk req.start (total req.ranges) := by
        rw [hdisk, hstart, htotal]
        rfl
      _ = gather d.memory req.ranges := hwrote.written

def writeExample : LklBlkReq := ⟨.write, 1, [⟨0x10, 1⟩, ⟨0x20, 2⟩]⟩

def diskExample : FlatDisk where
  disk _ := 0
  memory a := a.toUInt8
  answers n := if n = 1 then .deviceError else .success

theorem uefiBlkRequest_refines_flatDisk_failing :
    ∃ d', (uefiBlkRequest 0 writeExample).run flatDisk diskExample = (.ioerr, d') ∧
      load d'.disk 512 1 = [0x10] ∧ ∀ x, x < 512 ∨ 513 ≤ x → d'.disk x = 0 := by
  have hfits : writeExample.Fits := ⟨by decide, by decide⟩
  obtain ⟨done, failed, d', hreached, hrun, hwrote, -, -⟩ :=
    uefiBlkRequest_refines_flatDisk 0 (.inr rfl) hfits diskExample
  have hstatus : ((uefiBlkRequest 0 writeExample).run flatDisk diskExample).1 = .ioerr := by
    decide
  have hfailed : failed = true := by
    rw [hrun] at hstatus
    cases failed with
    | false => cases hstatus
    | true => rfl
  obtain ⟨hlt, hanswer⟩ := hreached.failing hfailed
  have hone : done.length = 1 := by
    have hlt' : done.length < 2 := hlt
    by_contra hne
    have hzero : done.length = 0 := by omega
    rw [hzero] at hanswer
    cases hanswer
  have hdone : done = [⟨0x10, 1⟩] := by
    rw [List.prefix_iff_eq_take.mp hreached.front, hone]
    rfl
  rw [hfailed] at hrun
  rw [hdone] at hwrote
  exact ⟨d', hrun, (hwrote rfl).written, (hwrote rfl).others⟩

end Loop

/-- A request that was answered, and the calls of the firmware that were made for it. -/
structure Served (mediaId : Nat) where
  req : LklBlkReq
  trace : BlockTrace
  status : BlkStatus
  exec : (uefiBlkRequest mediaId req).Exec trace status

/-- OK is the answer only when all calls succeeded. -/
def Served.Truthful {mediaId : Nat} (x : Served mediaId) : Prop :=
  x.status = .ok → ∀ e ∈ x.trace, e.2.isError = false

def LklBlkReq.flushes (req : LklBlkReq) : Prop := req.type = .flush ∨ req.type = .flushOut

/-- The device reported that what it had been given is durable. -/
def Served.Flushed {mediaId : Nat} (x : Served mediaId) : Prop :=
  ∃ e ∈ x.trace, e.1 = .flushBlocks ∧ e.2.isError = false

/-- Between a write that was answered OK and a later flush that is, or with that flush, the
device was flushed. -/
def Durable {mediaId : Nat} (stream : List (Served mediaId)) : Prop :=
  ∀ before x after y later, stream = before ++ x :: after ++ y :: later →
    x.req.type = .write → x.status = .ok → y.req.flushes → y.status = .ok →
    ∃ z ∈ after ++ [y], z.Flushed

section Status

variable {mediaId : Nat}

theorem doRwLoop_exec {fn : DiskFn} {buf : List Iovec} {off : BitVec 64} {t : BlockTrace}
    {err : Int} (h : (doRwLoop mediaId fn buf off).Exec t err) (herr : 0 ≤ err) :
    ∀ e ∈ t, e.2.isError = false := by
  induction buf generalizing off t with
  | nil =>
    obtain ⟨rfl, -⟩ := Prog.exec_ret_iff.mp h
    simp
  | cons v rest ih =>
    obtain ⟨status, u, rfl, hu⟩ := Prog.exec_ask_bind_iff.mp h
    by_cases herror : status.isError = true
    · rw [if_pos herror] at hu
      obtain ⟨-, rfl⟩ := Prog.exec_ret_iff.mp hu
      omega
    · rw [if_neg herror] at hu
      rw [Bool.not_eq_true] at herror
      simpa [herror] using ih hu

theorem doRwLoop_only {fn : DiskFn} {P : BlockCall → Prop}
    (hfn : ∀ off len a, P (fn mediaId off len a)) (buf : List Iovec) (off : BitVec 64) :
    (doRwLoop mediaId fn buf off).Only P := by
  induction buf generalizing off with
  | nil => trivial
  | cons v rest ih =>
    refine Prog.only_ask_bind.mpr ⟨hfn _ _ _, fun status => ?_⟩
    split
    · trivial
    · exact ih _

theorem Served.of_doRw (x : Served mediaId) (fn : DiskFn)
    (hprog : uefiBlkRequest mediaId x.req =
      doRw mediaId fn x.req >>= fun err => pure (blkStatus err))
    (hfn : ∀ off len a, fn mediaId off len a ≠ .flushBlocks) :
    x.Truthful ∧ ∀ e ∈ x.trace, e.1 ≠ .flushBlocks := by
  have hexec := x.exec
  rw [hprog] at hexec
  obtain ⟨u, v, err, ht, hu, hv⟩ := Prog.exec_bind_iff.mp hexec
  obtain ⟨rfl, hstatus⟩ := Prog.exec_ret_iff.mp hv
  rw [List.append_nil] at ht
  rw [Served.Truthful, ht]
  constructor
  · intro hok
    refine doRwLoop_exec hu ?_
    by_contra herr
    rw [hok, blkStatus, if_pos (by omega)] at hstatus
    cases hstatus
  · exact (doRwLoop_only (P := (· ≠ .flushBlocks)) hfn _ _).exec hu

theorem Served.of_flush {x : Served mediaId} (hflush : x.req.flushes) :
    x.status = .ok ∧ ∃ status, x.trace = [⟨.flushBlocks, status⟩] := by
  have hprog : uefiBlkRequest mediaId x.req =
      Prog.ask BlockCall.flushBlocks >>= fun _ => pure (blkStatus 0) := by
    rcases hflush with h | h <;> simp only [uefiBlkRequest, h]
  have hexec := x.exec
  rw [hprog] at hexec
  obtain ⟨status, u, ht, hu⟩ := Prog.exec_ask_bind_iff.mp hexec
  obtain ⟨rfl, hstatus⟩ := Prog.exec_ret_iff.mp hu
  exact ⟨hstatus, status, ht⟩

theorem Served.truthful_iff (x : Served mediaId) :
    x.Truthful ↔ ∀ e ∈ x.trace, e.1 = .flushBlocks → e.2.isError = false := by
  cases htype : x.req.type with
  | read =>
    obtain ⟨htrue, hnone⟩ := x.of_doRw .readDisk (by simp only [uefiBlkRequest, htype])
      (fun _ _ _ => BlockCall.noConfusion)
    exact ⟨fun _ e he hcall => absurd hcall (hnone e he), fun _ => htrue⟩
  | write =>
    obtain ⟨htrue, hnone⟩ := x.of_doRw .writeDisk (by simp only [uefiBlkRequest, htype])
      (fun _ _ _ => BlockCall.noConfusion)
    exact ⟨fun _ e he hcall => absurd hcall (hnone e he), fun _ => htrue⟩
  | flush =>
    obtain ⟨hok, status, ht⟩ := x.of_flush (.inl htype)
    simp [Served.Truthful, hok, ht]
  | flushOut =>
    obtain ⟨hok, status, ht⟩ := x.of_flush (.inr htype)
    simp [Served.Truthful, hok, ht]
  | other =>
    have hexec := x.exec
    simp only [uefiBlkRequest, htype] at hexec
    obtain ⟨ht, -⟩ := Prog.exec_ret_iff.mp hexec
    simp [Served.Truthful, ht]

theorem durable_of_truthful {stream : List (Served mediaId)} (h : ∀ x ∈ stream, x.Truthful) :
    Durable stream := by
  rintro before x after y later rfl - - hflush hok
  obtain ⟨-, status, ht⟩ := y.of_flush hflush
  have htrue := h y (by simp) hok
  rw [ht] at htrue
  refine ⟨y, by simp, ⟨.flushBlocks, status⟩, by simp [ht], rfl, htrue _ (by simp)⟩

/-- The answers of a stream of requests are truthful when no flush of the device fails. -/
theorem status_truthful_iff (stream : List (Served mediaId)) :
    ((∀ x ∈ stream, x.Truthful) ∧ Durable stream) ↔
      ∀ x ∈ stream, ∀ e ∈ x.trace, e.1 = .flushBlocks → e.2.isError = false := by
  constructor
  · intro h x hx
    exact x.truthful_iff.mp (h.1 x hx)
  · intro h
    have htrue : ∀ x ∈ stream, x.Truthful := fun x hx => x.truthful_iff.mpr (h x hx)
    exact ⟨htrue, durable_of_truthful htrue⟩

/-- A write is answered OK, and so is a flush although the device reports an error. -/
def failedFlush : List (Served 0) :=
  [⟨⟨.write, 0, [⟨0, 1⟩]⟩, [⟨.writeDisk 0 0 1 0, .success⟩], .ok, .call (.ret _)⟩,
    ⟨⟨.flush, 0, []⟩, [⟨.flushBlocks, .deviceError⟩], .ok, .call (.ret _)⟩]

theorem status_truthful_flushBlocks :
    ¬(∀ x ∈ failedFlush, x.Truthful) ∧ ¬Durable failedFlush := by
  constructor
  · intro h
    have hflush := h _ (List.mem_cons_of_mem _ List.mem_cons_self) rfl ⟨.flushBlocks, .deviceError⟩
      List.mem_cons_self
    cases hflush
  · intro h
    obtain ⟨z, hz, e, he, -, herror⟩ := h [] _ [] _ [] rfl rfl rfl (.inl rfl) rfl
    obtain rfl := List.mem_singleton.mp hz
    obtain rfl := List.mem_singleton.mp he
    cases herror

end Status

end UefiLkl
