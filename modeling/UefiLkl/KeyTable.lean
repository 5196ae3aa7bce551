import Mathlib.Data.Nat.Bitwise
import UefiLkl.Lib.FlatMemory
import UefiLkl.StartAccount
set_option autoImplicit false

/-!
The key of an encrypted volume on its way into the table of dm-crypt: in hexadecimal, in
the string of parameters, and in the buffer that is handed to the kernel.
-/

namespace UefiLkl
open Interaction FlatMemory

def DM_CRYPT_BUF_SIZE : Nat := 4096

/-- What `load_crypto_mapping_table` reads and writes: the key in its pool, the array
`master_key_ascii`, and `buffer`. -/
inductive KeyArea where
  | masterKey | masterKeyAscii | buffer
  deriving DecidableEq, Repr

structure KeyAccess where
  area : KeyArea
  off : Nat
  deriving DecidableEq, Repr

/-- The pool was allocated with the size of the key. -/
def KeyAccess.InBounds (keysize : Nat) (x : KeyAccess) : Prop :=
  match x.area with
  | .masterKey => x.off < keysize
  | .masterKeyAscii => x.off < 129
  | .buffer => x.off < DM_CRYPT_BUF_SIZE

instance (keysize : Nat) (x : KeyAccess) : Decidable (x.InBounds keysize) := by
  unfold KeyAccess.InBounds
  split <;> infer_instance

/-- The array `master_key_ascii`, and what has been accessed. -/
structure AsciiKey where
  ascii : Nat → UInt8
  accesses : List KeyAccess

def AsciiKey.digit (s : AsciiKey) (masterKey : Nat → UInt8) (half : UInt8 → UInt8)
    (i a : BitVec 32) : AsciiKey where
  ascii := Function.update s.ascii a.toNat (keyNibble (half (masterKey i.toNat)).toNat)
  accesses := s.accesses ++ [⟨.masterKey, i.toNat⟩, ⟨.masterKeyAscii, a.toNat⟩]

def highHalf (b : UInt8) : UInt8 := (b >>> 4) &&& 0xf
def lowHalf (b : UInt8) : UInt8 := b &&& 0xf

def convertKeyLoop (masterKey : Nat → UInt8) : Nat → BitVec 32 → BitVec 32 → AsciiKey →
    BitVec 32 × AsciiKey
  | 0, _, a, s => (a, s)
  | n+1, i, a, s =>
    convertKeyLoop masterKey n (i + 1) (a + 2)
      ((s.digit masterKey highHalf i a).digit masterKey lowHalf i (a + 1))

/-- `convert_key_to_hex_ascii` with its array. -/
def convertKeyInto (masterKey : Nat → UInt8) (keysize : Nat) (s : AsciiKey) : AsciiKey :=
  let (a, s) := convertKeyLoop masterKey keysize 0 0 s
  ⟨Function.update s.ascii a.toNat 0, s.accesses ++ [⟨.masterKeyAscii, a.toNat⟩]⟩

def keyByte (key : Bytes) (i : Nat) : UInt8 := (key[i]?).getD 0

/-- What is accessed before a table is loaded: the key is converted, and the parameters with
their terminator are printed behind the two headers. -/
def loadAccesses (key : Bytes) (keysize : Nat) (target : DmTarget) : List KeyAccess :=
  (convertKeyInto (keyByte key) keysize ⟨fun _ => 0, []⟩).accesses ++
    (List.range (target.params.length + 1)).map fun i =>
      ⟨.buffer, dmIoctlSize + dmTargetSpecSize + i⟩

/-- Whenever a table is loaded, all was accessed inside its area, and the padded end of the
parameters is in the buffer. -/
def KeyMaterialFits (key : Bytes) (keysize : Nat) (t : List (Event DriverCall DriverCall.Ans)) :
    Prop :=
  ∀ fd name target rc, ⟨.dmTableLoad fd name target, rc⟩ ∈ t →
    (∀ x ∈ loadAccesses key keysize target, x.InBounds keysize) ∧ target.next ≤ DM_CRYPT_BUF_SIZE

section Hex

variable {masterKey : Nat → UInt8}

def hexPair (b : UInt8) : Bytes := [keyNibble (highHalf b).toNat, keyNibble (lowHalf b).toNat]

theorem convertKeyToHexAscii_eq (key : Bytes) (keysize : Nat) :
    convertKeyToHexAscii key keysize = (key.take keysize).flatMap hexPair := rfl

def hexFrom (masterKey : Nat → UInt8) (j n : Nat) : Bytes :=
  (List.range' j n).flatMap fun i => hexPair (masterKey i)

def accessesFrom (j n : Nat) : List KeyAccess :=
  (List.range' j n).flatMap fun i => [⟨.masterKey, i⟩, ⟨.masterKeyAscii, 2 * i⟩,
    ⟨.masterKey, i⟩, ⟨.masterKeyAscii, 2 * i + 1⟩]

theorem toNat_add_of_lt {a b : BitVec 32} {m n : Nat} (ha : a.toNat = m) (hb : b.toNat = n)
    (h : m + n < 2 ^ 32) : (a + b).toNat = m + n := by
  rw [BitVec.toNat_add, ha, hb]
  exact Nat.mod_eq_of_lt h

theorem AsciiKey.two_digits (s : AsciiKey) {i a : BitVec 32} {j : Nat} (hi : i.toNat = j)
    (ha : a.toNat = 2 * j) (hj : j < 2 ^ 30) :
    (s.digit masterKey highHalf i a).digit masterKey lowHalf i (a + 1) =
      ⟨store s.ascii (2 * j) (hexPair (masterKey j)), s.accesses ++ accessesFrom j 1⟩ := by
  have hnext : (a + 1).toNat = 2 * j + 1 := toNat_add_of_lt ha rfl (by omega)
  simp only [digit, hi, ha, hnext, store, hexPair, accessesFrom, List.range'_one,
    List.flatMap_cons, List.flatMap_nil, List.append_nil, List.append_assoc, List.cons_append,
    List.nil_append]

theorem convertKeyLoop_eq (masterKey : Nat → UInt8) {n j : Nat} {i a : BitVec 32}
    (hi : i.toNat = j) (ha : a.toNat = 2 * j) (hn : j + n < 2 ^ 30) (s : AsciiKey) :
    ∃ a', a'.toNat = 2 * (j + n) ∧ convertKeyLoop masterKey n i a s =
      (a', ⟨store s.ascii (2 * j) (hexFrom masterKey j n), s.accesses ++ accessesFrom j n⟩) := by
  induction n generalizing i a j s with
  | zero => exact ⟨a, ha, by simp [convertKeyLoop, hexFrom, accessesFrom]⟩
  | succ n ih =>
    have hi' : (i + 1).toNat = j + 1 := toNat_add_of_lt hi rfl (by omega)
    have ha' : (a + 2).toNat = 2 * j + 2 := toNat_add_of_lt ha rfl (by omega)
    rw [convertKeyLoop, s.two_digits hi ha (by omega)]
    obtain ⟨a', hend, hloop⟩ := ih hi' ha' (by omega)
      ⟨store s.ascii (2 * j) (hexPair (masterKey j)), s.accesses ++ accessesFrom j 1⟩
    refine ⟨a', by omega, ?_⟩
    have hdigits : hexFrom masterKey j (n + 1) =
        hexPair (masterKey j) ++ hexFrom masterKey (j + 1) n := by
      simp [hexFrom, List.range'_succ]
    have haccesses : accessesFrom j (n + 1) = accessesFrom j 1 ++ accessesFrom (j + 1) n := by
      simp [accessesFrom, List.range'_succ]
    rw [hloop, hdigits, haccesses, store_append, List.append_assoc]
    rfl

theorem convertKeyLoop_add (m n : Nat) (i a : BitVec 32) (s : AsciiKey) :
    convertKeyLoop masterKey (m + n) i a s =
      convertKeyLoop masterKey n (i + BitVec.ofNat 32 m) (convertKeyLoop masterKey m i a s).1
        (convertKeyLoop masterKey m i a s).2 := by
  induction m generalizing i a s with
  | zero => simp [convertKeyLoop]
  | succ m ih =>
    rw [Nat.succ_add, convertKeyLoop, ih, convertKeyLoop]
    congr 1
    rw [BitVec.add_assoc, BitVec.add_comm 1, ← BitVec.ofNat_add_ofNat]
    rfl

theorem mem_convertKeyLoop {x : KeyAccess} (n : Nat) (i a : BitVec 32) {s : AsciiKey}
    (h : x ∈ s.accesses) : x ∈ (convertKeyLoop masterKey n i a s).2.accesses := by
  induction n generalizing i a s with
  | zero => exact h
  | succ n ih => exact ih _ _ (by simp [AsciiKey.digit, h])

theorem hexFrom_zero {key : Bytes} {keysize : Nat} (hkey : keysize ≤ key.length) :
    hexFrom (keyByte key) 0 keysize = convertKeyToHexAscii key keysize := by
  have hbytes : (List.range' 0 keysize).map (keyByte key) = key.take keysize := by
    refine List.ext_getElem (by simp [hkey]) fun i hi hi' => ?_
    have hlt : i < key.length := by
      simp only [List.length_take] at hi'
      omega
    simp [keyByte, hlt]
  rw [convertKeyToHexAscii_eq, ← hbytes, List.flatMap_map]
  rfl

theorem length_convertKeyToHexAscii {key : Bytes} {keysize : Nat} (hkey : keysize ≤ key.length) :
    (convertKeyToHexAscii key keysize).length = 2 * keysize := by
  rw [convertKeyToHexAscii_eq]
  simp [hexPair, List.length_flatMap, hkey, Nat.mul_comm]

theorem length_convertKeyToHexAscii_le (key : Bytes) (keysize : Nat) :
    (convertKeyToHexAscii key keysize).length ≤ 2 * keysize := by
  rw [convertKeyToHexAscii_eq]
  simp only [List.length_flatMap, hexPair, List.length_cons, List.length_nil, List.map_const',
    List.sum_replicate_nat, List.length_take]
  omega

theorem convertKeyInto_of_lt {keysize : Nat} (hsize : keysize < 2 ^ 30) (s : AsciiKey) :
    convertKeyInto masterKey keysize s =
      ⟨Function.update (store s.ascii 0 (hexFrom masterKey 0 keysize)) (2 * keysize) 0,
        s.accesses ++ accessesFrom 0 keysize ++ [⟨.masterKeyAscii, 2 * keysize⟩]⟩ := by
  obtain ⟨a, ha, hloop⟩ := convertKeyLoop_eq masterKey (i := 0) (a := 0) (j := 0)
    rfl rfl (n := keysize) (by omega) s
  rw [Nat.zero_add] at ha
  rw [convertKeyInto, hloop]
  simp only [ha, Nat.mul_zero]

/-- What is written is the text that the parameters are built of. -/
theorem convertKeyInto_eq {key : Bytes} {keysize : Nat} (hkey : keysize ≤ key.length)
    (hsize : keysize < 2 ^ 30) (s : AsciiKey) :
    load (convertKeyInto (keyByte key) keysize s).ascii 0 (2 * keysize) =
        convertKeyToHexAscii key keysize ∧
      (convertKeyInto (keyByte key) keysize s).ascii (2 * keysize) = 0 := by
  rw [convertKeyInto_of_lt hsize, hexFrom_zero hkey]
  have hbelow : ∀ x, 0 ≤ x → x < 0 + 2 * keysize →
      Function.update (store s.ascii 0 (convertKeyToHexAscii key keysize)) (2 * keysize) 0 x =
        store s.ascii 0 (convertKeyToHexAscii key keysize) x := fun x _ hx =>
    Function.update_of_ne (by omega) _ _
  refine ⟨?_, Function.update_self _ _ _⟩
  rw [load_congr hbelow, load_store_same (length_convertKeyToHexAscii hkey)]

theorem convertKeyInto_inBounds_iff (masterKey : Nat → UInt8) (keysize : Nat) :
    (∀ x ∈ (convertKeyInto masterKey keysize ⟨fun _ => 0, []⟩).accesses, x.InBounds keysize) ↔
      keysize ≤ 64 := by
  constructor
  · intro h
    by_contra hlarge
    -- iteration 64 writes its second digit behind the array
    obtain ⟨n, rfl⟩ : ∃ n, keysize = 65 + n := ⟨keysize - 65, by omega⟩
    have hwrite : (⟨.masterKeyAscii, 129⟩ : KeyAccess) ∈
        (convertKeyInto masterKey (65 + n) ⟨fun _ => 0, []⟩).accesses := by
      obtain ⟨a, ha, hloop⟩ := convertKeyLoop_eq masterKey (i := 0) (a := 0)
        (j := 0) rfl rfl (n := 65) (by omega) ⟨fun _ => 0, []⟩
      simp only [convertKeyInto, convertKeyLoop_add, hloop]
      refine List.mem_append_left _ (mem_convertKeyLoop _ _ _ ?_)
      change _ ∈ accessesFrom 0 65
      decide
    exact absurd (h _ hwrite) (by simp [KeyAccess.InBounds])
  · intro hsize x hx
    rw [convertKeyInto_of_lt (by omega)] at hx
    simp only [accessesFrom, List.nil_append, List.mem_append, List.mem_flatMap,
      List.mem_range'_1, List.mem_cons, List.not_mem_nil, or_false] at hx
    rcases hx with ⟨i, hi, rfl | rfl | rfl | rfl⟩ | rfl
    all_goals
      simp only [KeyAccess.InBounds]
      omega

end Hex

/-- A call that is made to mount an encrypted volume; a table that is loaded satisfies `P`. -/
def DriverCall.Prepares (P : DmTarget → Prop) : DriverCall → Prop
  | .dmTableLoad _ _ target => P target
  | .getVirtioBlkdev _ _ | .sysOpen _ _ _ | .sysClose _ | .sysLseek _ _ | .sysRead _ _
  | .sysMknod _ _ _ | .sysMkdir _ _ | .sysMount _ _ _ _ | .blkGetSize _ | .dmDevCreate _ _
  | .dmDevStatus _ _ | .dmDevSuspend _ _ => True
  | _ => False

section Fits

variable {P : DmTarget → Prop}

theorem tableLoadLoop_prepares {fd : Int} {name : Bytes} {target : DmTarget} (h : P target)
    (tries i : Nat) : (tableLoadLoop fd name target tries i).Only (DriverCall.Prepares P) := by
  induction tries generalizing i with
  | zero => trivial
  | succ tries ih =>
    refine Prog.only_ask_bind.mpr ⟨h, fun rc => ?_⟩
    split
    · trivial
    · exact ih _

theorem createCryptoBlkDevOpen_prepares {buffer : Nat} {ftr : CryptMntFtr}
    {masterKey realBlkName name : Bytes} {fd : Int}
    (h : P (cryptTarget buffer ftr masterKey realBlkName [])) :
    (createCryptoBlkDevOpen buffer ftr masterKey realBlkName name fd).Only
      (DriverCall.Prepares P) := by
  refine Prog.only_ask_bind.mpr ⟨trivial, fun (rc : Int) => ?_⟩
  split
  · trivial
  refine Prog.only_ask_bind.mpr ⟨trivial, fun ⟨rc, dev⟩ => ?_⟩
  dsimp only
  split
  · trivial
  refine Prog.only_ask_bind.mpr ⟨trivial, fun (retval : Int) => ?_⟩
  split
  · trivial
  refine (tableLoadLoop_prepares h _ _).bind fun loadCount => ?_
  split
  · trivial
  refine Prog.only_ask_bind.mpr ⟨trivial, fun (rc : Int) => ?_⟩
  split <;> trivial

theorem cryptfsSetupExtVolume_prepares {buffer keysize : Nat} {label realBlkdev key : Bytes}
    (h : ∀ nrSec, P (cryptTarget buffer ⟨keysize, nrSec, asciiString "aes-cbc-essiv:sha256"⟩ key
      realBlkdev [])) :
    (cryptfsSetupExtVolume buffer label realBlkdev key keysize).Only (DriverCall.Prepares P) := by
  refine Prog.only_ask_bind.mpr ⟨trivial, fun (fd : Int) => ?_⟩
  split
  · trivial
  have hsize : (getBlkdevSize fd).Only (DriverCall.Prepares P) := by
    refine Prog.only_ask_bind.mpr ⟨trivial, fun ⟨rc, nrSec⟩ => ?_⟩
    dsimp only
    split <;> trivial
  refine hsize.bind fun nrSec => ?_
  refine Prog.only_ask_bind.mpr ⟨trivial, fun _ => ?_⟩
  split
  · trivial
  refine Prog.only_ask_bind.mpr ⟨trivial, fun (fd : Int) => ?_⟩
  refine Prog.Only.bind ?_ fun r => Prog.only_ask_bind.mpr ⟨trivial, fun _ => trivial⟩
  split
  · trivial
  · exact createCryptoBlkDevOpen_prepares (h nrSec)

theorem getFsTypeLkl_prepares {path : Bytes} :
    (getFsTypeLkl path).Only (DriverCall.Prepares P) := by
  refine Prog.only_ask_bind.mpr ⟨trivial, fun (fd : Int) => ?_⟩
  by_cases hfd : fd < 0
  · rw [if_pos hfd]
    trivial
  rw [if_neg hfd]
  refine (probeLoop_only (fun offset => ?_) _).bind fun found => ?_
  · refine Prog.only_ask_bind.mpr ⟨trivial, fun (rc : Int) => ?_⟩
    by_cases hrc : rc < 0
    · rw [if_pos hrc]
      trivial
    · rw [if_neg hrc]
      refine Prog.only_ask_bind.mpr ⟨trivial, fun x => ?_⟩
      cases x with
      | error s => trivial
      | ok block => trivial
  · refine Prog.only_ask_bind.mpr ⟨trivial, fun _ => ?_⟩
    cases found with
    | none => trivial
    | some name => trivial

theorem mountEncrypted_prepares {buffer keyFileSize : Nat} {v : VolumeRecord} {keyData : Bytes}
    (h : ∀ nrSec devId, P (cryptTarget buffer
      ⟨word keyFileSize, nrSec, asciiString "aes-cbc-essiv:sha256"⟩ keyData (blkDevice devId) [])) :
    (mountEncrypted buffer v keyData keyFileSize).Only (DriverCall.Prepares P) := by
  refine Prog.only_ask_bind.mpr ⟨trivial, fun ⟨rc, devId⟩ => ?_⟩
  dsimp only
  split
  · trivial
  refine Prog.only_ask_bind.mpr ⟨trivial, fun (rc : Int) => ?_⟩
  split
  · trivial
  refine (cryptfsSetupExtVolume_prepares fun nrSec => h nrSec devId).bind fun ⟨rc, decrypted⟩ => ?_
  dsimp only
  split
  · trivial
  refine getFsTypeLkl_prepares.bind fun found => ?_
  cases found with
  | error s => trivial
  | ok fsType =>
    refine Prog.Only.bind ?_ fun status => ?_
    · refine Prog.only_ask_bind.mpr ⟨trivial, fun (rc : Int) => ?_⟩
      split <;> trivial
    · split
      · trivial
      · refine Prog.only_ask_bind.mpr ⟨trivial, fun (rc : Int) => ?_⟩
        split <;> trivial

theorem length_hexDigits (width n : Nat) : (hexDigits width n).length = width := by
  induction width generalizing n with
  | zero => rfl
  | succ width ih => simp [hexDigits, ih]

theorem length_cryptTarget_params (buffer : Nat) (ftr : CryptMntFtr) (key path : Bytes) :
    (cryptTarget buffer ftr key path []).params.length = ftr.cryptoTypeName.length +
      (convertKeyToHexAscii key ftr.keysize).length + path.length + 7 := by
  have hzero : (asciiString " 0 ").length = 3 := by decide
  simp only [cryptTarget, List.length_append, List.length_cons, List.length_nil]
  omega

theorem cryptTarget_next_le (buffer : Nat) (ftr : CryptMntFtr) (key path : Bytes) :
    (cryptTarget buffer ftr key path []).next ≤ dmIoctlSize + dmTargetSpecSize +
      (cryptTarget buffer ftr key path []).params.length + 8 := by
  simp only [cryptTarget]
  omega

theorem cryptTarget_fits (buffer nrSec devId : Nat) (key : Bytes) {keysize : Nat}
    (hsize : keysize ≤ 64) :
    dmIoctlSize + dmTargetSpecSize + (cryptTarget buffer
      ⟨keysize, nrSec, asciiString "aes-cbc-essiv:sha256"⟩ key (blkDevice devId) []).params.length +
      8 ≤ DM_CRYPT_BUF_SIZE := by
  have hhex := length_convertKeyToHexAscii_le key keysize
  have hcipher : (asciiString "aes-cbc-essiv:sha256").length = 20 := by decide
  have hdev : (blkDevice devId).length = 13 := by
    rw [blkDevice, List.length_append, length_hexDigits]
    rfl
  rw [length_cryptTarget_params]
  simp only [dmIoctlSize, dmTargetSpecSize, DM_CRYPT_BUF_SIZE, hcipher, hdev]
  omega

theorem mountEncrypted_loads (buffer : Nat) (v : VolumeRecord) (keyData : Bytes)
    (keyFileSize : Nat) :
    ∃ t r fd name target rc, (mountEncrypted buffer v keyData keyFileSize).Exec t r ∧
      ⟨.dmTableLoad fd name target, rc⟩ ∈ t := by
  refine ⟨_, _, 0, dmName (cryptFSName 0), cryptTarget buffer
    ⟨word keyFileSize, 2048, asciiString "aes-cbc-essiv:sha256"⟩ keyData (blkDevice 0) [],
    (0 : Int), Prog.exec_trace (cryptKernel 0) _ (), ?_⟩
  -- the tenth call
  exact .tail _ (.tail _ (.tail _ (.tail _ (.tail _ (.tail _ (.tail _ (.tail _ (.tail _
    (.head _)))))))))

/-- A key of any size is used; it fits as long as it has no more than 64 bytes. -/
theorem keyMaterial_fits_iff (buffer : Nat) (v : VolumeRecord) (keyData : Bytes)
    (keyFileSize : Nat) :
    (∀ t r, (mountEncrypted buffer v keyData keyFileSize).Exec t r →
      KeyMaterialFits keyData (word keyFileSize) t) ↔ word keyFileSize ≤ 64 := by
  constructor
  · intro h
    obtain ⟨t, r, fd, name, target, rc, hexec, hload⟩ :=
      mountEncrypted_loads buffer v keyData keyFileSize
    obtain ⟨hbounds, -⟩ := h t r hexec fd name target rc hload
    refine (convertKeyInto_inBounds_iff (keyByte keyData) _).mp fun x hx => ?_
    exact hbounds x (List.mem_append_left _ hx)
  · intro hsize t r hexec fd name target rc hload
    obtain ⟨nrSec, devId, rfl⟩ := (mountEncrypted_prepares (P := fun target => ∃ nrSec devId,
      target = cryptTarget buffer ⟨word keyFileSize, nrSec, asciiString "aes-cbc-essiv:sha256"⟩
        keyData (blkDevice devId) []) fun nrSec devId => ⟨nrSec, devId, rfl⟩).exec hexec _ hload
    have hfits := cryptTarget_fits buffer nrSec devId keyData hsize
    refine ⟨fun x hx => ?_, (cryptTarget_next_le _ _ _ _).trans hfits⟩
    rcases List.mem_append.mp hx with hx | hx
    · exact (convertKeyInto_inBounds_iff _ _).mpr hsize x hx
    · obtain ⟨i, hi, rfl⟩ := List.mem_map.mp hx
      have hlt := List.mem_range.mp hi
      simp only [KeyAccess.InBounds]
      omega

def longKeyVolume : VolumeRecord :=
  newVolume 1 0 false ⟨0, false⟩ (.encrypted 1 2 65 (List.replicate 65 0))

/-- Its second digit and the terminator are written behind the array. -/
theorem keyMaterial_sixtyFive_bytes :
    ∃ t r, (mountEncrypted 0 longKeyVolume (List.replicate 65 0) 65).Exec t r ∧
      ¬KeyMaterialFits (List.replicate 65 0) 65 t := by
  obtain ⟨t, r, fd, name, target, rc, hexec, hload⟩ :=
    mountEncrypted_loads 0 longKeyVolume (List.replicate 65 0) 65
  refine ⟨t, r, hexec, fun hfits => ?_⟩
  have hbounds := (hfits fd name target rc hload).1
  have hkey := (convertKeyInto_inBounds_iff (keyByte (List.replicate 65 0)) 65).mp fun x hx =>
    hbounds x (List.mem_append_left _ hx)
  exact absurd hkey (by decide)

end Fits

def fields (s : Bytes) : List Bytes := (s.splitOn blank).filter (· ≠ [])

def hexValue (c : UInt8) : Option UInt8 :=
  if 0x30 ≤ c ∧ c ≤ 0x39 then some (c - 0x30)
  else if 0x41 ≤ c ∧ c ≤ 0x46 then some (c - 0x37)
  else if 0x61 ≤ c ∧ c ≤ 0x66 then some (c - 0x57)
  else none

def decodeHex : Bytes → Option Bytes
  | [] => some []
  | [_] => none
  | a :: b :: rest => do
    let high ← hexValue a
    let low ← hexValue b
    let bytes ← decodeHex rest
    pure ((high * 16 + low) :: bytes)

/-- Where the parameters end, their terminator included. -/
def DmTarget.paramsEnd (target : DmTarget) : Nat :=
  dmIoctlSize + dmTargetSpecSize + target.params.length + 1

/-- The fields are those of a mapping of the whole device, and the next target would stand at the
first multiple of eight behind them. -/
structure DmTarget.WellFormed (target : DmTarget) (cipher key path : Bytes) : Prop where
  fields : ∃ hex, fields target.params = [cipher, hex, asciiString "0", path, asciiString "0"] ∧
    decodeHex hex = some key
  aligned : 8 ∣ target.next
  behind : target.paramsEnd ≤ target.next
  least : ∀ off, 8 ∣ off → target.paramsEnd ≤ off → target.next ≤ off
  inside : target.next ≤ DM_CRYPT_BUF_SIZE

section Fields

theorem fields_cons {c : Bytes} (h : blank ∉ c) (s : Bytes) :
    fields (c ++ blank :: s) = (if c = [] then [] else [c]) ++ fields s := by
  rw [fields, List.splitOn_append_cons_self_of_not_mem h]
  by_cases hc : c = []
  · simp [hc, fields]
  · simp [hc, fields]

theorem hexValue_keyNibble : ∀ n < 16, hexValue (keyNibble n) = some n.toUInt8 := by
  decide

theorem highHalf_toNat (b : UInt8) : (highHalf b).toNat = b.toNat / 16 := by
  have hlt := b.toNat_lt
  have hmask := Nat.and_two_pow_sub_one_eq_mod (b.toNat >>> 4) 4
  simp only [highHalf, UInt8.toNat_and, UInt8.toNat_shiftRight]
  change b.toNat >>> 4 &&& 15 = _
  rw [hmask, Nat.shiftRight_eq_div_pow]
  omega

theorem lowHalf_toNat (b : UInt8) : (lowHalf b).toNat = b.toNat % 16 := by
  simp only [lowHalf, UInt8.toNat_and]
  exact Nat.and_two_pow_sub_one_eq_mod b.toNat 4

theorem decodeHex_hexPair (b : UInt8) (s : Bytes) :
    decodeHex (hexPair b ++ s) = (decodeHex s).map (b :: ·) := by
  have hlt := b.toNat_lt
  have hhigh := hexValue_keyNibble (highHalf b).toNat (by rw [highHalf_toNat]; omega)
  have hlow := hexValue_keyNibble (lowHalf b).toNat (by rw [lowHalf_toNat]; omega)
  have hbyte : (highHalf b).toNat.toUInt8 * 16 + (lowHalf b).toNat.toUInt8 = b := by
    rw [highHalf_toNat, lowHalf_toNat, ← UInt8.toNat_inj]
    simp only [UInt8.toNat_add, UInt8.toNat_mul, Nat.toUInt8, UInt8.toNat_ofNat']
    change (b.toNat / 16 % 256 * 16 % 256 + b.toNat % 16 % 256) % 256 = b.toNat
    omega
  simp only [hexPair, List.cons_append, List.nil_append, decodeHex, hhigh, hlow]
  cases decodeHex s with
  | none => rfl
  | some bytes => exact congrArg (fun b => some (b :: bytes)) hbyte

theorem decodeHex_convertKeyToHexAscii {key : Bytes} {keysize : Nat} (h : key.length = keysize) :
    decodeHex (convertKeyToHexAscii key keysize) = some key := by
  rw [convertKeyToHexAscii_eq, ← h, List.take_length]
  induction key generalizing keysize with
  | nil => rfl
  | cons b key ih =>
    rw [List.flatMap_cons, decodeHex_hexPair, ih rfl]
    rfl

theorem blank_not_mem_convertKeyToHexAscii (key : Bytes) (keysize : Nat) :
    blank ∉ convertKeyToHexAscii key keysize := by
  have hdigit : ∀ n < 16, keyNibble n ≠ blank := by decide
  rw [convertKeyToHexAscii_eq]
  intro hmem
  obtain ⟨b, -, hb⟩ := List.mem_flatMap.mp hmem
  have hlt := b.toNat_lt
  simp only [hexPair, List.mem_cons, List.not_mem_nil, or_false] at hb
  rcases hb with hb | hb
  · exact hdigit _ (by rw [highHalf_toNat]; omega) hb.symm
  · exact hdigit _ (by rw [lowHalf_toNat]; omega) hb.symm

theorem fields_of_not_mem {c : Bytes} (h : blank ∉ c) : fields c = if c = [] then [] else [c] := by
  rw [fields, List.splitOn_eq_singleton h]
  by_cases hc : c = []
  · simp [hc]
  · simp [hc]

theorem fields_cryptTarget (buffer : Nat) (key : Bytes) {ftr : CryptMntFtr} {path : Bytes}
    (hcipher : blank ∉ ftr.cryptoTypeName) (hne : ftr.cryptoTypeName ≠ []) (hpath : blank ∉ path) :
    fields (cryptTarget buffer ftr key path []).params = [ftr.cryptoTypeName] ++
      (if convertKeyToHexAscii key ftr.keysize = [] then []
        else [convertKeyToHexAscii key ftr.keysize]) ++ [asciiString "0"] ++
      (if path = [] then [] else [path]) ++ [asciiString "0"] := by
  have hparams : (cryptTarget buffer ftr key path []).params = ftr.cryptoTypeName ++ blank ::
      (convertKeyToHexAscii key ftr.keysize ++ blank :: (asciiString "0" ++ blank ::
        (path ++ blank :: (asciiString "0" ++ blank :: [])))) := by
    have hzero : asciiString " 0 " = blank :: asciiString "0" ++ [blank] := by decide
    simp [cryptTarget, hzero]
  have hzero : blank ∉ asciiString "0" := by decide
  have hzero' : asciiString "0" ≠ [] := by decide
  rw [hparams, fields_cons hcipher, fields_cons (blank_not_mem_convertKeyToHexAscii _ _),
    fields_cons hzero, fields_cons hpath, fields_cons hzero, fields_of_not_mem (by simp),
    if_neg hne, if_neg hzero']
  simp

theorem and_eight (n : Nat) : n &&& 8 = 8 * (n / 8 % 2) := by
  have hbit := Nat.and_two_pow n 3
  rw [Nat.toNat_testBit] at hbit
  change n &&& 8 = _ at hbit
  omega

theorem convertKeyToHexAscii_eq_nil {key : Bytes} {keysize : Nat} (h : key.length = keysize) :
    convertKeyToHexAscii key keysize = [] ↔ key = [] := by
  rw [← List.length_eq_zero_iff, length_convertKeyToHexAscii h.ge, ← h, ← List.length_eq_zero_iff]
  omega

theorem cryptTarget_next (buffer : Nat) (ftr : CryptMntFtr) (key path : Bytes) :
    (cryptTarget buffer ftr key path []).next =
      buffer + (cryptTarget buffer ftr key path []).paramsEnd + 7 -
        8 * ((buffer + (cryptTarget buffer ftr key path []).paramsEnd + 7) / 8 % 2) - buffer := by
  rw [← and_eight]
  simp only [cryptTarget, DmTarget.paramsEnd, ← Nat.add_assoc]

/-- Only the bit of eight is cleared, so the end is right when it is nine behind a multiple of
sixteen; and an empty field is none. -/
theorem cryptTarget_wellFormed_iff {buffer : Nat} {ftr : CryptMntFtr} {key path : Bytes}
    (hkey : key.length = ftr.keysize) (hcipher : blank ∉ ftr.cryptoTypeName)
    (hne : ftr.cryptoTypeName ≠ []) (hpath : blank ∉ path) (hbuffer : 8 ∣ buffer)
    (hfits : (cryptTarget buffer ftr key path []).paramsEnd ≤ DM_CRYPT_BUF_SIZE) :
    (cryptTarget buffer ftr key path []).WellFormed ftr.cryptoTypeName key path ↔
      key ≠ [] ∧ path ≠ [] ∧
        (buffer + (ftr.cryptoTypeName.length + 2 * key.length + path.length)) % 16 = 1 := by
  have hfields := fields_cryptTarget buffer key hcipher hne hpath
  have hnext := cryptTarget_next buffer ftr key path
  have hend : (cryptTarget buffer ftr key path []).paramsEnd =
      360 + (ftr.cryptoTypeName.length + 2 * key.length + path.length) := by
    rw [DmTarget.paramsEnd, length_cryptTarget_params, length_convertKeyToHexAscii hkey.ge, ← hkey]
    simp only [dmIoctlSize, dmTargetSpecSize]
    omega
  simp only [convertKeyToHexAscii_eq_nil hkey] at hfields
  obtain ⟨m, rfl⟩ := hbuffer
  generalize hpad : (cryptTarget (8 * m) ftr key path []).paramsEnd = last at *
  generalize ftr.cryptoTypeName.length + 2 * key.length + path.length = len at *
  constructor
  · intro h
    obtain ⟨hex, hsplit, -⟩ := h.fields
    have hcount := congrArg List.length (hfields.symm.trans hsplit)
    simp only [List.length_append, List.length_cons, List.length_nil] at hcount
    have hkey' : key ≠ [] := by
      rintro rfl
      simp only [if_true, List.length_nil] at hcount
      split at hcount <;> simp at hcount
    have hpath' : path ≠ [] := by
      rintro rfl
      simp only [if_true, List.length_nil] at hcount
      split at hcount <;> simp at hcount
    obtain ⟨n, haligned⟩ := h.aligned
    have hbehind := h.behind
    rw [hpad] at hbehind
    exact ⟨hkey', hpath', by omega⟩
  · rintro ⟨hkey', hpath', hlen⟩
    rw [if_neg hkey', if_neg hpath'] at hfields
    have hzero : (8 * m + last + 7) / 8 % 2 = 0 := by omega
    have hnext' : (cryptTarget (8 * m) ftr key path []).next = last + 7 := by
      rw [hnext, hzero]
      omega
    rw [← hpad] at hend hfits
    refine ⟨⟨_, hfields, decodeHex_convertKeyToHexAscii hkey⟩, ?_, ?_, fun off hoff hle => ?_, ?_⟩
    · rw [hnext']
      omega
    · rw [hnext', hpad]
      omega
    · rw [hpad] at hle
      omega
    · rw [hnext']
      simp only [DM_CRYPT_BUF_SIZE] at hfits ⊢
      omega

def usualFtr : CryptMntFtr := ⟨16, 2048, asciiString "aes-cbc-essiv:sha256"⟩

theorem cryptTarget_wellFormed_usual :
    (cryptTarget 0 usualFtr (List.replicate 16 0xa5) (blkDevice 0) []).WellFormed
      (asciiString "aes-cbc-essiv:sha256") (List.replicate 16 0xa5) (blkDevice 0) := by
  have hkey : (List.replicate 16 (0xa5 : UInt8)).length = usualFtr.keysize := rfl
  exact (cryptTarget_wellFormed_iff hkey (by decide) (by decide) (by decide) (by decide)
    (by decide)).mpr ⟨by decide, by decide, by decide⟩

/-- With a key of one byte the next target would stand at an offset that is no multiple of eight. -/
theorem cryptTarget_misaligned_one_byte :
    (cryptTarget 0 { usualFtr with keysize := 1 } [0xa5] (blkDevice 0) []).next = 402 ∧
      ¬(cryptTarget 0 { usualFtr with keysize := 1 } [0xa5] (blkDevice 0) []).WellFormed
        (asciiString "aes-cbc-essiv:sha256") [0xa5] (blkDevice 0) := by
  have hnext :
      (cryptTarget 0 { usualFtr with keysize := 1 } [0xa5] (blkDevice 0) []).next = 402 := by
    decide
  refine ⟨hnext, fun h => ?_⟩
  have haligned := h.aligned
  rw [hnext] at haligned
  exact absurd haligned (by decide)

end Fields

end UefiLkl
