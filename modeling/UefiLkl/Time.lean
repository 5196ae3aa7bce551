import UefiLkl.Lib.Calendar
import Mathlib.Data.BitVec
set_option autoImplicit false

/-!
The calendar: `EFI_TIME` and seconds since 1970. A `UINTN` has `w` bits, and all
arithmetic on it wraps.
-/

namespace UefiLkl
open Calendar

structure EfiTime where
  year : UInt16
  month : UInt8
  day : UInt8
  hour : UInt8
  minute : UInt8
  second : UInt8
  pad1 : UInt8
  nanosecond : UInt32
  timeZone : Int16
  daylight : UInt8
  pad2 : UInt8
  deriving DecidableEq, Repr

/-- `ZeroMem (&ZeroTime, sizeof (EFI_TIME))` -/
def zeroTime : EfiTime := ⟨0, 0, 0, 0, 0, 0, 0, 0, 0, 0, 0⟩

/-- The fields that are not written keep what `time` has. -/
def epochToEfiTime (w : Nat) (epochSeconds : BitVec w) (time : EfiTime) : EfiTime :=
  let J := epochSeconds / 86400#w + 2440588#w
  let j := J + 32044#w
  let g := j / 146097#w
  let dg := j % 146097#w
  let c := (dg / 36524#w + 1#w) * 3#w / 4#w
  let dc := dg - c * 36524#w
  let b := dc / 1461#w
  let db := dc % 1461#w
  let a := (db / 365#w + 1#w) * 3#w / 4#w
  let da := db - a * 365#w
  let y := g * 400#w + c * 100#w + b * 4#w + a
  let m := (da * 5#w + 308#w) / 153#w - 2#w
  let d := da - (m + 4#w) * 153#w / 5#w + 122#w
  let ss := epochSeconds % 60#w
  let a := (epochSeconds - ss) / 60#w
  let mm := a % 60#w
  let b := (a - mm) / 60#w
  let hh := b % 24#w
  { time with
    year := (y - 4800#w + (m + 2#w) / 12#w).toNat.toUInt16
    month := ((m + 2#w) % 12#w + 1#w).toNat.toUInt8
    day := (d + 1#w).toNat.toUInt8
    hour := hh.toNat.toUInt8
    minute := mm.toNat.toUInt8
    second := ss.toNat.toUInt8
    nanosecond := 0 }

/-- The variable `JulianDate` of `EfiTimeToEpoch`. -/
def julianDate (w : Nat) (t : EfiTime) : BitVec w :=
  let month := BitVec.ofNat w t.month.toNat
  let a := BitVec.ofInt w ((14 - (t.month.toNat : Int)).tdiv 12)
  let y := BitVec.ofNat w t.year.toNat + 4800#w - a
  let m := month + 12#w * a - 3#w
  BitVec.ofNat w t.day.toNat + (153#w * m + 2#w) / 5#w + 365#w * y + y / 4#w -
    y / 100#w + y / 400#w - 32045#w

/-- The variable `EpochDays`. -/
def epochDays (w : Nat) (t : EfiTime) : BitVec w := julianDate w t - 2440588#w

/-- `ASSERT (JulianDate >= EPOCH_JULIAN_DATE)` -/
def epochAsserted (w : Nat) (t : EfiTime) : Bool := 2440588#w ≤ julianDate w t

def efiTimeToEpoch (w : Nat) (t : EfiTime) : BitVec w :=
  epochDays w t * 86400#w + BitVec.ofNat w t.hour.toNat * 3600#w +
    BitVec.ofNat w t.minute.toNat * 60#w + BitVec.ofNat w t.second.toNat

def isLeapYear (t : EfiTime) : Bool :=
  if t.year % 4 = 0 then
    if t.year % 100 = 0 then t.year % 400 = 0 else true
  else false

def dayOfMonth : List Nat := [31, 29, 31, 30, 31, 30, 31, 31, 30, 31, 30, 31]

def dayValid (t : EfiTime) : Bool :=
  !(t.day < 1 || t.day.toNat > dayOfMonth.getD (t.month.toNat - 1) 0 ||
    (t.month = 2 && (!isLeapYear t && t.day > 28)))

def EFI_UNSPECIFIED_TIMEZONE : Int16 := 0x07FF

def efiTimeIsValid (t : EfiTime) : Bool :=
  !(t.year < 1900 || t.year > 9999 || t.month < 1 || t.month > 12 || !dayValid t ||
    t.hour > 23 || t.minute > 59 || t.second > 59 || t.nanosecond > 999999999 ||
    !(t.timeZone = EFI_UNSPECIFIED_TIMEZONE || (t.timeZone ≥ -1440 && t.timeZone ≤ 1440)) ||
    t.daylight &&& ~~~3 ≠ 0)

example : epochToEfiTime 32 951827696#32 zeroTime = ⟨2000, 2, 29, 12, 34, 56, 0, 0, 0, 0, 0⟩ := by
  decide

section Exact

variable {w : Nat} {x y : BitVec w} {a b : Nat}

theorem toNat_lit (hw : 32 ≤ w) {n : Nat} (h : n < 2 ^ 32) : (BitVec.ofNat w n).toNat = n := by
  rw [BitVec.toNat_ofNat]
  exact Nat.mod_eq_of_lt (h.trans_le (Nat.pow_le_pow_right Nat.two_pos hw))

theorem toNat_add_eq (hx : x.toNat = a) (hy : y.toNat = b) (h : a + b < 2 ^ w) :
    (x + y).toNat = a + b := by
  subst hx hy
  exact BitVec.toNat_add_of_lt h

theorem toNat_mul_eq (hx : x.toNat = a) (hy : y.toNat = b) (h : a * b < 2 ^ w) :
    (x * y).toNat = a * b := by
  subst hx hy
  exact BitVec.toNat_mul_of_lt h

theorem toNat_sub_eq (hx : x.toNat = a) (hy : y.toNat = b) (h : b ≤ a) :
    (x - y).toNat = a - b := by
  subst hx hy
  exact BitVec.toNat_sub_of_le (BitVec.le_def.mpr h)

theorem toNat_div_eq (hx : x.toNat = a) (hy : y.toNat = b) : (x / y).toNat = a / b := by
  rw [BitVec.toNat_udiv, hx, hy]

theorem toNat_mod_eq (hx : x.toNat = a) (hy : y.toNat = b) : (x % y).toNat = a % b := by
  rw [BitVec.toNat_umod, hx, hy]

end Exact

/-- The first of January 1970, counted from the first of March of the year -4800. -/
def epochDay : Nat := 2472632

def EfiTime.march (t : EfiTime) : MarchDate :=
  let a := if t.month.toNat ≤ 2 then 1 else 0
  ⟨t.year.toNat + 4800 - a, t.month.toNat + 12 * a - 3, t.day.toNat - 1⟩

theorem yearOf_ge {n : Nat} (h : epochDay ≤ n) : 4800 ≤ (yearOf n).1 := by
  have hle := yearOf_day_le n
  have hstart := yearStart_yearOf n
  unfold yearStart at hstart
  unfold epochDay at h
  omega

theorem epochToEfiTime_eq {w : Nat} (hw : 32 ≤ w) (s : BitVec w) (time : EfiTime) :
    let date := MarchDate.ofDays (s.toNat / 86400 + epochDay)
    epochToEfiTime w s time =
      { time with
        year := (date.year - 4800 + (date.month + 2) / 12).toUInt16
        month := ((date.month + 2) % 12 + 1).toUInt8
        day := (date.day + 1).toUInt8
        hour := (s.toNat / 3600 % 24).toUInt8
        minute := (s.toNat / 60 % 60).toUInt8
        second := (s.toNat % 60).toUInt8
        nanosecond := 0 } := by
  have hM : 2 ^ 32 ≤ 2 ^ w := Nat.pow_le_pow_right Nat.two_pos hw
  have hs := s.isLt
  have lit : ∀ {n : Nat}, n < 2 ^ 32 → (BitVec.ofNat w n).toNat = n := fun h => toNat_lit hw h
  have hday := toNat_div_eq (rfl : s.toNat = s.toNat) (lit (n := 86400) (by omega))
  have hJ := toNat_add_eq hday (lit (n := 2440588) (by omega)) (by omega)
  have hj := toNat_add_eq hJ (lit (n := 32044) (by omega)) (by omega)
  rw [Nat.add_assoc] at hj
  have hn : s.toNat / 86400 + epochDay < 2 ^ w := by
    unfold epochDay
    omega
  have hge := yearOf_ge (Nat.le_add_left epochDay (s.toNat / 86400))
  change _ = s.toNat / 86400 + epochDay at hj
  generalize s.toNat / 86400 + epochDay = n at hj hn hge ⊢
  -- the year and the day of the year
  have hg := toNat_div_eq hj (lit (n := 146097) (by omega))
  have hdg := toNat_mod_eq hj (lit (n := 146097) (by omega))
  have hq := toNat_div_eq hdg (lit (n := 36524) (by omega))
  have hq1 := toNat_add_eq hq (lit (n := 1) (by omega)) (by omega)
  have hq3 := toNat_mul_eq hq1 (lit (n := 3) (by omega)) (by omega)
  have hc := toNat_div_eq hq3 (lit (n := 4) (by omega))
  have hcd := toNat_mul_eq hc (lit (n := 36524) (by omega)) (by omega)
  have hdc := toNat_sub_eq hdg hcd (by omega)
  have hb := toNat_div_eq hdc (lit (n := 1461) (by omega))
  have hdb := toNat_mod_eq hdc (lit (n := 1461) (by omega))
  have hp := toNat_div_eq hdb (lit (n := 365) (by omega))
  have hp1 := toNat_add_eq hp (lit (n := 1) (by omega)) (by omega)
  have hp3 := toNat_mul_eq hp1 (lit (n := 3) (by omega)) (by omega)
  have ha := toNat_div_eq hp3 (lit (n := 4) (by omega))
  have had := toNat_mul_eq ha (lit (n := 365) (by omega)) (by omega)
  have hda := toNat_sub_eq hdb had (by omega)
  have hg400 := toNat_mul_eq hg (lit (n := 400) (by omega)) (by omega)
  have hc100 := toNat_mul_eq hc (lit (n := 100) (by omega)) (by omega)
  have hb4 := toNat_mul_eq hb (lit (n := 4) (by omega)) (by omega)
  have hgc := toNat_add_eq hg400 hc100 (by omega)
  have hgcb := toNat_add_eq hgc hb4 (by omega)
  have hy := toNat_add_eq hgcb ha (by omega)
  change _ = (yearOf n).1 at hy
  change _ = (yearOf n).2 at hda
  have hylt : (yearOf n).1 < 2 ^ w := hy ▸ BitVec.isLt _
  have hle := yearOf_day_le n
  -- the month and its day
  have hda5 := toNat_mul_eq hda (lit (n := 5) (by omega)) (by omega)
  have hda308 := toNat_add_eq hda5 (lit (n := 308) (by omega)) (by omega)
  have hm153 := toNat_div_eq hda308 (lit (n := 153) (by omega))
  have hm := toNat_sub_eq hm153 (lit (n := 2) (by omega)) (by omega)
  have hmb := month_bounds hle
  have hm4 := toNat_add_eq hm (lit (n := 4) (by omega)) (by omega)
  have hm4' := toNat_mul_eq hm4 (lit (n := 153) (by omega)) (by omega)
  have hms := toNat_div_eq hm4' (lit (n := 5) (by omega))
  have hms122 := toNat_sub_eq hms (lit (n := 122) (by omega)) (by omega)
  have hmonth : (((yearOf n).2 * 5 + 308) / 153 - 2 + 4) * 153 / 5 - 122 =
      monthStart (((yearOf n).2 * 5 + 308) / 153 - 2) := by
    unfold monthStart
    omega
  rw [hmonth] at hms122
  have hd := toNat_sub_eq hda hms122 hmb.2.1
  rw [← sub_add] at hd
  have hd1 := toNat_add_eq hd (lit (n := 1) (by omega)) (by omega)
  have hm2 := toNat_add_eq hm (lit (n := 2) (by omega)) (by omega)
  have hm12 := toNat_mod_eq hm2 (lit (n := 12) (by omega))
  have hmon := toNat_add_eq hm12 (lit (n := 1) (by omega)) (by omega)
  have hcarry := toNat_div_eq hm2 (lit (n := 12) (by omega))
  have hy4800 := toNat_sub_eq hy (lit (n := 4800) (by omega)) hge
  have hyear := toNat_add_eq hy4800 hcarry (by omega)
  -- the time of day
  have hss := toNat_mod_eq (rfl : s.toNat = s.toNat) (lit (n := 60) (by omega))
  have hrest := toNat_sub_eq (rfl : s.toNat = s.toNat) hss (by omega)
  have hmin := toNat_div_eq hrest (lit (n := 60) (by omega))
  have hmm := toNat_mod_eq hmin (lit (n := 60) (by omega))
  have hhrest := toNat_sub_eq hmin hmm (by omega)
  have hhour := toNat_div_eq hhrest (lit (n := 60) (by omega))
  have hhh := toNat_mod_eq hhour (lit (n := 24) (by omega))
  have hminute : (s.toNat - s.toNat % 60) / 60 % 60 = s.toNat / 60 % 60 := by omega
  have hhours : ((s.toNat - s.toNat % 60) / 60 - (s.toNat - s.toNat % 60) / 60 % 60) / 60 % 24 =
      s.toNat / 3600 % 24 := by omega
  rw [hminute] at hmm
  rw [hhours] at hhh
  unfold epochToEfiTime
  dsimp only
  rw [hyear, hmon, hd1, hhh, hmm, hss]
  rfl

def EfiTime.secondOfDay (t : EfiTime) : Nat :=
  t.hour.toNat * 3600 + t.minute.toNat * 60 + t.second.toNat

/-- Seconds since 1970, for a time that is not before. -/
def EfiTime.epoch (t : EfiTime) : Nat := (t.march.days - epochDay) * 86400 + t.secondOfDay

theorem julianDate_eq {w : Nat} (hw : 32 ≤ w) (t : EfiTime) (hlo : 1 ≤ t.month.toNat)
    (hhi : t.month.toNat ≤ 12) (hday : 1 ≤ t.day.toNat) :
    (julianDate w t).toNat = t.march.days - 32044 := by
  have hM : 2 ^ 32 ≤ 2 ^ w := Nat.pow_le_pow_right Nat.two_pos hw
  have lit : ∀ {n : Nat}, n < 2 ^ 32 → (BitVec.ofNat w n).toNat = n := fun h => toNat_lit hw h
  have hyear := t.year.toNat_lt
  have hdayl := t.day.toNat_lt
  -- January and February belong to the year before
  obtain ⟨a, hfeb, hat, ha⟩ : ∃ a, (t.month.toNat ≤ 2 ∧ a = 1 ∨ 2 < t.month.toNat ∧ a = 0) ∧
      (if t.month.toNat ≤ 2 then 1 else 0) = a ∧
      (BitVec.ofInt w ((14 - (t.month.toNat : Int)).tdiv 12)).toNat = a := by
    rw [Int.tdiv_eq_ediv_of_nonneg (by omega)]
    by_cases hfeb : t.month.toNat ≤ 2
    · refine ⟨1, .inl ⟨hfeb, rfl⟩, if_pos hfeb, ?_⟩
      rw [show (14 - (t.month.toNat : Int)) / 12 = (1 : Nat) by omega, BitVec.ofInt_natCast]
      exact lit (by omega)
    · refine ⟨0, .inr ⟨by omega, rfl⟩, if_neg hfeb, ?_⟩
      rw [show (14 - (t.month.toNat : Int)) / 12 = (0 : Nat) by omega, BitVec.ofInt_natCast]
      exact lit (by omega)
  have hmarch : t.march = ⟨t.year.toNat + 4800 - a, t.month.toNat + 12 * a - 3,
      t.day.toNat - 1⟩ := by
    unfold EfiTime.march
    rw [hat]
  rw [hmarch]
  unfold MarchDate.days
  dsimp only
  have hy4800 := toNat_add_eq (lit (show t.year.toNat < 2 ^ 32 by omega))
    (lit (n := 4800) (by omega)) (by omega)
  have hy := toNat_sub_eq hy4800 ha (by omega)
  have h12a := toNat_mul_eq (lit (n := 12) (by omega)) ha (by omega)
  have hm12 := toNat_add_eq (lit (show t.month.toNat < 2 ^ 32 by omega)) h12a (by omega)
  have hm := toNat_sub_eq hm12 (lit (n := 3) (by omega)) (by omega)
  have hylt : t.year.toNat + 4800 - a < 131072 := by omega
  have hyge : 4799 ≤ t.year.toNat + 4800 - a := by omega
  have hmlt : t.month.toNat + 12 * a - 3 ≤ 11 := by omega
  generalize t.year.toNat + 4800 - a = y at hy hylt hyge ⊢
  generalize t.month.toNat + 12 * a - 3 = m at hm hmlt ⊢
  unfold yearStart monthStart
  have hm153 := toNat_mul_eq (lit (n := 153) (by omega)) hm (by omega)
  have hm2 := toNat_add_eq hm153 (lit (n := 2) (by omega)) (by omega)
  have hms := toNat_div_eq hm2 (lit (n := 5) (by omega))
  have hy365 := toNat_mul_eq (lit (n := 365) (by omega)) hy (by omega)
  have hy4 := toNat_div_eq hy (lit (n := 4) (by omega))
  have hy100 := toNat_div_eq hy (lit (n := 100) (by omega))
  have hy400 := toNat_div_eq hy (lit (n := 400) (by omega))
  have h1 := toNat_add_eq (lit (show t.day.toNat < 2 ^ 32 by omega)) hms (by omega)
  have h2 := toNat_add_eq h1 hy365 (by omega)
  have h3 := toNat_add_eq h2 hy4 (by omega)
  have h4 := toNat_sub_eq h3 hy100 (by omega)
  have h5 := toNat_add_eq h4 hy400 (by omega)
  have h6 := toNat_sub_eq h5 (lit (n := 32045) (by omega)) (by omega)
  rw [julianDate, h6]
  omega

theorem epochDays_eq {w : Nat} (hw : 32 ≤ w) (t : EfiTime) (hlo : 1 ≤ t.month.toNat)
    (hhi : t.month.toNat ≤ 12) (hday : 1 ≤ t.day.toNat) (hpast : epochDay ≤ t.march.days) :
    (epochDays w t).toNat = t.march.days - epochDay := by
  have hjulian := julianDate_eq hw t hlo hhi hday
  unfold epochDay at hpast ⊢
  rw [epochDays, toNat_sub_eq hjulian (toNat_lit hw (n := 2440588) (by omega)) (by omega)]
  omega

theorem efiTimeToEpoch_eq {w : Nat} (hw : 32 ≤ w) (t : EfiTime) (hlo : 1 ≤ t.month.toNat)
    (hhi : t.month.toNat ≤ 12) (hday : 1 ≤ t.day.toNat) (hpast : epochDay ≤ t.march.days)
    (hfit : t.epoch < 2 ^ w) : (efiTimeToEpoch w t).toNat = t.epoch := by
  have hM : 2 ^ 32 ≤ 2 ^ w := Nat.pow_le_pow_right Nat.two_pos hw
  have lit : ∀ {n : Nat}, n < 2 ^ 32 → (BitVec.ofNat w n).toNat = n := fun h => toNat_lit hw h
  have hhour := t.hour.toNat_lt
  have hminute := t.minute.toNat_lt
  have hsecond := t.second.toNat_lt
  have hdays := epochDays_eq hw t hlo hhi hday hpast
  unfold EfiTime.epoch EfiTime.secondOfDay at hfit ⊢
  rw [← Nat.add_assoc, ← Nat.add_assoc] at hfit ⊢
  have hfit2 := (Nat.le_add_right _ _).trans_lt hfit
  have hfit1 := (Nat.le_add_right _ _).trans_lt hfit2
  have hfit0 := (Nat.le_add_right _ _).trans_lt hfit1
  have h1 := toNat_mul_eq hdays (lit (n := 86400) (by omega)) hfit0
  have h2 := toNat_mul_eq (lit (show t.hour.toNat < 2 ^ 32 by omega))
    (lit (n := 3600) (by omega)) ((Nat.le_add_left _ _).trans_lt hfit1)
  have h3 := toNat_mul_eq (lit (show t.minute.toNat < 2 ^ 32 by omega))
    (lit (n := 60) (by omega)) ((Nat.le_add_left _ _).trans_lt hfit2)
  have h4 := toNat_add_eq h1 h2 hfit1
  have h5 := toNat_add_eq h4 h3 hfit2
  have h6 := toNat_add_eq h5 (lit (show t.second.toNat < 2 ^ 32 by omega)) hfit
  rw [efiTimeToEpoch, h6]

theorem ofDays_day_lt (n : Nat) : (MarchDate.ofDays n).day < 31 := by
  have hm := month_bounds (yearOf_day_le n)
  unfold MarchDate.ofDays
  unfold monthStart at hm ⊢
  dsimp only
  omega

theorem ofDays_year_ge {n : Nat} (h : epochDay ≤ n) : 4800 ≤ (MarchDate.ofDays n).year :=
  yearOf_ge h

/-- The calendar year in which day number `n` falls. -/
def calendarYear (n : Nat) : Nat :=
  (MarchDate.ofDays n).year - 4800 + ((MarchDate.ofDays n).month + 2) / 12

theorem march_epochToEfiTime {w : Nat} (hw : 32 ≤ w) (s : BitVec w) (time : EfiTime)
    (hyear : calendarYear (s.toNat / 86400 + epochDay) < 65536) :
    (epochToEfiTime w s time).march = MarchDate.ofDays (s.toNat / 86400 + epochDay) := by
  have heq := epochToEfiTime_eq hw s time
  dsimp only at heq
  have hge := ofDays_year_ge (Nat.le_add_left epochDay (s.toNat / 86400))
  have hday := ofDays_day_lt (s.toNat / 86400 + epochDay)
  have hmonth := (MarchDate.valid_ofDays (s.toNat / 86400 + epochDay)).month
  unfold calendarYear at hyear
  rw [heq]
  generalize MarchDate.ofDays (s.toNat / 86400 + epochDay) = date at hyear hge hday hmonth ⊢
  obtain ⟨y, m, d⟩ := date
  dsimp only at hyear hge hday hmonth
  have hy : (y - 4800 + (m + 2) / 12).toUInt16.toNat = y - 4800 + (m + 2) / 12 :=
    UInt16.toNat_ofNat_of_lt' hyear
  have hm : ((m + 2) % 12 + 1).toUInt8.toNat = (m + 2) % 12 + 1 :=
    UInt8.toNat_ofNat_of_lt' (show _ < 256 by omega)
  have hd : (d + 1).toUInt8.toNat = d + 1 :=
    UInt8.toNat_ofNat_of_lt' (show _ < 256 by omega)
  unfold EfiTime.march
  dsimp only
  rw [hy, hm, hd]
  split
  · congr 1
    · omega
    · omega
  · congr 1
    · omega
    · omega

theorem secondOfDay_epochToEfiTime {w : Nat} (hw : 32 ≤ w) (s : BitVec w) (time : EfiTime) :
    (epochToEfiTime w s time).secondOfDay = s.toNat % 86400 := by
  have heq := epochToEfiTime_eq hw s time
  dsimp only at heq
  have hh : (s.toNat / 3600 % 24).toUInt8.toNat = s.toNat / 3600 % 24 :=
    UInt8.toNat_ofNat_of_lt' (show _ < 256 by omega)
  have hm : (s.toNat / 60 % 60).toUInt8.toNat = s.toNat / 60 % 60 :=
    UInt8.toNat_ofNat_of_lt' (show _ < 256 by omega)
  have hs : (s.toNat % 60).toUInt8.toNat = s.toNat % 60 :=
    UInt8.toNat_ofNat_of_lt' (show _ < 256 by omega)
  rw [heq]
  unfold EfiTime.secondOfDay
  dsimp only
  rw [hh, hm, hs]
  omega

theorem month_day_epochToEfiTime {w : Nat} (hw : 32 ≤ w) (s : BitVec w) (time : EfiTime) :
    let t := epochToEfiTime w s time
    1 ≤ t.month.toNat ∧ t.month.toNat ≤ 12 ∧ 1 ≤ t.day.toNat := by
  have heq := epochToEfiTime_eq hw s time
  dsimp only at heq
  have hday := ofDays_day_lt (s.toNat / 86400 + epochDay)
  have hm : (((MarchDate.ofDays (s.toNat / 86400 + epochDay)).month + 2) % 12 + 1).toUInt8.toNat =
      ((MarchDate.ofDays (s.toNat / 86400 + epochDay)).month + 2) % 12 + 1 :=
    UInt8.toNat_ofNat_of_lt' (show _ < 256 by omega)
  have hd : ((MarchDate.ofDays (s.toNat / 86400 + epochDay)).day + 1).toUInt8.toNat =
      (MarchDate.ofDays (s.toNat / 86400 + epochDay)).day + 1 :=
    UInt8.toNat_ofNat_of_lt' (show _ < 256 by omega)
  dsimp only
  rw [heq]
  dsimp only
  rw [hm, hd]
  omega

theorem efiTimeToEpoch_epochToEfiTime {w : Nat} (hw : 32 ≤ w) (s : BitVec w) (time : EfiTime)
    (hyear : calendarYear (s.toNat / 86400 + epochDay) < 65536) :
    efiTimeToEpoch w (epochToEfiTime w s time) = s := by
  obtain ⟨hlo, hhi, hday⟩ := month_day_epochToEfiTime hw s time
  have hdays : (epochToEfiTime w s time).march.days = s.toNat / 86400 + epochDay := by
    rw [march_epochToEfiTime hw s time hyear, MarchDate.days_ofDays]
  have hepoch : (epochToEfiTime w s time).epoch = s.toNat := by
    rw [EfiTime.epoch, hdays, secondOfDay_epochToEfiTime hw s time, Nat.add_sub_cancel]
    omega
  have hpast : epochDay ≤ (epochToEfiTime w s time).march.days :=
    hdays ▸ Nat.le_add_left _ _
  refine BitVec.eq_of_toNat_eq ?_
  rw [efiTimeToEpoch_eq hw _ hlo hhi hday hpast (hepoch ▸ s.isLt), hepoch]

/-- The ranges that a valid time keeps to. -/
structure EfiTime.InRange (t : EfiTime) : Prop where
  year : 1900 ≤ t.year.toNat ∧ t.year.toNat ≤ 9999
  month : 1 ≤ t.month.toNat ∧ t.month.toNat ≤ 12
  day : 1 ≤ t.day.toNat ∧ t.day.toNat ≤ dayOfMonth.getD (t.month.toNat - 1) 0
  february : t.month.toNat = 2 → t.day.toNat = 29 →
    t.year.toNat % 4 = 0 ∧ (t.year.toNat % 100 ≠ 0 ∨ t.year.toNat % 400 = 0)
  hour : t.hour.toNat < 24
  minute : t.minute.toNat < 60
  second : t.second.toNat < 60

theorem isLeapYear_iff (t : EfiTime) : isLeapYear t = true ↔
    t.year.toNat % 4 = 0 ∧ (t.year.toNat % 100 ≠ 0 ∨ t.year.toNat % 400 = 0) := by
  unfold isLeapYear
  simp only [← UInt16.toNat_inj, UInt16.toNat_mod, UInt16.reduceToNat]
  by_cases h4 : t.year.toNat % 4 = 0
  · by_cases h100 : t.year.toNat % 100 = 0
    · simp [h4, h100]
    · simp [h4, h100]
  · simp [h4]

theorem inRange_of_valid {t : EfiTime} (h : efiTimeIsValid t = true) : t.InRange := by
  simp only [efiTimeIsValid, dayValid, Bool.not_eq_true', Bool.or_eq_false_iff,
    Bool.not_eq_false', Bool.and_eq_false_iff, decide_eq_false_iff_not, UInt8.lt_iff_toNat_lt,
    UInt16.lt_iff_toNat_lt, gt_iff_lt, not_lt, UInt8.reduceToNat, UInt16.reduceToNat] at h
  obtain ⟨⟨⟨⟨⟨⟨⟨⟨⟨⟨hylo, hyhi⟩, hmlo⟩, hmhi⟩, hday⟩, hh⟩, hm⟩, hs⟩, -⟩, -⟩, -⟩ := h
  obtain ⟨⟨hdlo, hdhi⟩, hfeb⟩ := hday
  refine ⟨⟨hylo, hyhi⟩, ⟨hmlo, hmhi⟩, ⟨hdlo, hdhi⟩, ?_, by omega, by omega, by omega⟩
  intro hm2 hd29
  rw [← isLeapYear_iff]
  rcases hfeb with hfeb | hfeb | hfeb
  · exact absurd (UInt8.toNat_inj.mp hm2) hfeb
  · exact hfeb
  · omega

def marchMonth (month : Nat) : Nat := month + 12 * (if month ≤ 2 then 1 else 0) - 3

theorem dayOfMonth_fits : ∀ month < 13, 1 ≤ month →
    marchMonth month ≤ 11 ∧
    monthStart (marchMonth month) + dayOfMonth.getD (month - 1) 0 ≤
      monthStart (marchMonth month + 1) ∧
    monthStart (marchMonth month) + dayOfMonth.getD (month - 1) 0 ≤ 366 ∧
    (365 < monthStart (marchMonth month) + dayOfMonth.getD (month - 1) 0 →
      month = 2 ∧ dayOfMonth.getD (month - 1) 0 = 29) := by
  decide

theorem EfiTime.InRange.march {t : EfiTime} (h : t.InRange) : t.march.Valid := by
  obtain ⟨⟨hylo, hyhi⟩, ⟨hmlo, hmhi⟩, ⟨hdlo, hdhi⟩, hfeb, -, -, -⟩ := h
  obtain ⟨hm, hnext, hlast, hleap⟩ := dayOfMonth_fits t.month.toNat (by omega) hmlo
  have hmonth : t.march.month = marchMonth t.month.toNat := rfl
  have hday : t.march.day = t.day.toNat - 1 := rfl
  constructor
  · exact hm
  · rw [hmonth, hday]
    omega
  · rw [hmonth, hday]
    omega
  · rw [hmonth, hday]
    intro h365
    obtain ⟨hm2, h29⟩ := hleap (by omega)
    have := hfeb hm2 (by omega)
    unfold isLeap EfiTime.march
    rw [if_pos (by omega)]
    dsimp only
    omega

theorem EfiTime.InRange.past {t : EfiTime} (h : t.InRange) (hy : 1970 ≤ t.year.toNat) :
    epochDay ≤ t.march.days := by
  obtain ⟨-, ⟨hmlo, hmhi⟩, ⟨hdlo, -⟩, -, -, -, -⟩ := h
  unfold EfiTime.march MarchDate.days yearStart monthStart epochDay
  dsimp only
  split
  · by_cases hfirst : t.year.toNat = 1970
    · rw [hfirst]
      omega
    · omega
  · omega

theorem epochToEfiTime_efiTimeToEpoch {w : Nat} (hw : 32 ≤ w) (t time : EfiTime)
    (h : t.InRange) (hy : 1970 ≤ t.year.toNat) (hfit : t.epoch < 2 ^ w) :
    epochToEfiTime w (efiTimeToEpoch w t) time =
      { time with
        year := t.year
        month := t.month
        day := t.day
        hour := t.hour
        minute := t.minute
        second := t.second
        nanosecond := 0 } := by
  have hpast := h.past hy
  have hs := efiTimeToEpoch_eq hw t h.month.1 h.month.2 h.day.1 hpast hfit
  have hsod : t.secondOfDay < 86400 := by
    have := h.hour
    have := h.minute
    have := h.second
    unfold EfiTime.secondOfDay
    omega
  have hdays : t.epoch / 86400 + epochDay = t.march.days := by
    unfold EfiTime.epoch
    omega
  have hrest : t.epoch % 86400 = t.secondOfDay := by
    unfold EfiTime.epoch
    omega
  have heq := epochToEfiTime_eq hw (efiTimeToEpoch w t) time
  dsimp only at heq
  rw [heq, hs, hdays, MarchDate.ofDays_days h.march]
  have hhour : t.epoch / 3600 % 24 = t.hour.toNat := by
    have := h.minute
    have := h.second
    unfold EfiTime.secondOfDay at hsod hrest
    omega
  have hminute : t.epoch / 60 % 60 = t.minute.toNat := by
    have := h.second
    unfold EfiTime.secondOfDay at hsod hrest
    omega
  have hsecond : t.epoch % 60 = t.second.toNat := by
    have := h.second
    unfold EfiTime.secondOfDay at hsod hrest
    omega
  obtain ⟨-, ⟨hmlo, hmhi⟩, ⟨hdlo, -⟩, -, -, -, -⟩ := h
  have hdate : t.march.year - 4800 + (t.march.month + 2) / 12 = t.year.toNat ∧
      (t.march.month + 2) % 12 + 1 = t.month.toNat ∧ t.march.day + 1 = t.day.toNat := by
    unfold EfiTime.march
    dsimp only
    split <;> omega
  rw [hhour, hminute, hsecond, hdate.1, hdate.2.1, hdate.2.2]
  simp

theorem day_le_dayOfMonth : ∀ m < 12, ∀ d < 31,
    (monthStart m + d < monthStart (m + 1) ∧ monthStart m + d ≤ 365 →
      d + 1 ≤ dayOfMonth.getD ((m + 2) % 12 + 1 - 1) 0) ∧
    ((m + 2) % 12 + 1 = 2 ∧ d + 1 = 29 → m = 11 ∧ monthStart m + d = 365) := by
  decide

theorem calendarYear_le {s : Nat} (h : s < 2 ^ 32) :
    calendarYear (s / 86400 + epochDay) ≤ 2999 := by
  have hm := (MarchDate.valid_ofDays (s / 86400 + epochDay)).month
  have hdays := MarchDate.days_ofDays (s / 86400 + epochDay)
  unfold calendarYear
  generalize MarchDate.ofDays (s / 86400 + epochDay) = date at hm hdays ⊢
  unfold MarchDate.days yearStart epochDay at hdays
  omega

theorem calendarYear_past (n : Nat) : 1970 ≤ calendarYear (n + epochDay) := by
  have hvalid := MarchDate.valid_ofDays (n + epochDay)
  have hdays := MarchDate.days_ofDays (n + epochDay)
  have hm := hvalid.month
  have hd := hvalid.day
  have hlast := hvalid.last
  unfold calendarYear
  generalize MarchDate.ofDays (n + epochDay) = date at hdays hm hd hlast ⊢
  unfold MarchDate.days yearStart epochDay at hdays
  have hyear : 6769 ≤ date.year := by omega
  by_cases hfirst : date.year = 6769
  · have hmonth : 10 ≤ date.month := by
      rw [hfirst] at hdays
      unfold monthStart at hdays hd
      omega
    omega
  · omega

theorem inRange_epochToEfiTime {w : Nat} (hw : 32 ≤ w) (s : BitVec w) (time : EfiTime)
    (hyear : calendarYear (s.toNat / 86400 + epochDay) ≤ 9999) :
    (epochToEfiTime w s time).InRange := by
  have heq := epochToEfiTime_eq hw s time
  dsimp only at heq
  have hge := ofDays_year_ge (Nat.le_add_left epochDay (s.toNat / 86400))
  have hday := ofDays_day_lt (s.toNat / 86400 + epochDay)
  have hvalid := MarchDate.valid_ofDays (s.toNat / 86400 + epochDay)
  have hpast := calendarYear_past (s.toNat / 86400)
  rw [heq]
  unfold calendarYear at hyear hpast
  generalize MarchDate.ofDays (s.toNat / 86400 + epochDay) = date at hge hday hvalid hyear hpast ⊢
  obtain ⟨y, m, d⟩ := date
  obtain ⟨hmonth, hmday, hlast, hleap⟩ := hvalid
  dsimp only at hge hday hmonth hmday hlast hleap hyear hpast ⊢
  obtain ⟨hfits, hfeb⟩ := day_le_dayOfMonth m (by omega) d hday
  have hyt : (y - 4800 + (m + 2) / 12).toUInt16.toNat = y - 4800 + (m + 2) / 12 :=
    UInt16.toNat_ofNat_of_lt' (show _ < 65536 by omega)
  have hmt : ((m + 2) % 12 + 1).toUInt8.toNat = (m + 2) % 12 + 1 :=
    UInt8.toNat_ofNat_of_lt' (show _ < 256 by omega)
  have hdt : (d + 1).toUInt8.toNat = d + 1 := UInt8.toNat_ofNat_of_lt' (show _ < 256 by omega)
  have byte : ∀ {n : Nat}, n < 256 → n.toUInt8.toNat = n := fun h => UInt8.toNat_ofNat_of_lt' h
  constructor
  · rw [hyt]
    omega
  · rw [hmt]
    omega
  · rw [hmt, hdt]
    exact ⟨Nat.le_add_left 1 d, hfits ⟨hmday, hlast⟩⟩
  · rw [hmt, hdt, hyt]
    intro hm2 hd29
    obtain ⟨rfl, h365⟩ := hfeb ⟨hm2, hd29⟩
    have := hleap h365
    unfold isLeap at this
    omega
  · rw [byte (show s.toNat / 3600 % 24 < 256 by omega)]
    omega
  · rw [byte (show s.toNat / 60 % 60 < 256 by omega)]
    omega
  · rw [byte (show s.toNat % 60 < 256 by omega)]
    omega

theorem efiTimeIsValid_of_inRange {t : EfiTime} (h : t.InRange)
    (hnano : t.nanosecond = 0) (hzone : t.timeZone = 0) (hlight : t.daylight = 0) :
    efiTimeIsValid t = true := by
  obtain ⟨⟨hylo, hyhi⟩, ⟨hmlo, hmhi⟩, ⟨hdlo, hdhi⟩, hfeb, hh, hm, hs⟩ := h
  simp only [efiTimeIsValid, dayValid, Bool.not_eq_true', Bool.or_eq_false_iff,
    Bool.not_eq_false', Bool.and_eq_false_iff, decide_eq_false_iff_not, UInt8.lt_iff_toNat_lt,
    UInt16.lt_iff_toNat_lt, gt_iff_lt, not_lt, UInt8.reduceToNat, UInt16.reduceToNat]
  refine ⟨⟨⟨⟨⟨⟨⟨⟨⟨⟨hylo, hyhi⟩, hmlo⟩, hmhi⟩, ⟨hdlo, hdhi⟩, ?_⟩, ?_⟩, ?_⟩, ?_⟩, ?_⟩, ?_⟩, ?_⟩
  · by_cases hm2 : t.month = 2
    · by_cases hd29 : t.day.toNat = 29
      · exact .inr (.inl ((isLeapYear_iff t).mpr (hfeb (UInt8.toNat_inj.mpr hm2) hd29)))
      · have hmax : dayOfMonth.getD (t.month.toNat - 1) 0 = 29 := by
          rw [hm2]
          rfl
        exact .inr (.inr (by omega))
    · exact .inl hm2
  · omega
  · omega
  · omega
  · rw [hnano]
    decide
  · simp [hzone]
  · simp [hlight]

/-! What a time denotes by the civil calendar. -/

def EfiTime.date (t : EfiTime) : Date := ⟨t.year.toNat, t.month.toNat, t.day.toNat⟩

/-- Seconds since the first of January of the year zero. -/
def EfiTime.instant (t : EfiTime) : Nat := t.date.number * 86400 + t.secondOfDay

def unixEpoch : Nat := (Date.mk 1970 1 1).number * 86400

/-- A time that a calendar and a clock can show. -/
structure EfiTime.Civil (t : EfiTime) : Prop where
  date : t.date.Valid
  hour : t.hour.toNat < 24
  minute : t.minute.toNat < 60
  second : t.second.toNat < 60

/-- The parts of a time, the longest unit first. -/
def EfiTime.parts (t : EfiTime) : List Nat :=
  [t.year.toNat, t.month.toNat, t.day.toNat, t.hour.toNat, t.minute.toNat, t.second.toNat]

theorem EfiTime.Civil.secondOfDay_lt {t : EfiTime} (h : t.Civil) : t.secondOfDay < 86400 := by
  obtain ⟨-, hh, hm, hs⟩ := h
  unfold EfiTime.secondOfDay
  omega

theorem number_1970 : (Date.mk 1970 1 1).number = 719528 := by
  have h := Date.days_march (t := ⟨1970, 1, 1⟩) ⟨by decide, by decide⟩ (k := 1) Nat.one_pos
  simp [Date.march, MarchDate.days, yearStart, monthStart] at h
  omega

theorem unixEpoch_eq : unixEpoch = 62167219200 := by
  have h := congrArg (· * 86400) number_1970
  simp only [Nat.reduceMul] at h
  exact h

theorem EfiTime.Civil.days {t : EfiTime} (h : t.Civil) :
    t.march.days = t.date.number + 1753104 := by
  have hdays := Date.days_march h.date (k := 12) (by decide)
  change t.march.days + 60 = _ at hdays
  omega

theorem EfiTime.instant_lt {s t : EfiTime} (hs : s.Civil) (ht : t.Civil) (h : s.parts < t.parts) :
    s.instant < t.instant := by
  have hsod := hs.secondOfDay_lt
  have hdate : s.date.parts < t.date.parts ∨ s.date = t.date ∧ s.secondOfDay < t.secondOfDay := by
    have := hs.minute
    have := hs.second
    unfold secondOfDay
    simp only [parts, date, Date.parts, List.cons_lt_cons_iff, List.not_lt_nil, and_false, or_false,
      Date.mk.injEq] at h ⊢
    omega
  unfold instant
  rcases hdate with hlt | ⟨heq, hlt⟩
  · have := Date.number_lt hs.date ht.date hlt
    omega
  · rw [heq]
    omega

theorem EfiTime.parts_lt {s t : EfiTime} (hs : s.Civil) (ht : t.Civil)
    (h : s.instant < t.instant) : s.parts < t.parts := by
  rcases lt_trichotomy s.parts t.parts with hlt | heq | hgt
  · exact hlt
  · have hsame : s.instant = t.instant := by
      simp only [parts, List.cons.injEq] at heq
      simp only [instant, date, secondOfDay, heq]
    omega
  · have := instant_lt ht hs hgt
    omega

theorem ofDays_number {d : Date} (hd : d.Valid) {n : Nat}
    (hn : d.number = n + (Date.mk 1970 1 1).number) :
    MarchDate.ofDays (n + epochDay) = d.march 12 := by
  have hdays := Date.days_march hd (k := 12) (by decide)
  rw [number_1970] at hn
  rw [← MarchDate.ofDays_days (Date.valid_march hd (k := 12) (by decide))]
  congr 1
  unfold epochDay
  omega

theorem parts_march {d : Date} (hd : d.Valid) (hyear : 1 ≤ d.year) :
    (d.march 12).year - 4800 + ((d.march 12).month + 2) / 12 = d.year ∧
      ((d.march 12).month + 2) % 12 + 1 = d.month ∧ (d.march 12).day + 1 = d.day := by
  obtain ⟨y, m, day⟩ := d
  obtain ⟨⟨hlo, hhi⟩, hday, -⟩ := hd
  dsimp only at hlo hhi hday hyear
  unfold Date.march
  dsimp only
  refine ⟨?_, ?_, by omega⟩
  · split <;> omega
  · split <;> omega

/-- The instants whose year fits in 16 bits. -/
def yearFits (instant : Nat) : Prop := instant < (Date.mk 65536 1 1).number * 86400

theorem exists_date {n : Nat} (hfits : yearFits (unixEpoch + n)) :
    ∃ d : Date, d.Valid ∧ d.number = n / 86400 + (Date.mk 1970 1 1).number ∧ d.year < 65536 ∧
      1 ≤ d.year := by
  obtain ⟨d, hd, hn⟩ := Date.exists_number (n / 86400 + (Date.mk 1970 1 1).number)
  refine ⟨d, hd, hn, ?_, ?_⟩
  · by_contra hge
    have hle := yearsBefore_mono (show 65536 ≤ d.year by omega)
    have hfirst := Date.number_newYear 65536
    unfold yearFits unixEpoch at hfits
    rw [Date.number] at hn
    omega
  · by_contra hzero
    have hlt := hd.lt_year
    rw [show d.year + 1 = 1 by omega, show yearsBefore 1 = 366 by rfl, hn, number_1970] at hlt
    omega

theorem calendarYear_lt {n : Nat} (hfits : yearFits (unixEpoch + n)) :
    calendarYear (n / 86400 + epochDay) < 65536 := by
  obtain ⟨d, hd, hn, hyear, hpast⟩ := exists_date hfits
  rw [calendarYear, ofDays_number hd hn, (parts_march hd hpast).1]
  exact hyear

theorem civil_epochToEfiTime {w : Nat} (hw : 32 ≤ w) (s : BitVec w) (time : EfiTime)
    (hfits : yearFits (unixEpoch + s.toNat)) :
    (epochToEfiTime w s time).Civil ∧
      (epochToEfiTime w s time).instant = unixEpoch + s.toNat := by
  obtain ⟨d, hd, hn, hyear, hpast⟩ := exists_date hfits
  obtain ⟨hy, hm, hday⟩ := parts_march hd hpast
  have heq := epochToEfiTime_eq hw s time
  have hclock := secondOfDay_epochToEfiTime hw s time
  have byte : ∀ {n : Nat}, n < 256 → n.toUInt8.toNat = n := fun h => UInt8.toNat_ofNat_of_lt' h
  have hdate : (epochToEfiTime w s time).date = d := by
    have hmonth := hd.month.2
    have hlast := hd.day.2.trans (monthLength_le _ _)
    rw [heq, ofDays_number hd hn, hy, hm, hday]
    unfold EfiTime.date
    dsimp only
    rw [byte (show d.month < 256 by omega), byte (show d.day < 256 by omega),
      show d.year.toUInt16.toNat = d.year from UInt16.toNat_ofNat_of_lt' hyear]
  refine ⟨⟨hdate ▸ hd, ?_, ?_, ?_⟩, ?_⟩
  · rw [heq, byte (show s.toNat / 3600 % 24 < 256 by omega)]
    omega
  · rw [heq, byte (show s.toNat / 60 % 60 < 256 by omega)]
    omega
  · rw [heq, byte (show s.toNat % 60 < 256 by omega)]
    omega
  · unfold EfiTime.instant unixEpoch
    rw [hdate, hclock, hn]
    omega

theorem day_le_monthLength : ∀ m < 13, 1 ≤ m → ∀ y d, d ≤ dayOfMonth.getD (m - 1) 0 →
    (m = 2 → d = 29 → leapYear y = true) → d ≤ monthLength y m := by
  intro m hm hlo y d hd hfeb
  have hcase : m = 2 ∨ monthLength y m = dayOfMonth.getD (m - 1) 0 := by
    interval_cases m <;> simp [monthLength, dayOfMonth]
  rcases hcase with rfl | heq
  · change d ≤ 29 at hd
    change d ≤ if leapYear y then 29 else 28
    by_cases h29 : d = 29
    · rw [if_pos (hfeb rfl h29)]
      omega
    · split <;> omega
  · omega

theorem EfiTime.InRange.civil {t : EfiTime} (h : t.InRange) : t.Civil := by
  obtain ⟨-, ⟨hmlo, hmhi⟩, ⟨hdlo, hdhi⟩, hfeb, hh, hm, hs⟩ := h
  refine ⟨⟨⟨hmlo, hmhi⟩, hdlo, ?_⟩, hh, hm, hs⟩
  exact day_le_monthLength _ (show t.month.toNat < 13 by omega) hmlo _ _ hdhi
    fun h2 h29 => (leapYear_iff _).mpr (hfeb h2 h29)

theorem EfiTime.InRange.instant {t : EfiTime} (h : t.InRange) (hy : 1970 ≤ t.year.toNat) :
    t.instant = unixEpoch + t.epoch := by
  have hdays := h.civil.days
  have hpast := h.past hy
  unfold EfiTime.instant unixEpoch EfiTime.epoch
  rw [number_1970]
  unfold epochDay at hpast ⊢
  omega

/-- What `EpochToEfiTime` writes is the civil date and time of the instant, the later instant has
the larger parts, and the two conversions are inverse to each other. -/
theorem calendar_conversion {w : Nat} (hw : 32 ≤ w) :
    (∀ (s : BitVec w) (time : EfiTime), yearFits (unixEpoch + s.toNat) →
      (epochToEfiTime w s time).Civil ∧
      (epochToEfiTime w s time).instant = unixEpoch + s.toNat ∧
      efiTimeToEpoch w (epochToEfiTime w s time) = s) ∧
    (∀ (s s' : BitVec w) (time time' : EfiTime), yearFits (unixEpoch + s.toNat) →
      yearFits (unixEpoch + s'.toNat) → s < s' →
      (epochToEfiTime w s time).parts < (epochToEfiTime w s' time').parts) ∧
    ∀ t time : EfiTime, efiTimeIsValid t = true → 1970 ≤ t.year.toNat →
      t.instant < unixEpoch + 2 ^ w →
      (epochToEfiTime w (efiTimeToEpoch w t) time).parts = t.parts := by
  refine ⟨fun s time hfits => ?_, fun s s' time time' hfits hfits' hlt => ?_,
    fun t time hvalid hy hfit => ?_⟩
  · obtain ⟨hcivil, hinstant⟩ := civil_epochToEfiTime hw s time hfits
    exact ⟨hcivil, hinstant, efiTimeToEpoch_epochToEfiTime hw s time (calendarYear_lt hfits)⟩
  · obtain ⟨hcivil, hinstant⟩ := civil_epochToEfiTime hw s time hfits
    obtain ⟨hcivil', hinstant'⟩ := civil_epochToEfiTime hw s' time' hfits'
    have hnat : s.toNat < s'.toNat := hlt
    exact EfiTime.parts_lt hcivil hcivil' (by omega)
  · have hrange := inRange_of_valid hvalid
    rw [hrange.instant hy] at hfit
    rw [epochToEfiTime_efiTimeToEpoch hw t time hrange hy (by omega)]
    rfl

theorem calendar_conversion_leapDay :
    yearFits (unixEpoch + (951827696#32).toNat) ∧
      (epochToEfiTime 32 951827696#32 zeroTime).parts = [2000, 2, 29, 12, 34, 56] ∧
      (epochToEfiTime 32 951827696#32 zeroTime).instant =
        unixEpoch + (951827696#32).toNat := by
  have hfits : yearFits (unixEpoch + (951827696#32).toNat) := by
    have hfirst := yearsBefore_eq 65535
    simp only [yearStart, Nat.reduceAdd, Nat.reduceMul, Nat.reduceDiv, Nat.reduceSub] at hfirst
    unfold yearFits unixEpoch
    rw [number_1970, Date.number_newYear, hfirst]
    norm_num
  exact ⟨hfits, by decide, ((calendar_conversion le_rfl).1 951827696#32 zeroTime hfits).2.1⟩

/-- The variables `y`, `m`, `JulianDate`, `EpochDays` and `EpochSeconds` of `EfiTimeToEpoch`,
with the products and sums in between, as integers of any size. -/
def epochSteps (t : EfiTime) : List Int :=
  let month : Int := t.month.toNat
  let a := (14 - month).tdiv 12
  let y := t.year.toNat + 4800 - a
  let m := month + 12 * a - 3
  let julianDate := t.day.toNat + (153 * m + 2) / 5 + 365 * y + y / 4 - y / 100 + y / 400 - 32045
  let epochDays := julianDate - 2440588
  let seconds := epochDays * 86400
  [y, m, julianDate, epochDays, seconds, seconds + t.hour.toNat * 3600,
    seconds + t.hour.toNat * 3600 + t.minute.toNat * 60,
    seconds + t.hour.toNat * 3600 + t.minute.toNat * 60 + t.second.toNat]

/-- Nothing overflows and nothing underflows. -/
def EpochFits (w : Nat) (t : EfiTime) : Prop := ∀ x ∈ epochSteps t, 0 ≤ x ∧ x < 2 ^ w

/-- The local time is this many seconds behind the universal time. -/
def EfiTime.offset (t : EfiTime) : Int :=
  if t.timeZone = EFI_UNSPECIFIED_TIMEZONE then 0 else t.timeZone.toInt * 60

/-- Seconds from 1970-01-01 00:00:00 UTC to the instant that `t` denotes. -/
def EfiTime.utc (t : EfiTime) : Int := t.instant + t.offset - unixEpoch

section Limits

variable {t : EfiTime}

theorem EfiTime.InRange.steps (h : t.InRange) :
    ∃ y m : Int, 0 ≤ y ∧ y < 2 ^ 32 ∧ 0 ≤ m ∧ m < 2 ^ 32 ∧
      epochSteps t = [y, m, t.date.number + 1721060, t.date.number - 719528,
        (t.date.number - 719528) * 86400, (t.date.number - 719528) * 86400 + t.hour.toNat * 3600,
        (t.date.number - 719528) * 86400 + t.hour.toNat * 3600 + t.minute.toNat * 60,
        (t.date.number - 719528) * 86400 + t.hour.toNat * 3600 + t.minute.toNat * 60 +
          t.second.toNat] := by
  have hdays := h.civil.days
  have hyear := t.year.toNat_lt
  obtain ⟨hmlo, hmhi⟩ := h.month
  obtain ⟨hdlo, -⟩ := h.day
  obtain ⟨y, m, hy, hm, hjulian⟩ : ∃ y m : Nat,
      (t.year.toNat : Int) + 4800 - (14 - (t.month.toNat : Int)).tdiv 12 = y ∧
      (t.month.toNat : Int) + 12 * (14 - (t.month.toNat : Int)).tdiv 12 - 3 = m ∧
      t.march.days = yearStart y + monthStart m + (t.day.toNat - 1) := by
    rw [Int.tdiv_eq_ediv_of_nonneg (by omega)]
    unfold EfiTime.march MarchDate.days
    dsimp only
    split
    · exact ⟨_, _, by omega, by omega, rfl⟩
    · exact ⟨_, _, by omega, by omega, rfl⟩
  have hylt : y < 2 ^ 32 := by
    rw [Int.tdiv_eq_ediv_of_nonneg (by omega)] at hy
    omega
  have hmlt : m < 2 ^ 32 := by
    rw [Int.tdiv_eq_ediv_of_nonneg (by omega)] at hm
    omega
  have hstep : (t.day.toNat : Int) + (153 * m + 2) / 5 + 365 * y + y / 4 - y / 100 + y / 400 -
      32045 = t.date.number + 1721060 := by
    unfold yearStart monthStart at hjulian
    omega
  refine ⟨y, m, by omega, by omega, by omega, by omega, ?_⟩
  unfold epochSteps
  dsimp only
  rw [hy, hm, hstep]
  simp only [show (t.date.number : Int) + 1721060 - 2440588 = t.date.number - 719528 by omega]

theorem EfiTime.InRange.past_iff (h : t.InRange) :
    1970 ≤ t.year.toNat ↔ 719528 ≤ t.date.number := by
  have hfirst := Date.number_newYear 1970
  rw [number_1970] at hfirst
  constructor
  · intro hy
    have hle := yearsBefore_mono hy
    unfold Date.number
    change 719528 ≤ yearsBefore t.year.toNat + _ + _
    omega
  · intro hn
    by_contra hlt
    have hbefore := h.civil.date.lt_year
    have hle := yearsBefore_mono (show t.date.year + 1 ≤ 1970 from Nat.not_le.mp hlt)
    omega

theorem EfiTime.InRange.epochFits_iff (h : t.InRange) :
    EpochFits 32 t ↔ 1970 ≤ t.year.toNat ∧ t.instant < unixEpoch + 2 ^ 32 := by
  obtain ⟨y, m, hy, hy', hm, hm', hsteps⟩ := h.steps
  have hsod : t.secondOfDay = t.hour.toNat * 3600 + t.minute.toNat * 60 + t.second.toNat := rfl
  have hinstant : t.instant = t.date.number * 86400 + t.secondOfDay := rfl
  have hunix := unixEpoch_eq
  rw [EpochFits, hsteps, h.past_iff]
  simp only [List.forall_mem_cons, List.not_mem_nil, false_implies, implies_true, and_true]
  have hdate : t.date.number < 4000000 := by
    have hdays := h.civil.days
    have hyear := h.year.2
    have hmonth := h.march.month
    have hlast := h.march.last
    have hle : t.march.year ≤ t.year.toNat + 4800 := Nat.sub_le _ _
    unfold MarchDate.days yearStart at hdays
    omega
  omega

/-- The assertion is about the years before 1970. -/
theorem EfiTime.InRange.epochAsserted_iff (h : t.InRange) {w : Nat} (hw : 32 ≤ w) :
    epochAsserted w t = true ↔ 1970 ≤ t.year.toNat := by
  have hjulian := julianDate_eq hw t h.month.1 h.month.2 h.day.1
  have hdays := h.civil.days
  have hlit := toNat_lit hw (n := 2440588) (by omega)
  rw [h.past_iff, epochAsserted, decide_eq_true_iff, BitVec.le_def, hjulian, hlit]
  omega

end Limits

end UefiLkl
