import Mathlib.Algebra.Order.BigOperators.Group.Finset
import Mathlib.Data.List.Lex
import Mathlib.Tactic.IntervalCases
set_option autoImplicit false

/-!
The Gregorian calendar with years that begin in March, so that the leap day is
the last day of the year.
-/

namespace UefiLkl.Calendar

/-- Month and day count from zero; month zero is March. -/
structure MarchDate where
  year : Nat
  month : Nat
  day : Nat
  deriving DecidableEq, Repr

/-- Whether the year that begins in March `y` ends with a leap day. -/
def isLeap (y : Nat) : Prop := (y+1) % 4 = 0 ∧ ((y+1) % 100 ≠ 0 ∨ (y+1) % 400 = 0)

def yearStart (y : Nat) : Nat := 365 * y + y / 4 - y / 100 + y / 400

def monthStart (m : Nat) : Nat := (153 * m + 2) / 5

def MarchDate.days (t : MarchDate) : Nat := yearStart t.year + monthStart t.month + t.day

structure MarchDate.Valid (t : MarchDate) : Prop where
  month : t.month ≤ 11
  day : monthStart t.month + t.day < monthStart (t.month + 1)
  last : monthStart t.month + t.day ≤ 365
  leap : monthStart t.month + t.day = 365 → isLeap t.year

/-- The day of the year, and the year before it. -/
def yearOf (n : Nat) : Nat × Nat :=
  let g := n / 146097
  let dg := n % 146097
  let c := (dg / 36524 + 1) * 3 / 4
  let dc := dg - c * 36524
  let b := dc / 1461
  let db := dc % 1461
  let a := (db / 365 + 1) * 3 / 4
  (g * 400 + c * 100 + b * 4 + a, db - a * 365)

def MarchDate.ofDays (n : Nat) : MarchDate :=
  let da := (yearOf n).2
  let m := (da * 5 + 308) / 153 - 2
  ⟨(yearOf n).1, m, da - monthStart m⟩

theorem yearStart_parts {g c b a : Nat} (hc : c ≤ 3) (hb : b ≤ 24) (ha : a ≤ 3) :
    yearStart (g * 400 + c * 100 + b * 4 + a) =
      146097 * g + 36524 * c + 1461 * b + 365 * a := by
  have h4 : (g * 400 + c * 100 + b * 4 + a) / 4 = 100 * g + 25 * c + b := by omega
  have h100 : (g * 400 + c * 100 + b * 4 + a) / 100 = 4 * g + c := by omega
  have h400 : (g * 400 + c * 100 + b * 4 + a) / 400 = g := by omega
  rw [yearStart, h4, h100, h400]
  omega

theorem isLeap_parts {g c b a : Nat} (hc : c ≤ 3) (hb : b ≤ 24) (ha : a ≤ 3) :
    isLeap (g * 400 + c * 100 + b * 4 + a) ↔ a = 3 ∧ (b ≠ 24 ∨ c = 3) := by
  unfold isLeap
  omega

/-- What the divisions find, for the day `da` of the year with the given parts. -/
theorem yearOf_parts {g c b a da : Nat} (hc : c ≤ 3) (hb : b ≤ 24) (ha : a ≤ 3)
    (hda : da ≤ 365) (hleap : da = 365 → a = 3 ∧ (b ≠ 24 ∨ c = 3)) :
    yearOf (146097 * g + 36524 * c + 1461 * b + 365 * a + da) =
      (g * 400 + c * 100 + b * 4 + a, da) := by
  have hdb : 365 * a + da < 1461 := by omega
  have hdc : 1461 * b + (365 * a + da) ≤ 36524 := by omega
  have hdc' : 1461 * b + (365 * a + da) = 36524 → c = 3 := by omega
  have hg : (146097 * g + 36524 * c + 1461 * b + 365 * a + da) / 146097 = g := by omega
  have hdg : (146097 * g + 36524 * c + 1461 * b + 365 * a + da) % 146097 =
      36524 * c + (1461 * b + (365 * a + da)) := by omega
  have hcc : ((36524 * c + (1461 * b + (365 * a + da))) / 36524 + 1) * 3 / 4 = c := by
    -- the last day of the last century of a cycle divides as a century of its own
    by_cases hlast : 1461 * b + (365 * a + da) = 36524
    · have := hdc' hlast
      omega
    · have : (36524 * c + (1461 * b + (365 * a + da))) / 36524 = c := by omega
      omega
  have hbb : (1461 * b + (365 * a + da)) / 1461 = b := by omega
  have hbm : (1461 * b + (365 * a + da)) % 1461 = 365 * a + da := by omega
  have haa : ((365 * a + da) / 365 + 1) * 3 / 4 = a := by omega
  have hsub : 36524 * c + (1461 * b + (365 * a + da)) - c * 36524 =
      1461 * b + (365 * a + da) := by omega
  have hsub' : 365 * a + da - a * 365 = da := by omega
  simp only [yearOf, hg, hdg, hcc, hsub, hbb, hbm, haa, hsub']

theorem exists_parts (n : Nat) : ∃ g c b a da : Nat, c ≤ 3 ∧ b ≤ 24 ∧ a ≤ 3 ∧ da ≤ 365 ∧
    (da = 365 → a = 3 ∧ (b ≠ 24 ∨ c = 3)) ∧
    n = 146097 * g + 36524 * c + 1461 * b + 365 * a + da := by
  obtain ⟨g, dg, hg, hn⟩ : ∃ g dg, dg < 146097 ∧ n = 146097 * g + dg :=
    ⟨n / 146097, n % 146097, by omega, by omega⟩
  obtain ⟨c, dc, hc, hdc, hdcl, hdg⟩ : ∃ c dc, c ≤ 3 ∧ dc ≤ 36524 ∧ (dc = 36524 → c = 3) ∧
      dg = 36524 * c + dc := by
    refine ⟨min (dg / 36524) 3, dg - 36524 * min (dg / 36524) 3, ?_⟩
    omega
  obtain ⟨b, db, hb, hdb, hdc'⟩ : ∃ b db, b ≤ 24 ∧ db < 1461 ∧ dc = 1461 * b + db :=
    ⟨dc / 1461, dc % 1461, by omega, by omega, by omega⟩
  obtain ⟨a, da, ha, hda, hleap, hdb'⟩ : ∃ a da, a ≤ 3 ∧ da ≤ 365 ∧ (da = 365 → a = 3) ∧
      db = 365 * a + da := by
    refine ⟨min (db / 365) 3, db - 365 * min (db / 365) 3, ?_⟩
    omega
  refine ⟨g, c, b, a, da, hc, hb, ha, hda, ?_, by omega⟩
  intro h
  omega

theorem yearStart_yearOf (n : Nat) : yearStart (yearOf n).1 + (yearOf n).2 = n := by
  obtain ⟨g, c, b, a, da, hc, hb, ha, hda, hleap, hn⟩ := exists_parts n
  rw [hn, yearOf_parts hc hb ha hda hleap, yearStart_parts hc hb ha]

theorem yearOf_day_le (n : Nat) : (yearOf n).2 ≤ 365 := by
  obtain ⟨g, c, b, a, da, hc, hb, ha, hda, hleap, hn⟩ := exists_parts n
  rw [hn, yearOf_parts hc hb ha hda hleap]
  exact hda

theorem yearOf_leap (n : Nat) (h : (yearOf n).2 = 365) : isLeap (yearOf n).1 := by
  obtain ⟨g, c, b, a, da, hc, hb, ha, hda, hleap, hn⟩ := exists_parts n
  rw [hn, yearOf_parts hc hb ha hda hleap] at h ⊢
  exact (isLeap_parts hc hb ha).mpr (hleap h)

theorem month_bounds {da : Nat} (h : da ≤ 365) :
    (da * 5 + 308) / 153 - 2 ≤ 11 ∧ monthStart ((da * 5 + 308) / 153 - 2) ≤ da ∧
      da < monthStart ((da * 5 + 308) / 153 - 2 + 1) := by
  unfold monthStart
  omega

theorem month_unique {m da : Nat} (hlo : monthStart m ≤ da) (hhi : da < monthStart (m + 1)) :
    (da * 5 + 308) / 153 - 2 = m := by
  unfold monthStart at hlo hhi
  omega

theorem MarchDate.days_ofDays (n : Nat) : (MarchDate.ofDays n).days = n := by
  have hm := month_bounds (yearOf_day_le n)
  have hy := yearStart_yearOf n
  unfold MarchDate.ofDays MarchDate.days
  dsimp only
  omega

theorem MarchDate.valid_ofDays (n : Nat) : (MarchDate.ofDays n).Valid := by
  obtain ⟨hm, hlo, hhi⟩ := month_bounds (yearOf_day_le n)
  have hle := yearOf_day_le n
  refine ⟨hm, ?_, ?_, fun h => yearOf_leap n ?_⟩
  · unfold MarchDate.ofDays
    dsimp only
    omega
  · unfold MarchDate.ofDays
    dsimp only
    omega
  · unfold MarchDate.ofDays at h
    dsimp only at h
    omega

theorem yearOf_yearStart {y da : Nat} (hda : da ≤ 365) (hleap : da = 365 → isLeap y) :
    yearOf (yearStart y + da) = (y, da) := by
  obtain ⟨g, c, b, a, hc, hb, ha, hy⟩ : ∃ g c b a, c ≤ 3 ∧ b ≤ 24 ∧ a ≤ 3 ∧
      y = g * 400 + c * 100 + b * 4 + a :=
    ⟨y / 400, y % 400 / 100, y % 100 / 4, y % 4, by omega, by omega, by omega, by omega⟩
  rw [hy, yearStart_parts hc hb ha]
  refine yearOf_parts hc hb ha hda fun h => ?_
  rw [← isLeap_parts hc hb ha, ← hy]
  exact hleap h

theorem MarchDate.ofDays_days {t : MarchDate} (h : t.Valid) : MarchDate.ofDays t.days = t := by
  obtain ⟨y, m, d⟩ := t
  have hday := h.day
  have hyear : yearOf (yearStart y + (monthStart m + d)) = (y, monthStart m + d) :=
    yearOf_yearStart h.last h.leap
  have hmonth : ((monthStart m + d) * 5 + 308) / 153 - 2 = m :=
    month_unique (Nat.le_add_right _ _) hday
  unfold MarchDate.ofDays MarchDate.days
  dsimp only
  rw [Nat.add_assoc, hyear]
  dsimp only
  rw [hmonth, Nat.add_sub_cancel_left]

/-!
The calendar as it is usually told, with months that have a length each and
years that begin in January. Months and days count from one.
-/

structure Date where
  year : Nat
  month : Nat
  day : Nat
  deriving DecidableEq, Repr

/-- Every fourth year, but of the centuries only every fourth. -/
def leapYear (y : Nat) : Bool := y % 4 = 0 && (y % 100 ≠ 0 || y % 400 = 0)

def yearLength (y : Nat) : Nat := if leapYear y then 366 else 365

def monthLength (y : Nat) : Nat → Nat
  | 2 => if leapYear y then 29 else 28
  | 4 | 6 | 9 | 11 => 30
  | _ => 31

structure Date.Valid (t : Date) : Prop where
  month : 1 ≤ t.month ∧ t.month ≤ 12
  day : 1 ≤ t.day ∧ t.day ≤ monthLength t.year t.month

/-- Days in the years before `y`. -/
def yearsBefore (y : Nat) : Nat := ∑ i ∈ Finset.range y, yearLength i

/-- Days of the year `y` in the months before `m`. -/
def monthsBefore (y m : Nat) : Nat := ∑ i ∈ Finset.range (m - 1), monthLength y (i + 1)

/-- Days since the first of January of the year zero. -/
def Date.number (t : Date) : Nat := yearsBefore t.year + monthsBefore t.year t.month + (t.day - 1)

theorem Date.number_newYear (y : Nat) : (Date.mk y 1 1).number = yearsBefore y := rfl

theorem leapYear_iff (y : Nat) : leapYear y = true ↔ y % 4 = 0 ∧ (y % 100 ≠ 0 ∨ y % 400 = 0) := by
  simp [leapYear]

theorem div_succ (y k : Nat) :
    (y + 1) % k = 0 ∧ (y + 1) / k = y / k + 1 ∨ (y + 1) % k ≠ 0 ∧ (y + 1) / k = y / k := by
  rw [Nat.succ_div]
  by_cases h : k ∣ y + 1
  · exact .inl ⟨Nat.mod_eq_zero_of_dvd h, by rw [if_pos h]⟩
  · exact .inr ⟨fun h0 => h (Nat.dvd_of_mod_eq_zero h0), by rw [if_neg h, Nat.add_zero]⟩

theorem yearStart_succ (y : Nat) : yearStart (y + 1) = yearStart y + yearLength (y + 1) := by
  have hleap := leapYear_iff (y + 1)
  have h100of400 : (y + 1) % 400 = 0 → (y + 1) % 100 = 0 := by omega
  have h4of100 : (y + 1) % 100 = 0 → (y + 1) % 4 = 0 := by omega
  have hle : y / 100 ≤ y / 4 := by omega
  unfold yearLength yearStart
  rcases div_succ y 4 with ⟨h4, e4⟩ | ⟨h4, e4⟩
  · rcases div_succ y 100 with ⟨h100, e100⟩ | ⟨h100, e100⟩
    · rcases div_succ y 400 with ⟨h400, e400⟩ | ⟨h400, e400⟩
      · rw [if_pos (hleap.mpr ⟨h4, .inr h400⟩), e4, e100, e400]
        omega
      · rw [if_neg (by simp [hleap, h4, h100, h400]), e4, e100, e400]
        omega
    · rcases div_succ y 400 with ⟨h400, e400⟩ | ⟨h400, e400⟩
      · exact absurd (h100of400 h400) h100
      · rw [if_pos (hleap.mpr ⟨h4, .inl h100⟩), e4, e100, e400]
        omega
  · rcases div_succ y 100 with ⟨h100, e100⟩ | ⟨h100, e100⟩
    · exact absurd (h4of100 h100) h4
    · rcases div_succ y 400 with ⟨h400, e400⟩ | ⟨h400, e400⟩
      · exact absurd (h100of400 h400) h100
      · rw [if_neg (by simp [hleap, h4]), e4, e100, e400]
        omega

theorem yearsBefore_succ (y : Nat) : yearsBefore (y + 1) = yearsBefore y + yearLength y :=
  Finset.sum_range_succ _ _

theorem monthsBefore_succ (y m : Nat) (h : 1 ≤ m) :
    monthsBefore y (m + 1) = monthsBefore y m + monthLength y m := by
  obtain ⟨k, rfl⟩ : ∃ k, m = k + 1 := ⟨m - 1, by omega⟩
  exact Finset.sum_range_succ _ _

theorem monthsBefore_thirteen (y : Nat) : monthsBefore y 13 = yearLength y := by
  simp only [monthsBefore, yearLength, Finset.sum_range_succ, Finset.sum_range_zero, monthLength]
  split <;> rfl

theorem monthsBefore_mono (y : Nat) {m n : Nat} (h : m ≤ n) :
    monthsBefore y m ≤ monthsBefore y n :=
  Finset.sum_le_sum_of_subset (Finset.range_subset_range.mpr (by omega))

theorem yearsBefore_mono {y z : Nat} (h : y ≤ z) : yearsBefore y ≤ yearsBefore z :=
  Finset.sum_le_sum_of_subset (Finset.range_subset_range.mpr h)

theorem Date.Valid.lt_month {t : Date} (h : t.Valid) :
    monthsBefore t.year t.month + (t.day - 1) < monthsBefore t.year (t.month + 1) := by
  have hday := h.day
  rw [monthsBefore_succ _ _ h.month.1]
  omega

theorem Date.Valid.lt_year {t : Date} (h : t.Valid) : t.number < yearsBefore (t.year + 1) := by
  have hmonth := h.lt_month
  have hend : monthsBefore t.year (t.month + 1) ≤ monthsBefore t.year 13 :=
    monthsBefore_mono _ (by have := h.month.2; omega)
  rw [monthsBefore_thirteen] at hend
  rw [yearsBefore_succ, Date.number]
  omega

def Date.parts (t : Date) : List Nat := [t.year, t.month, t.day]

theorem Date.number_lt {s t : Date} (hs : s.Valid) (ht : t.Valid) (h : s.parts < t.parts) :
    s.number < t.number := by
  have htday := ht.day.1
  simp only [parts, List.cons_lt_cons_iff, List.not_lt_nil, and_false, or_false] at h
  rcases h with hyear | ⟨hyear, hmonth | ⟨hmonth, hday⟩⟩
  · have hlast := hs.lt_year
    have hle := yearsBefore_mono (show s.year + 1 ≤ t.year from hyear)
    unfold number at hlast ⊢
    omega
  · have hlast := hs.lt_month
    have hle := monthsBefore_mono s.year (show s.month + 1 ≤ t.month from hmonth)
    unfold number
    rw [← hyear]
    omega
  · have hsday := hs.day.1
    unfold number
    rw [← hyear, ← hmonth]
    omega

def Date.next (t : Date) : Date :=
  if t.day < monthLength t.year t.month then ⟨t.year, t.month, t.day + 1⟩
  else if t.month < 12 then ⟨t.year, t.month + 1, 1⟩
  else ⟨t.year + 1, 1, 1⟩

theorem monthLength_pos (y m : Nat) : 1 ≤ monthLength y m := by
  unfold monthLength
  split <;> (try split) <;> omega

theorem monthLength_le (y m : Nat) : monthLength y m ≤ 31 := by
  unfold monthLength
  split <;> (try split) <;> omega

theorem Date.valid_next {t : Date} (h : t.Valid) : t.next.Valid := by
  have hmonth := h.month
  have hday := h.day
  unfold next
  split
  case isTrue hlt => exact ⟨hmonth, Nat.le_add_left 1 t.day, hlt⟩
  split
  case isTrue hlt => exact ⟨⟨Nat.le_add_left 1 t.month, hlt⟩, le_rfl, monthLength_pos _ _⟩
  exact ⟨⟨le_rfl, show 1 ≤ 12 by decide⟩, le_rfl, monthLength_pos _ _⟩

theorem Date.number_next {t : Date} (h : t.Valid) : t.next.number = t.number + 1 := by
  have hmonth := h.month
  have hday := h.day
  have hstep := monthsBefore_succ t.year t.month hmonth.1
  unfold next number
  split
  case isTrue hlt =>
    dsimp only
    omega
  case isFalse hlast =>
    split
    · dsimp only
      omega
    · have hdec : t.month = 12 := by omega
      have hend := monthsBefore_thirteen t.year
      have hstart : monthsBefore (t.year + 1) 1 = 0 := rfl
      rw [hdec] at hstep hday hlast ⊢
      rw [show 12 + 1 = 13 from rfl, hend] at hstep
      dsimp only
      rw [yearsBefore_succ, hstart]
      omega

theorem Date.exists_number (n : Nat) : ∃ t : Date, t.Valid ∧ t.number = n := by
  induction n with
  | zero => exact ⟨⟨0, 1, 1⟩, ⟨by decide, by decide⟩, rfl⟩
  | succ n ih =>
    obtain ⟨t, ht, hn⟩ := ih
    exact ⟨t.next, valid_next ht, by rw [number_next ht, hn]⟩

theorem yearsBefore_eq (y : Nat) : yearsBefore (y + 1) = yearStart y + 366 := by
  induction y with
  | zero => rfl
  | succ y ih =>
    rw [yearsBefore_succ, ih, yearStart_succ]
    omega

/-- The same date in March years, some cycles of the calendar later. -/
def Date.march (k : Nat) (t : Date) : MarchDate :=
  let a := if t.month ≤ 2 then 1 else 0
  ⟨t.year + 400 * k - a, t.month + 12 * a - 3, t.day - 1⟩

theorem yearStart_cycle (y k : Nat) : yearStart (y + 400 * k) = yearStart y + 146097 * k := by
  have h4 : (y + 400 * k) / 4 = y / 4 + 100 * k := by omega
  have h100 : (y + 400 * k) / 100 = y / 100 + 4 * k := by omega
  have h400 : (y + 400 * k) / 400 = y / 400 + k := by omega
  have hle : y / 100 ≤ y / 4 := by omega
  rw [yearStart, yearStart, h4, h100, h400]
  omega

theorem leapYear_cycle (y k : Nat) : leapYear (y + 400 * k) = leapYear y := by
  rw [Bool.eq_iff_iff, leapYear_iff, leapYear_iff]
  have h4 : (y + 400 * k) % 4 = y % 4 := by omega
  have h100 : (y + 400 * k) % 100 = y % 100 := by omega
  have h400 : (y + 400 * k) % 400 = y % 400 := by omega
  rw [h4, h100, h400]

theorem monthsBefore_eq {y m : Nat} (h1 : 1 ≤ m) (h12 : m ≤ 12) :
    m ≤ 2 ∧ monthsBefore y m + 306 = monthStart (m + 9) ∨
      3 ≤ m ∧ monthsBefore y m + 306 = monthStart (m - 3) + yearLength y := by
  unfold monthsBefore yearLength
  interval_cases m <;> cases hleap : leapYear y <;>
    simp [Finset.sum_range_succ, monthLength, monthStart, hleap]

theorem Date.days_march {t : Date} (h : t.Valid) {k : Nat} (hk : 0 < k) :
    (t.march k).days + 60 = t.number + 146097 * k := by
  obtain ⟨⟨hlo, hhi⟩, hday⟩ := h
  have hyear := yearsBefore_eq t.year
  have hcycle := yearStart_cycle t.year k
  rw [yearsBefore_succ] at hyear
  unfold march MarchDate.days number
  dsimp only
  rcases monthsBefore_eq (y := t.year) hlo hhi with ⟨hm, hmonth⟩ | ⟨hm, hmonth⟩
  · -- January and February belong to the March year before
    have hlen : yearLength (t.year + 400 * k) = yearLength t.year := by
      rw [yearLength, yearLength, leapYear_cycle]
    have hprev := yearStart_succ (t.year + 400 * k - 1)
    rw [show t.year + 400 * k - 1 + 1 = t.year + 400 * k by omega, hlen] at hprev
    rw [if_pos hm, show t.month + 12 * 1 - 3 = t.month + 9 by omega]
    omega
  · simp only [if_neg (show ¬t.month ≤ 2 by omega), Nat.mul_zero, Nat.add_zero, Nat.sub_zero]
    omega

theorem Date.valid_march {t : Date} (h : t.Valid) {k : Nat} (hk : 0 < k) : (t.march k).Valid := by
  obtain ⟨y, m, d⟩ := t
  obtain ⟨⟨hlo, hhi⟩, hd1, hd⟩ := h
  dsimp only at hlo hhi hd1 hd
  have hleap : leapYear y = true → isLeap (y + 400 * k - 1) := by
    intro hy
    rw [← leapYear_cycle y k, leapYear_iff] at hy
    rw [isLeap, show y + 400 * k - 1 + 1 = y + 400 * k by omega]
    exact hy
  constructor
  · unfold march
    interval_cases m <;> simp
  · unfold march monthStart
    unfold monthLength at hd
    interval_cases m <;> simp at hd ⊢ <;> (try split at hd) <;> omega
  · unfold march monthStart
    unfold monthLength at hd
    interval_cases m <;> simp at hd ⊢ <;> (try split at hd) <;> omega
  · -- only the end of February is day 365
    unfold march monthStart
    unfold monthLength at hd
    interval_cases m <;> simp at hd ⊢ <;> (try split at hd) <;> (try omega)
    intro _
    exact hleap (by assumption)

end UefiLkl.Calendar
