import Mathlib.Data.Nat.Basic
import Mathlib.Order.Monotone.Basic
import Mathlib.Tactic.Common

/-!
The Gregorian calendar. Blocks of given lengths lie one behind the other, and a position is
found by walking over them; years are such blocks, and so are the months of a year. A number
of seconds is broken down into a date and a time of day, from which it is recovered.
-/
namespace MuduoServer.Calendar

/-- The block and the place in it, for the position `d` counted from the block `k`. -/
def locate (len : ℕ → ℕ) (k d : ℕ) : ℕ × ℕ :=
  if 0 < len k ∧ len k ≤ d then locate len (k + 1) (d - len k) else (k, d)
termination_by d

section Locate

variable {len : ℕ → ℕ} (start : ℕ → ℕ)

theorem start_locate (hstart : ∀ k, start (k + 1) = start k + len k) (k d : ℕ) :
    start (locate len k d).1 + (locate len k d).2 = start k + d := by
  induction k, d using locate.induct len with
  | case1 k d hpast ih =>
    rw [locate, if_pos hpast, ih, hstart]
    omega
  | case2 k d hin => rw [locate, if_neg hin]

theorem locate_lt (hpos : ∀ k, 0 < len k) (k d : ℕ) :
    (locate len k d).2 < len (locate len k d).1 := by
  induction k, d using locate.induct len with
  | case1 k d hpast ih =>
    rw [locate, if_pos hpast]
    exact ih
  | case2 k d hin =>
    have hk := hpos k
    rw [locate, if_neg hin]
    dsimp only
    omega

theorem le_locate (len : ℕ → ℕ) (k d : ℕ) : k ≤ (locate len k d).1 := by
  induction k, d using locate.induct len with
  | case1 k d hpast ih =>
    rw [locate, if_pos hpast]
    omega
  | case2 k d hin => rw [locate, if_neg hin]

/-- A position before the block `n` is in an earlier block. -/
theorem locate_fst_lt (hstart : ∀ k, start (k + 1) = start k + len k) {k d n : ℕ}
    (h : start k + d < start n) : (locate len k d).1 < n := by
  have hmono : Monotone start := monotone_nat_of_le_succ fun k => by rw [hstart]; omega
  by_contra hle
  have hstartn := hmono (Nat.le_of_not_lt hle)
  have hspec := start_locate start hstart k d
  omega

end Locate

def IsLeap (y : ℕ) : Prop := y % 4 = 0 ∧ (y % 100 ≠ 0 ∨ y % 400 = 0)

instance (y : ℕ) : Decidable (IsLeap y) := inferInstanceAs (Decidable (_ ∧ _))

def yearLength (y : ℕ) : ℕ := if IsLeap y then 366 else 365

/-- The days of a month; months are counted from 0. -/
def monthLength (y m : ℕ) : ℕ :=
  if m = 1 then if IsLeap y then 29 else 28
  else if m = 3 ∨ m = 5 ∨ m = 8 ∨ m = 10 then 30
  else 31

/-- The days of the years before `y`. -/
def daysBeforeYear (y : ℕ) : ℕ := 365 * y + (y + 3) / 4 + (y + 399) / 400 - (y + 99) / 100

def daysBeforeMonth (y : ℕ) : ℕ → ℕ
  | 0 => 0
  | m + 1 => daysBeforeMonth y m + monthLength y m

/-- A date and a time of day; months and days are counted from 0. -/
structure DateTime where
  year : ℕ
  month : ℕ
  day : ℕ
  hour : ℕ
  minute : ℕ
  second : ℕ

/-- The seconds from the start of the year `epoch`. -/
def DateTime.seconds (epoch : ℕ) (t : DateTime) : ℕ :=
  (daysBeforeYear t.year - daysBeforeYear epoch + daysBeforeMonth t.year t.month + t.day) * 86400 +
    t.hour * 3600 + t.minute * 60 + t.second

/-- A date that exists and a time of day. -/
structure DateTime.Valid (t : DateTime) : Prop where
  month : t.month < 12
  day : t.day < monthLength t.year t.month
  hour : t.hour < 24
  minute : t.minute < 60
  second : t.second < 60

/-- The date and time of day at `s` seconds from the start of the year `epoch`. -/
def breakDown (epoch s : ℕ) : DateTime :=
  let year := locate yearLength epoch (s / 86400)
  let month := locate (monthLength year.1) 0 year.2
  { year := year.1
    month := month.1
    day := month.2
    hour := s % 86400 / 3600
    minute := s % 3600 / 60
    second := s % 60 }

theorem yearLength_pos (y : ℕ) : 0 < yearLength y := by
  unfold yearLength
  split <;> omega

theorem monthLength_pos (y m : ℕ) : 0 < monthLength y m := by
  unfold monthLength
  split_ifs <;> omega

theorem monthLength_le (y m : ℕ) : monthLength y m ≤ 31 := by
  unfold monthLength
  split_ifs <;> omega

theorem daysBeforeYear_succ (y : ℕ) :
    daysBeforeYear (y + 1) = daysBeforeYear y + yearLength y := by
  have hfour : (y + 1 + 3) / 4 = (y + 3) / 4 + if y % 4 = 0 then 1 else 0 := by split <;> omega
  have hhundred : (y + 1 + 99) / 100 = (y + 99) / 100 + if y % 100 = 0 then 1 else 0 := by
    split <;> omega
  have hlong : (y + 1 + 399) / 400 = (y + 399) / 400 + if y % 400 = 0 then 1 else 0 := by
    split <;> omega
  have hle : (y + 99) / 100 ≤ (y + 3) / 4 := by omega
  rw [daysBeforeYear, daysBeforeYear, hfour, hhundred, hlong, yearLength]
  generalize (y + 3) / 4 = four at hle
  generalize (y + 99) / 100 = hundred at hle
  generalize (y + 399) / 400 = long
  by_cases hleap : IsLeap y
  · rw [if_pos hleap]
    obtain ⟨hdvd, hcases⟩ := hleap
    rw [if_pos hdvd]
    rcases hcases with hnot | hdvd'
    · rw [if_neg hnot, if_neg (by omega)]
      omega
    · rw [if_pos (by omega : y % 100 = 0), if_pos hdvd']
      omega
  · rw [if_neg hleap]
    unfold IsLeap at hleap
    split_ifs <;> omega

theorem daysBeforeMonth_succ (y m : ℕ) :
    daysBeforeMonth y (m + 1) = daysBeforeMonth y m + monthLength y m := rfl

theorem daysBeforeMonth_twelve (y : ℕ) : daysBeforeMonth y 12 = yearLength y := by
  by_cases hleap : IsLeap y <;>
    simp [daysBeforeMonth, monthLength, yearLength, hleap]

section BreakDown

variable {epoch s : ℕ}

theorem breakDown_day_lt (epoch s : ℕ) :
    (locate yearLength epoch (s / 86400)).2 < daysBeforeMonth (breakDown epoch s).year 12 := by
  rw [daysBeforeMonth_twelve]
  exact locate_lt yearLength_pos _ _

theorem breakDown_valid (epoch s : ℕ) : (breakDown epoch s).Valid where
  month := by
    apply locate_fst_lt _ (daysBeforeMonth_succ (breakDown epoch s).year)
    have hday := breakDown_day_lt epoch s
    simpa [daysBeforeMonth] using hday
  day := locate_lt (monthLength_pos _) _ _
  hour := by
    change s % 86400 / 3600 < 24
    omega
  minute := by
    change s % 3600 / 60 < 60
    omega
  second := Nat.mod_lt _ (by omega)

theorem epoch_le_breakDown (epoch s : ℕ) : epoch ≤ (breakDown epoch s).year := le_locate _ _ _

/-- The seconds are recovered from the date and the time of day. -/
theorem seconds_breakDown (epoch s : ℕ) : (breakDown epoch s).seconds epoch = s := by
  have hyear := start_locate daysBeforeYear daysBeforeYear_succ epoch (s / 86400)
  have hmonth := start_locate (daysBeforeMonth (breakDown epoch s).year)
    (daysBeforeMonth_succ _) 0 (locate yearLength epoch (s / 86400)).2
  have hmono : Monotone daysBeforeYear := monotone_nat_of_le_succ fun k => by
    rw [daysBeforeYear_succ]
    omega
  have hle := hmono (epoch_le_breakDown epoch s)
  have hzero : daysBeforeMonth (breakDown epoch s).year 0 = 0 := rfl
  have hdays : daysBeforeYear (breakDown epoch s).year - daysBeforeYear epoch +
      daysBeforeMonth (breakDown epoch s).year (breakDown epoch s).month +
      (breakDown epoch s).day = s / 86400 := by
    change daysBeforeYear (breakDown epoch s).year + _ = _ at hyear
    change daysBeforeMonth _ (breakDown epoch s).month + (breakDown epoch s).day = _ at hmonth
    omega
  rw [DateTime.seconds, hdays]
  change s / 86400 * 86400 + s % 86400 / 3600 * 3600 + s % 3600 / 60 * 60 + s % 60 = s
  omega

/-- Seconds before the year `n` fall into an earlier year. -/
theorem breakDown_year_lt {n : ℕ}
    (h : s < (daysBeforeYear n - daysBeforeYear epoch) * 86400) :
    (breakDown epoch s).year < n := by
  apply locate_fst_lt daysBeforeYear daysBeforeYear_succ
  omega

end BreakDown

end MuduoServer.Calendar
