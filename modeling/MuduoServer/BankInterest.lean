import MuduoServer.StepSums
import Mathlib.Algebra.Order.Field.Rat
import Mathlib.Tactic.Ring

/-!
The interest that `BankService::CloseAccount` has MySQL compute. The query takes the last
row of each day, with the date of the next one, and adds up the days between them times the
balance. This is the sum of the closing balances of all days, from the first transaction on
and up to the day of closing.
-/
namespace MuduoServer.BankInterest

open Finset

/-- A row of `trans`, as far as the query reads it. A `datetime` is counted in seconds. -/
structure TransRow where
  trans_id : ℤ
  account_id : ℤ
  balance : ℚ
  trans_date : ℕ
  deriving DecidableEq

/-- The day of a `datetime`. -/
def day (date : ℕ) : ℕ := date / 86400

def datediff (date date' : ℕ) : ℤ := day date - day date'

section Query

variable (trans : List TransRow) (account_id : ℤ)

/-- The rows `where account_id=`. -/
def history : List TransRow := trans.filter fun r => r.account_id = account_id

/-- `select max(trans_id) … group by date_format(trans_date, '%Y-%m-%d')` -/
def maxIds : List ℤ :=
  let rows := history trans account_id
  let days := rows.map fun r => day r.trans_date
  days.filterMap fun d => ((rows.filter fun r => day r.trans_date = d).map TransRow.trans_id).max?

/-- `select * from trans where trans_id in (…)` -/
def lastOfDays : List TransRow := trans.filter fun r => r.trans_id ∈ maxIds trans account_id

/-- `select min(trans_date) from (…) b where b.trans_date > a.trans_date` -/
def next_date (a : TransRow) : Option ℕ :=
  (((lastOfDays trans account_id).filter fun b => a.trans_date < b.trans_date).map
    TransRow.trans_date).min?

/-- `datediff(if(next_date, next_date, now()), trans_date)` -/
def days (now : ℕ) (a : TransRow) : ℤ :=
  datediff ((next_date trans account_id a).getD now) a.trans_date

/-- `select sum(yy.days*yy.balance)*<rate>/360`; the sum of no rows is NULL. -/
def interest (rate : ℚ) (now : ℕ) : Option ℚ :=
  let rows := lastOfDays trans account_id
  if rows = [] then none
  else some ((rows.map fun a => days trans account_id now a * a.balance).sum * rate / 360)

/-- The row with the greatest `trans_id`. -/
def latest : List TransRow → Option TransRow
  | [] => none
  | r :: rows =>
    match latest rows with
    | none => some r
    | some s => if s.trans_id ≤ r.trans_id then some r else some s

/-- The balance after the last transaction on or before the day `x`. -/
def closingBalance (x : ℕ) : ℚ :=
  match latest ((history trans account_id).filter fun r => day r.trans_date ≤ x) with
  | some r => r.balance
  | none => 0

end Query

/-- `trans_id` is a key of the table, dates do not decrease with it, the first row is one that is
there, and the account is closed after the last one. -/
structure IsHistory (trans : List TransRow) (account_id : ℤ) (first : TransRow) (now : ℕ) :
    Prop where
  keys : (trans.map TransRow.trans_id).Nodup
  first_mem : first ∈ history trans account_id
  first_le : ∀ r ∈ history trans account_id, first.trans_id ≤ r.trans_id
  ordered : ∀ r ∈ history trans account_id, ∀ s ∈ history trans account_id,
    r.trans_id ≤ s.trans_id → r.trans_date ≤ s.trans_date
  closed : ∀ r ∈ history trans account_id, r.trans_date ≤ now

section Rows

variable {trans : List TransRow} {account_id : ℤ} {first r s : TransRow} {now : ℕ}

theorem day_mono {date date' : ℕ} (h : date ≤ date') : day date ≤ day date' :=
  Nat.div_le_div_right h

theorem mem_history : r ∈ history trans account_id ↔ r ∈ trans ∧ r.account_id = account_id := by
  simp [history]

/-- The row is the last one of its day. -/
def LastOfDay (trans : List TransRow) (account_id : ℤ) (r : TransRow) : Prop :=
  r ∈ history trans account_id ∧ ∀ s ∈ history trans account_id,
    day s.trans_date = day r.trans_date → s.trans_id ≤ r.trans_id

theorem mem_maxIds {i : ℤ} :
    i ∈ maxIds trans account_id ↔ ∃ r, LastOfDay trans account_id r ∧ r.trans_id = i := by
  simp only [maxIds, List.mem_filterMap, List.mem_map, List.max?_eq_some_iff, List.mem_filter,
    decide_eq_true_eq]
  constructor
  · rintro ⟨d, -, ⟨r, ⟨hr, hday⟩, rfl⟩, hmax⟩
    refine ⟨r, ⟨hr, ?_⟩, rfl⟩
    intro s hs hsame
    exact hmax _ ⟨s, ⟨hs, hsame.trans hday⟩, rfl⟩
  · rintro ⟨r, ⟨hr, hmax⟩, rfl⟩
    refine ⟨day r.trans_date, ⟨r, hr, rfl⟩, ⟨r, ⟨hr, rfl⟩, rfl⟩, ?_⟩
    rintro _ ⟨s, ⟨hs, hsame⟩, rfl⟩
    exact hmax s hs hsame

theorem mem_lastOfDays (hkeys : (trans.map TransRow.trans_id).Nodup) :
    r ∈ lastOfDays trans account_id ↔ LastOfDay trans account_id r := by
  simp only [lastOfDays, List.mem_filter, decide_eq_true_eq, mem_maxIds]
  constructor
  · rintro ⟨hr, s, hs, hid⟩
    have hsame := List.inj_on_of_nodup_map hkeys (mem_history.mp hs.1).1 hr hid
    rwa [← hsame]
  · intro hlast
    exact ⟨(mem_history.mp hlast.1).1, r, hlast, rfl⟩

variable (h : IsHistory trans account_id first now)

include h

/-- Two rows that are the last of the same day are one. -/
theorem IsHistory.last_unique (hr : LastOfDay trans account_id r)
    (hs : LastOfDay trans account_id s) (hday : day r.trans_date = day s.trans_date) : r = s := by
  have hle := hr.2 s hs.1 hday.symm
  have hge := hs.2 r hr.1 hday
  exact List.inj_on_of_nodup_map h.keys (mem_history.mp hr.1).1 (mem_history.mp hs.1).1
    (le_antisymm hge hle)

/-- Between the last rows of two days dates compare as the days do. -/
theorem IsHistory.date_lt_iff (hr : LastOfDay trans account_id r)
    (hs : LastOfDay trans account_id s) :
    r.trans_date < s.trans_date ↔ day r.trans_date < day s.trans_date := by
  constructor
  · intro hlt
    refine lt_of_le_of_ne (day_mono hlt.le) ?_
    intro hday
    rw [h.last_unique hr hs hday] at hlt
    exact lt_irrefl _ hlt
  · intro hlt
    by_contra hle
    exact absurd (day_mono (not_lt.mp hle)) (not_le.mpr hlt)

omit h in
theorem latest_spec (rows : List TransRow) :
    match latest rows with
    | none => rows = []
    | some s => s ∈ rows ∧ ∀ r ∈ rows, r.trans_id ≤ s.trans_id := by
  induction rows with
  | nil => rfl
  | cons r rows ih =>
    rw [latest]
    cases hlatest : latest rows with
    | none =>
      rw [hlatest] at ih
      simp [ih]
    | some s =>
      rw [hlatest] at ih
      by_cases hle : s.trans_id ≤ r.trans_id
      · simp only [if_pos hle, List.mem_cons, true_or, true_and, forall_eq_or_imp, le_refl]
        exact fun t ht => (ih.2 t ht).trans hle
      · simp only [if_neg hle, List.mem_cons, forall_eq_or_imp]
        exact ⟨Or.inr ih.1, (not_le.mp hle).le, ih.2⟩

/-- The row whose balance is the closing balance of a day. -/
def lastBefore (trans : List TransRow) (account_id : ℤ) (first : TransRow) (x : ℕ) : TransRow :=
  (latest ((history trans account_id).filter fun r => day r.trans_date ≤ x)).getD first

omit h in
theorem lastBefore_spec (hfirst : first ∈ history trans account_id) {x : ℕ}
    (hx : day first.trans_date ≤ x) :
    (lastBefore trans account_id first x ∈ history trans account_id ∧
      day (lastBefore trans account_id first x).trans_date ≤ x ∧
      ∀ r ∈ history trans account_id, day r.trans_date ≤ x →
        r.trans_id ≤ (lastBefore trans account_id first x).trans_id) ∧
    closingBalance trans account_id x = (lastBefore trans account_id first x).balance := by
  have hspec := latest_spec ((history trans account_id).filter fun r => day r.trans_date ≤ x)
  unfold closingBalance lastBefore
  cases hlatest : latest ((history trans account_id).filter fun r => day r.trans_date ≤ x) with
  | none =>
    rw [hlatest] at hspec
    have hmem : first ∈ (history trans account_id).filter fun r => day r.trans_date ≤ x :=
      List.mem_filter.mpr ⟨hfirst, decide_eq_true hx⟩
    rw [hspec] at hmem
    exact absurd hmem List.not_mem_nil
  | some last =>
    rw [hlatest] at hspec
    obtain ⟨hlast, hday⟩ := List.mem_filter.mp hspec.1
    refine ⟨⟨hlast, of_decide_eq_true hday, ?_⟩, rfl⟩
    intro r hr hrx
    exact hspec.2 r (List.mem_filter.mpr ⟨hr, decide_eq_true hrx⟩)

theorem IsHistory.covers : StepSums.Covers (lastOfDays trans account_id).toFinset
    (fun r => day r.trans_date) (day first.trans_date) (lastBefore trans account_id first) where
  mem x hx := by
    obtain ⟨⟨hmem, hday, hmax⟩, -⟩ := lastBefore_spec h.first_mem hx
    rw [List.mem_toFinset, mem_lastOfDays h.keys]
    exact ⟨hmem, fun s hs hsame => hmax s hs (hsame.trans_le hday)⟩
  le x hx := (lastBefore_spec h.first_mem hx).1.2.1
  greatest x hx r hr hrx := by
    obtain ⟨⟨hmem, -, hmax⟩, -⟩ := lastBefore_spec h.first_mem hx
    rw [List.mem_toFinset, mem_lastOfDays h.keys] at hr
    exact day_mono (h.ordered r hr.1 _ hmem (hmax r hr.1 hrx))

/-- `next_date` is the date of a row behind, the earliest of them. -/
theorem IsHistory.next_date_spec {d : ℕ} :
    next_date trans account_id r = some d ↔
      (∃ s, LastOfDay trans account_id s ∧ r.trans_date < s.trans_date ∧ s.trans_date = d) ∧
        ∀ s, LastOfDay trans account_id s → r.trans_date < s.trans_date → d ≤ s.trans_date := by
  simp only [next_date, List.min?_eq_some_iff, List.mem_map, List.mem_filter, decide_eq_true_eq,
    mem_lastOfDays h.keys]
  constructor
  · rintro ⟨⟨s, ⟨hs, hlt⟩, rfl⟩, hmin⟩
    exact ⟨⟨s, hs, hlt, rfl⟩, fun s' hs' hlt' => hmin _ ⟨s', ⟨hs', hlt'⟩, rfl⟩⟩
  · rintro ⟨⟨s, hs, hlt, rfl⟩, hmin⟩
    refine ⟨⟨s, ⟨hs, hlt⟩, rfl⟩, ?_⟩
    rintro _ ⟨s', ⟨hs', hlt'⟩, rfl⟩
    exact hmin s' hs' hlt'

theorem IsHistory.next_date_none (hnone : next_date trans account_id r = none)
    (hs : LastOfDay trans account_id s) : ¬ r.trans_date < s.trans_date := by
  intro hlt
  rw [next_date, List.min?_eq_none_iff, List.map_eq_nil_iff, List.filter_eq_nil_iff] at hnone
  exact hnone s ((mem_lastOfDays h.keys).mpr hs) (decide_eq_true hlt)

theorem IsHistory.follows : StepSums.Follows (lastOfDays trans account_id).toFinset
    (fun r => day r.trans_date) (day now)
    (fun r => day ((next_date trans account_id r).getD now)) where
  mem r hr := by
    rw [List.mem_toFinset, mem_lastOfDays h.keys] at hr
    cases hnext : next_date trans account_id r with
    | none => exact Or.inl rfl
    | some d =>
      obtain ⟨⟨s, hs, hlt, rfl⟩, -⟩ := h.next_date_spec.mp hnext
      exact Or.inr ⟨s, List.mem_toFinset.mpr ((mem_lastOfDays h.keys).mpr hs),
        (h.date_lt_iff hr hs).mp hlt, rfl⟩
  le_end r hr := by
    cases hnext : next_date trans account_id r with
    | none => exact le_rfl
    | some d =>
      obtain ⟨⟨s, hs, -, rfl⟩, -⟩ := h.next_date_spec.mp hnext
      exact day_mono (h.closed s hs.1)
  le r hr s hs hlt := by
    rw [List.mem_toFinset, mem_lastOfDays h.keys] at hr hs
    have hbehind := (h.date_lt_iff hr hs).mpr hlt
    cases hnext : next_date trans account_id r with
    | none => exact absurd hbehind (h.next_date_none hnext hs)
    | some d => exact day_mono ((h.next_date_spec.mp hnext).2 s hs hbehind)

/-- The days of a row are those between its day and the next. -/
theorem IsHistory.days_eq (hr : LastOfDay trans account_id r) :
    days trans account_id now r =
      (Ico (day r.trans_date) (day ((next_date trans account_id r).getD now))).card := by
  have hle : day r.trans_date ≤ day ((next_date trans account_id r).getD now) := by
    cases hnext : next_date trans account_id r with
    | none => exact day_mono (h.closed r hr.1)
    | some d =>
      obtain ⟨⟨s, -, hlt, rfl⟩, -⟩ := h.next_date_spec.mp hnext
      exact day_mono hlt.le
  rw [days, datediff, Nat.card_Ico]
  omega

/-- The query adds up closing balances. -/
theorem IsHistory.sum_eq :
    ((lastOfDays trans account_id).map fun a => days trans account_id now a * a.balance).sum =
      ∑ x ∈ Ico (day first.trans_date) (day now), closingBalance trans account_id x := by
  have hnodup : (lastOfDays trans account_id).Nodup := (List.Nodup.of_map _ h.keys).filter _
  have hstart : ∀ r ∈ (lastOfDays trans account_id).toFinset,
      day first.trans_date ≤ day r.trans_date := by
    intro r hr
    rw [List.mem_toFinset, mem_lastOfDays h.keys] at hr
    exact day_mono (h.ordered first h.first_mem r hr.1 (h.first_le r hr.1))
  have hinj : Set.InjOn (fun r : TransRow => day r.trans_date)
      (lastOfDays trans account_id).toFinset := by
    intro r hr s hs hday
    rw [mem_coe, List.mem_toFinset, mem_lastOfDays h.keys] at hr hs
    exact h.last_unique hr hs hday
  have hsteps := StepSums.sum_steps hinj hstart h.covers h.follows TransRow.balance
  rw [← List.sum_toFinset _ hnodup]
  calc ∑ r ∈ (lastOfDays trans account_id).toFinset, (days trans account_id now r : ℚ) * r.balance
      = ∑ r ∈ (lastOfDays trans account_id).toFinset,
          (Ico (day r.trans_date) (day ((next_date trans account_id r).getD now))).card •
            r.balance := by
        refine sum_congr rfl ?_
        intro r hr
        rw [List.mem_toFinset, mem_lastOfDays h.keys] at hr
        rw [h.days_eq hr, nsmul_eq_mul, Int.cast_natCast]
    _ = ∑ x ∈ Ico (day first.trans_date) (day now),
          (lastBefore trans account_id first x).balance := hsteps
    _ = ∑ x ∈ Ico (day first.trans_date) (day now), closingBalance trans account_id x := by
        refine sum_congr rfl ?_
        intro x hx
        rw [(lastBefore_spec h.first_mem (mem_Ico.mp hx).1).2]

omit h in
/-- The interest is the rate of a day for each closing balance, from the day of the first row up
to but not including the day of closing. -/
theorem interest_eq (trans : List TransRow) (account_id : ℤ) (first : TransRow) (rate : ℚ)
    (now : ℕ) (h : IsHistory trans account_id first now) :
    interest trans account_id rate now = some (rate / 360 *
      ∑ x ∈ Ico (day first.trans_date) (day now), closingBalance trans account_id x) := by
  have hcover := h.covers.mem _ le_rfl
  have hne : lastOfDays trans account_id ≠ [] := by
    rw [List.mem_toFinset] at hcover
    exact List.ne_nil_of_mem hcover
  simp only [interest, if_neg hne, h.sum_eq]
  congr 1
  ring

end Rows

/-- Two rows on one day, another account's row, and one row ten days later. -/
def sampleTrans : List TransRow :=
  [⟨1, 1, 100, 86400⟩, ⟨2, 1, 250, 90000⟩, ⟨3, 2, 7, 90000⟩, ⟨4, 1, 50, 86400 * 11⟩]

theorem interest_sample :
    interest sampleTrans 1 (7 / 2000) (86400 * 15) = some (7 / 2000 / 360 *
      ∑ x ∈ Ico (day 86400) (day (86400 * 15)), closingBalance sampleTrans 1 x) :=
  interest_eq sampleTrans 1 ⟨1, 1, 100, 86400⟩ (7 / 2000) (86400 * 15)
    { keys := by decide
      first_mem := by decide
      first_le := by decide
      ordered := by decide
      closed := by decide }

end MuduoServer.BankInterest
