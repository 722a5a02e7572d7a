import MuduoServer.BankBills
import MuduoServer.TiedPages
import Mathlib.Data.Int.Interval
import Mathlib.Data.List.Nodup

/-!
The pages of a bill. `BankService` counts the transactions that match and then selects those
of one page, 15 in the order of their dates. The dates have seconds, and each page is a query
of its own, so MySQL may return transactions of one second in another order for every page.
-/
namespace MuduoServer.BillPages

open TiedPages BankResponses

/-- A row of `trans`, with its amounts in cents and its date as the number `YYYYMMDDhhmmss`. -/
structure TransRow where
  trans_id : ℤ
  account_id : ℤ
  other_account_id : Option ℤ
  abstract_id : ℤ
  money : ℤ
  balance : ℤ
  trans_date : ℕ

/-- The tables of `crebas.sql`: `trans_id` is the `int` that is the key of `trans`, and every
`abstract_id` is in `abstract`. -/
structure Tables where
  trans : List TransRow
  abstracts : ℤ → Option (List UInt8)
  keys : (trans.map TransRow.trans_id).Nodup
  ints : ∀ r ∈ trans, 0 < r.trans_id ∧ r.trans_id ≤ 2147483647
  foreign : ∀ r ∈ trans, (abstracts r.abstract_id).isSome

section Texts

/-- The decimal digits of a number, filled up with zeros. -/
def padded (width n : ℕ) : List UInt8 :=
  let digits := ((Nat.digits 10 n).map fun d => UInt8.ofNat (48 + d)).reverse
  List.replicate (width - digits.length) 48 ++ digits

def intText (x : ℤ) : List UInt8 :=
  if x < 0 then 45 :: padded 1 x.natAbs else padded 1 x.natAbs

/-- A `decimal(10,2)`. -/
def centsText (cents : ℤ) : List UInt8 :=
  let text := padded 1 (cents.natAbs / 100) ++ 46 :: padded 2 (cents.natAbs % 100)
  if cents < 0 then 45 :: text else text

/-- `date_format(trans_date, '%Y-%m-%d')` -/
def date_format (trans_date : ℕ) : List UInt8 :=
  padded 4 (trans_date / 10000000000) ++ 45 :: padded 2 (trans_date / 100000000 % 100) ++
    45 :: padded 2 (trans_date / 1000000 % 100)

def dateText (trans_date : ℕ) : List UInt8 :=
  date_format trans_date ++ 32 :: padded 2 (trans_date / 10000 % 100) ++
    58 :: padded 2 (trans_date / 100 % 100) ++ 58 :: padded 2 (trans_date % 100)

end Texts

/-- A row of `(select * from trans where …) a, abstract b where a.abstract_id = b.abstract_id`. -/
abbrev Row := TransRow × List UInt8

def join (db : Tables) (cond : TransRow → Bool) : List Row :=
  (db.trans.filter cond).filterMap fun r => (db.abstracts r.abstract_id).map fun name => (r, name)

/-- `page*15`, an `int`, as the offset of `limit`; a negative one is an error. -/
def offset (page : BitVec 32) : Option ℕ :=
  if (page * 15).toInt < 0 then none else some (page * 15).toInt.toNat

/-- What `limit page*15, 15` leaves of the rows in the order in which MySQL returns them. -/
def recordset (page : BitVec 32) (o : List Row) : List Row :=
  match offset page with
  | none => []
  | some i => (o.drop i).take 15

section Queries

variable {D : Type} (dbl : DoubleText D)

def detail (total : BitVec 32) (row : Row) : TransDetail D where
  account_id := intText row.1.account_id
  other_account_id := (row.1.other_account_id.map intText).getD []
  abstract_name := row.2
  money := dbl.StringToDouble (centsText row.1.money)
  balance := dbl.StringToDouble (centsText row.1.balance)
  trans_date := dateText row.1.trans_date
  total := total

variable (db : Tables)

/-- The three queries; `o` is the order of the rows in the second statement. -/
def queryBill (cond : TransRow → Bool) (page : BitVec 32) (o : List Row) :
    ℤ × List (TransDetail D) :=
  let total := BitVec.ofInt 32 (join db cond).length
  match offset page with
  | none => (-1, [])
  | some _ =>
    let rs := recordset page o
    if rs.length < 1 then (6, []) else (0, rs.map (detail dbl total))

def QueryDayBill (page : BitVec 32) (date : List UInt8) : List Row → ℤ × List (TransDetail D) :=
  queryBill dbl db (fun r => date_format r.trans_date = date) page

def between (x begin_date end_date : List UInt8) : Bool := begin_date ≤ x ∧ x ≤ end_date

def QueryHistoryBill (page : BitVec 32) (begin_date end_date : List UInt8) :
    List Row → ℤ × List (TransDetail D) :=
  queryBill dbl db (fun r => between (date_format r.trans_date) begin_date end_date) page

/-- `equalsText` is how MySQL compares `account_id` with the text that the statement has for it. -/
def QueryAccountHistoryBill (equalsText : ℤ → List UInt8 → Bool) (page : BitVec 32)
    (accountId begin_date end_date : List UInt8) : List Row → ℤ × List (TransDetail D) :=
  queryBill dbl db (fun r => equalsText r.account_id accountId ∧
    between (date_format r.trans_date) begin_date end_date) page

end Queries

/-- The transactions that match. -/
def matching (db : Tables) (cond : TransRow → Bool) : List TransRow := db.trans.filter cond

/-- When `order by a.trans_date` leaves MySQL an order of the rows. -/
def OrderByDate (db : Tables) (cond : TransRow → Bool) (o : List Row) : Prop :=
  Ordered (fun row : Row => row.1.trans_date) (join db cond) o

section Rows

variable (db : Tables) (cond : TransRow → Bool)

/-- Every transaction has its abstract, so the join loses none and doubles none. -/
theorem map_fst_join : (join db cond).map Prod.fst = matching db cond := by
  have hforeign : ∀ r ∈ matching db cond, (db.abstracts r.abstract_id).isSome :=
    fun r hr => db.foreign r (List.mem_of_mem_filter hr)
  change ((matching db cond).filterMap _).map Prod.fst = matching db cond
  generalize matching db cond = rows at hforeign ⊢
  induction rows with
  | nil => rfl
  | cons r rows ih =>
    obtain ⟨name, hname⟩ := Option.isSome_iff_exists.mp (hforeign r (List.mem_cons_self ..))
    rw [List.filterMap_cons_some (by rw [hname]; rfl), List.map_cons,
      ih fun x hx => hforeign x (List.mem_cons_of_mem r hx)]

theorem length_join : (join db cond).length = (matching db cond).length := by
  rw [← map_fst_join, List.length_map]

theorem nodup_matching : (matching db cond).Nodup :=
  (db.keys.of_map _).filter _

/-- There are not more transactions than positive numbers of type `int`. -/
theorem length_matching_le : (matching db cond).length ≤ 2147483647 := by
  have hle : (matching db cond).length ≤ (db.trans.map TransRow.trans_id).length := by
    rw [List.length_map]
    exact List.length_filter_le _ _
  have hsub : (db.trans.map TransRow.trans_id).toFinset ⊆ Finset.Icc 1 2147483647 := by
    intro x hx
    obtain ⟨r, hr, rfl⟩ := List.mem_map.mp (List.mem_toFinset.mp hx)
    have hints := db.ints r hr
    exact Finset.mem_Icc.mpr ⟨by omega, hints.2⟩
  have hcard := Finset.card_le_card hsub
  rw [List.toFinset_card_of_nodup db.keys, Int.card_Icc] at hcard
  omega

theorem straddles_join (d i : ℕ) :
    Straddles (fun row : Row => row.1.trans_date) (join db cond) d i ↔
      Straddles TransRow.trans_date (matching db cond) d i := by
  rw [Straddles, Straddles, ← map_fst_join, List.countP_map, List.countP_map]
  rfl

end Rows

/-- The offsets that an `int` holds. -/
theorem offset_of_le {p : ℕ} (h : 15 * p ≤ 2147483647) :
    offset (BitVec.ofNat 32 p) = some (15 * p) := by
  have hnat : (BitVec.ofNat 32 p * 15).toNat = 15 * p := by
    rw [BitVec.toNat_mul, BitVec.toNat_ofNat, Nat.mod_eq_of_lt (a := p) (by omega)]
    change p * 15 % 4294967296 = 15 * p
    omega
  have hvalue : (BitVec.ofNat 32 p * 15).toInt = ((15 * p : ℕ) : ℤ) := by
    rw [BitVec.toInt_eq_toNat_of_lt (by omega), hnat]
  rw [offset, hvalue, if_neg (by omega), Int.toNat_natCast]

/-- The first page whose offset is too large for an `int`. -/
theorem offset_overflow : offset (BitVec.ofNat 32 143165577) = none := by decide

section Pages

variable {D : Type} (select : BitVec 32 → List Row → ℤ × List (TransDetail D))
  (os : ℕ → List Row)

/-- The rows and the result of the query for the page with the number `p`. -/
def rowsOf (p : ℕ) : List Row := recordset (BitVec.ofNat 32 p) (os p)

def answerOf (p : ℕ) : ℤ × List (TransDetail D) := select (BitVec.ofNat 32 p) (os p)

/-- The pages in front of the empty one with the number `n` hold every transaction of `rows` once,
and what they return tells how many they are. -/
structure Partition (rows : List TransRow) (n : ℕ) : Prop where
  full : ∀ p, p < n → (answerOf select os p).1 = 0
  empty : (answerOf select os n).1 = 6
  rows : (((List.range n).flatMap (rowsOf os)).map Prod.fst).Perm rows
  total : ∀ p, p < n → ∀ td ∈ (answerOf select os p).2,
    td.total.toNat = ((List.range n).flatMap fun p => (answerOf select os p).2).length

variable {dbl : DoubleText D} {db : Tables} {cond : TransRow → Bool} {os} {p n : ℕ}

theorem rowsOf_eq (hp : 15 * p ≤ 2147483647) : rowsOf os p = page 15 (os p) p := by
  rw [rowsOf, recordset, offset_of_le hp, page]

theorem answerOf_eq (hp : 15 * p ≤ 2147483647) : answerOf (queryBill dbl db cond) os p =
    if (rowsOf os p).length < 1 then (6, []) else
      (0, (rowsOf os p).map (detail dbl (BitVec.ofInt 32 (join db cond).length))) := by
  rw [answerOf, queryBill, offset_of_le hp]
  rfl

theorem length_page (os : ℕ → List Row) (p : ℕ) :
    (page 15 (os p) p).length = min 15 ((os p).length - 15 * p) := by
  rw [page, List.length_take, List.length_drop]

theorem length_details (hp : 15 * p ≤ 2147483647) :
    (answerOf (queryBill dbl db cond) os p).2.length = (rowsOf os p).length := by
  rw [answerOf_eq hp]
  by_cases hnone : (rowsOf os p).length < 1
  · rw [if_pos hnone]
    simp only [List.length_nil]
    omega
  · rw [if_neg hnone, List.length_map]

variable (hos : ∀ p, OrderByDate db cond (os p))
include hos

theorem length_order (p : ℕ) : (os p).length = (matching db cond).length := by
  rw [(hos p).perm.length_eq, length_join]

/-- A page is full of rows or empty by its number. -/
theorem code_eq (hp : 15 * p ≤ 2147483647) :
    (answerOf (queryBill dbl db cond) os p).1 =
      if 15 * p < (matching db cond).length then 0 else 6 := by
  have hlen := length_page os p
  rw [length_order hos] at hlen
  rw [answerOf_eq hp, rowsOf_eq hp]
  by_cases hmore : 15 * p < (matching db cond).length
  · rw [if_neg (by omega), if_pos hmore]
  · rw [if_pos (by omega), if_neg hmore]

/-- The pages partition the result if no second lies across the end of a page. -/
theorem partition_of_uncut
    (hcut : ∀ k d, ¬ Straddles TransRow.trans_date (matching db cond) d (15 * k))
    (hlen : (matching db cond).length ≤ 2147483640) :
    Partition (queryBill dbl db cond) os (matching db cond)
      (((matching db cond).length + 14) / 15) := by
  let n := ((matching db cond).length + 14) / 15
  have hpages : ∀ p, p < n + 1 → 15 * p ≤ 2147483647 := by
    intro p hp
    omega
  have hrows : ((List.range n).flatMap (rowsOf os)).Perm (join db cond) := by
    have hsame : (List.range n).flatMap (rowsOf os) =
        (List.range n).flatMap fun p => page 15 (os p) p := by
      refine List.flatMap_congr fun p hp => rowsOf_eq (hpages p ?_)
      have hlt := List.mem_range.mp hp
      omega
    have hcut' : ∀ k d, ¬ Straddles (fun row : Row => row.1.trans_date) (join db cond) d (15 * k) :=
      fun k d hstraddles => hcut k d ((straddles_join db cond d _).mp hstraddles)
    have hperm := pages_perm hos hcut' n (os 0) (hos 0)
    rw [List.take_of_length_le (by rw [length_order hos]; omega)] at hperm
    rw [hsame]
    exact hperm.trans (hos 0).perm
  have hdetails :
      ((List.range n).flatMap fun p => (answerOf (queryBill dbl db cond) os p).2).length =
        (matching db cond).length := by
    rw [List.length_flatMap, ← length_join, ← hrows.length_eq, List.length_flatMap]
    refine congrArg List.sum (List.map_congr_left fun p hp => length_details (hpages p ?_))
    have hlt := List.mem_range.mp hp
    omega
  refine ⟨fun p hp => ?_, ?_, ?_, fun p hp td htd => ?_⟩
  · rw [code_eq hos (hpages p (by omega)), if_pos (by omega)]
  · rw [code_eq hos (hpages _ (Nat.lt_succ_self n)), if_neg (by omega)]
  · have hmap := hrows.map Prod.fst
    rwa [map_fst_join] at hmap
  · rw [hdetails]
    rw [answerOf_eq (hpages p (by omega))] at htd
    split at htd
    · cases htd
    · obtain ⟨row, -, rfl⟩ := List.mem_map.mp htd
      change (BitVec.ofInt 32 (join db cond).length).toNat = _
      rw [length_join, BitVec.ofInt_natCast, BitVec.toNat_ofNat, Nat.mod_eq_of_lt (by omega)]

/-- Without an empty page there is nothing up to which to read. -/
theorem length_of_partition (h : Partition (queryBill dbl db cond) os (matching db cond) n) :
    (matching db cond).length ≤ 2147483640 := by
  by_contra hlong
  have hempty := h.empty
  by_cases hlt : n < 143165577
  · rw [code_eq hos (by omega), if_pos (by omega)] at hempty
    cases hempty
  · have hcode : (answerOf (queryBill dbl db cond) os 143165577).1 = -1 := by
      rw [answerOf, queryBill, offset_overflow]
    by_cases heq : n = 143165577
    · rw [heq, hcode] at hempty
      cases hempty
    · have hfull := h.full 143165577 (by omega)
      rw [hcode] at hfull
      cases hfull

end Pages

section Exact

variable {D : Type} {dbl : DoubleText D} {db : Tables} {cond : TransRow → Bool}

/-- A second across the end of a page lets a transaction be on two pages. -/
theorem uncut_of_partition
    (h : ∀ os, (∀ p, OrderByDate db cond (os p)) →
      ∃ n, Partition (queryBill dbl db cond) os (matching db cond) n) (k d : ℕ) :
    ¬ Straddles TransRow.trans_date (matching db cond) d (15 * k) := by
  intro hcut
  have hstraddles := (straddles_join db cond d (15 * k)).mpr hcut
  have hk : 1 ≤ k := by
    have hpos := hcut.1
    omega
  have hbehind : 15 * k < (matching db cond).length := hcut.2.trans_le List.countP_le_length
  rw [show 15 * k = 15 * k - 1 + 1 by omega] at hstraddles
  obtain ⟨o, o', row, ho, ho', hlast, hfirst⟩ := exists_twice hstraddles
  rw [show 15 * k - 1 + 1 = 15 * k by omega] at hfirst
  let os : ℕ → List Row := fun p => if p = k then o' else o
  have hos : ∀ p, OrderByDate db cond (os p) := by
    intro p
    by_cases hp : p = k
    · simp only [os, if_pos hp]
      exact ho'
    · simp only [os, if_neg hp]
      exact ho
  obtain ⟨n, hpart⟩ := h os hos
  have hlen := length_of_partition hos hpart
  have hkn : k < n := by
    by_contra hle
    have hempty := hpart.empty
    rw [code_eq hos (by omega), if_pos (by omega)] at hempty
    cases hempty
  -- the row is the last of one page and the first of the next
  have hleft : row ∈ rowsOf os (k - 1) := by
    rw [rowsOf_eq (by omega), page]
    simp only [os, if_neg (show k - 1 ≠ k by omega)]
    refine List.mem_of_getElem? (i := 14) ?_
    rw [List.getElem?_take_of_lt (by decide), List.getElem?_drop,
      show 15 * (k - 1) + 14 = 15 * k - 1 by omega]
    exact hlast
  have hright : row ∈ rowsOf os k := by
    rw [rowsOf_eq (by omega), page]
    simp only [os, if_true]
    refine List.mem_of_getElem? (i := 0) ?_
    rw [List.getElem?_take_of_lt (by decide), List.getElem?_drop, Nat.add_zero]
    exact hfirst
  have hnodup : ((List.range n).flatMap (rowsOf os)).Nodup := by
    refine List.Nodup.of_map Prod.fst ?_
    exact hpart.rows.nodup_iff.mpr (nodup_matching db cond)
  obtain ⟨-, hdisjoint⟩ := List.nodup_flatMap.mp hnodup
  have happart := List.pairwise_iff_getElem.mp hdisjoint (k - 1) k
    (by rw [List.length_range]; omega) (by rw [List.length_range]; omega) (by omega)
  rw [Function.onFun, List.getElem_range, List.getElem_range] at happart
  exact happart hleft hright

theorem queryBill_partition_iff : (∀ os, (∀ p, OrderByDate db cond (os p)) →
      ∃ n, Partition (queryBill dbl db cond) os (matching db cond) n) ↔
    (∀ k d, ¬ Straddles TransRow.trans_date (matching db cond) d (15 * k)) ∧
      (matching db cond).length ≤ 2147483640 := by
  constructor
  · intro h
    refine ⟨uncut_of_partition h, ?_⟩
    obtain ⟨o, ho⟩ := exists_ordered (fun row : Row => row.1.trans_date) (join db cond)
    obtain ⟨n, hpart⟩ := h (fun _ => o) fun _ => ho
    exact length_of_partition (fun _ => ho) hpart
  · rintro ⟨hcut, hlen⟩ os hos
    exact ⟨_, partition_of_uncut hos hcut hlen⟩

end Exact

/-- A request for a bill, less its page. -/
inductive Query
  | day (date : List UInt8)
  | history (begin_date end_date : List UInt8)
  | accountHistory (accountId begin_date end_date : List UInt8)

/-- The `where` clause. -/
def Query.cond (equalsText : ℤ → List UInt8 → Bool) : Query → TransRow → Bool
  | .day date => fun r => date_format r.trans_date = date
  | .history begin_date end_date => fun r => between (date_format r.trans_date) begin_date end_date
  | .accountHistory accountId begin_date end_date => fun r => equalsText r.account_id accountId ∧
      between (date_format r.trans_date) begin_date end_date

def Query.select {D : Type} (dbl : DoubleText D) (db : Tables)
    (equalsText : ℤ → List UInt8 → Bool) (query : Query) (page : BitVec 32) :
    List Row → ℤ × List (TransDetail D) :=
  match query with
  | .day date => QueryDayBill dbl db page date
  | .history begin_date end_date => QueryHistoryBill dbl db page begin_date end_date
  | .accountHistory accountId begin_date end_date =>
    QueryAccountHistoryBill dbl db equalsText page accountId begin_date end_date

theorem Query.select_eq {D : Type} (dbl : DoubleText D) (db : Tables)
    (equalsText : ℤ → List UInt8 → Bool) (query : Query) :
    query.select dbl db equalsText = queryBill dbl db (query.cond equalsText) := by
  cases query <;> rfl

/-- In every order that MySQL may choose for each page the pages partition the matching
transactions, exactly if no second lies across the end of a page and every offset is an `int`. -/
theorem pages_partition_iff {D : Type} (dbl : DoubleText D) (db : Tables)
    (equalsText : ℤ → List UInt8 → Bool) (query : Query) :
    (∀ os, (∀ p, OrderByDate db (query.cond equalsText) (os p)) →
      ∃ n, Partition (query.select dbl db equalsText) os
        (matching db (query.cond equalsText)) n) ↔
    (∀ k d, ¬ Straddles TransRow.trans_date (matching db (query.cond equalsText)) d (15 * k)) ∧
      (matching db (query.cond equalsText)).length ≤ 2147483640 := by
  rw [query.select_eq]
  exact queryBill_partition_iff

/-- Sixteen deposits in one second. -/
def oneSecond : Tables where
  trans := (List.range 16).map fun i =>
    { trans_id := i + 1, account_id := 1, other_account_id := none, abstract_id := 1, money := 500,
      balance := 500, trans_date := 20140302100000 }
  abstracts _ := some []
  keys := by decide
  ints := by decide
  foreign := by decide

/-- One of them can be on both pages. -/
theorem second_is_cut : ¬ ∀ (db : Tables) (equalsText : ℤ → List UInt8 → Bool) (query : Query)
    (os : ℕ → List Row), (∀ p, OrderByDate db (query.cond equalsText) (os p)) →
      ∃ n, Partition (query.select BankBills.wholes db equalsText) os
        (matching db (query.cond equalsText)) n := by
  intro hall
  let query := Query.history [] [255]
  have hcut : Straddles TransRow.trans_date (matching oneSecond (query.cond fun _ _ => true))
      20140302100000 (15 * 1) := ⟨by decide, by decide⟩
  refine @uncut_of_partition _ BankBills.wholes _ _ (fun os hos => ?_) 1 20140302100000 hcut
  have h := hall oneSecond (fun _ _ => true) query os hos
  rwa [query.select_eq] at h

end MuduoServer.BillPages
