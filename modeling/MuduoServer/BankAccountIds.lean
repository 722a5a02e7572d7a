import MuduoServer.BankProtocol
import MuduoServer.BankService
import MuduoServer.BillPages
import MuduoServer.Digits

/-!
The number of an account on its way through the protocol. `OpenAccount` reports the first
six characters of the number with zeros in front; a request carries six characters, which
the server reads with a stream or puts into a statement as they are; a bill shows the first
six digits of the number. All of this is about the same account as long as six digits are
enough.
-/
namespace MuduoServer.BankAccountIds

open BankPackets BankWire BankRequests BankResponses

/-- What `OpenAccount` reports. -/
def reported (account_id : ℤ) : List UInt8 := (idText account_id).take 6

/-- `Convert::StringToInt`; `unset` is the value of the variable that is read. -/
def StringToInt (unset : ℤ) (str : List UInt8) : ℤ :=
  Bank.readInt (str.map fun c => Char.ofNat c.toNat) unset

/-- How MySQL reads the text of `where account_id=<text>`: digits are the number that they
stand for. -/
structure SqlNumber where
  read : List UInt8 → Option ℤ
  read_digits : ∀ (text : List UInt8) (n : ℕ),
    Digits.readDecimal text = some n → read text = some (n : ℤ)

/-- The field `account_id` of the six commands that act on an account. -/
def accountText : Request → Option (List UInt8)
  | .deposit account_id _ => some account_id
  | .withdraw account_id _ _ => some account_id
  | .transfer account_id _ _ _ => some account_id
  | .balanceInquiry account_id _ => some account_id
  | .changePassword account_id _ _ => some account_id
  | .closeAccount account_id _ => some account_id
  | _ => none

/-- The field `other_account_id` of a transfer. -/
def payeeText : Request → Option (List UInt8)
  | .transfer _ _ _ other_account_id => some other_account_id
  | _ => none

section Decode

variable (unset : ℤ) (sql : SqlNumber)

/-- `acc.account_id`: the array of seven characters is used as a C string. -/
def accountId (r : Request) : Option ℤ :=
  (accountText r).map fun text => StringToInt unset (cstr text)

/-- `other_account_id` of `BankService::Transfer`, for the rows of `trans`. -/
def payeeId (r : Request) : Option ℤ := (payeeText r).map fun text => StringToInt unset (cstr text)

/-- The account that the statements with `otherAccountId` in them are about. -/
def payeeClause (r : Request) : Option ℤ := (payeeText r).bind fun text => sql.read (cstr text)

end Decode

/-- What a bill shows denotes the accounts of its row; a row without another account shows none. -/
def Denotes {D : Type} (td : TransDetail D) (row : BillPages.Row) : Prop :=
  Digits.readInt td.account_id = some row.1.account_id ∧
    match row.1.other_account_id with
    | none => td.other_account_id = []
    | some other_account_id => Digits.readInt td.other_account_id = some other_account_id

section Addresses

variable {A : Algorithms} {D : Type} (client server : Host A) (dbl : DoubleText D) (unset : ℤ)
  (sql : SqlNumber)

/-- The accounts with the numbers `ids` are addressed without a mistake. -/
structure Addresses (ids : Set ℤ) : Prop where
  /-- The client has the six characters that `OpenAccount` reports. -/
  reports : ∀ acc : Account D, acc.account_id ∈ ids →
    responseHeadSize + (6 + (2 + acc.op_date.length)) + 8 ≤ bufferSize →
    WireFormat.Reads BankSession.incoming (Client.OpenAccount client)
      (Server.OpenAccount server 0 acc) (answer (D := D) OpenAccount.errors 0
        [("account_id", reported acc.account_id), ("open_date", acc.op_date)])
  /-- The account of a request is decoded to its number. -/
  account : ∀ account_id ∈ ids, ∀ r : Request, r.Widths → r.Fits →
    accountText r = some (reported account_id) →
    WireFormat.Reads BankSession.incoming (BankRequests.Server.receive server)
      (BankRequests.Client.send client r) (some r) ∧ accountId unset r = some account_id
  /-- The payee of a transfer is decoded to its number, and the statements are about it. -/
  payee : ∀ account_id ∈ ids, ∀ r : Request, r.Widths → r.Fits →
    payeeText r = some (reported account_id) →
    WireFormat.Reads BankSession.incoming (BankRequests.Server.receive server)
      (BankRequests.Client.send client r) (some r) ∧
      payeeId unset r = some account_id ∧ payeeClause sql r = some account_id
  /-- The rows of a bill show the accounts concerned. -/
  bills : ∀ (query : BankBills.Query) (total : BitVec 32) (rows : List BillPages.Row),
    (∀ row ∈ rows, row.1.account_id ∈ ids ∧ ∀ other ∈ row.1.other_account_id, other ∈ ids) →
    rows ≠ [] → rows.length < 2 ^ 16 →
    (∀ row ∈ rows, IsDate (BillPages.detail dbl total row).trans_date ∧
      responseHeadSize + BankBills.detailSize dbl (BillPages.detail dbl total row) + 8 ≤
        bufferSize) →
    ∃ shown, WireFormat.Reads BankSession.incoming (query.receive client dbl)
        (query.send server dbl 0 (rows.map (BillPages.detail dbl total)))
        { errorCode_ := 0, errorMsg_ := [], response_ := [], details_ := shown } ∧
      List.Forall₂ Denotes shown rows
  /-- Two accounts are not addressed by the same characters. -/
  distinct : ∀ a ∈ ids, ∀ b ∈ ids, reported a = reported b → a = b

end Addresses

section Texts

variable {account_id : ℤ} {text : List UInt8} {n : ℕ}

theorem length_reported (account_id : ℤ) : (reported account_id).length = 6 := by
  rw [reported, List.length_take, Nat.min_eq_left (length_idText account_id)]

theorem decimal_eq (h : 0 < account_id) : Digits.decimal account_id.natAbs =
    ((Nat.digits 10 account_id.natAbs).map fun d => UInt8.ofNat (48 + d)).reverse := by
  rw [Digits.decimal, Digits.digits, if_neg (by omega), List.map_reverse]
  rfl

theorem idText_eq (h : 0 < account_id) :
    idText account_id = Digits.padded (Digits.digitByte 0) 6 account_id.natAbs := by
  rw [idText, if_neg (by omega), Digits.padded, decimal_eq h]
  rfl

theorem isDigit_of_mem_reported (h : 0 < account_id) {c : UInt8} (hc : c ∈ reported account_id) :
    Digits.IsDigit c := by
  rw [reported, idText_eq h] at hc
  exact Digits.isDigit_of_mem_padded (List.mem_of_mem_take hc)

/-- With up to six digits the whole number is reported. -/
theorem readDecimal_reported (h : 0 < account_id) (hsmall : account_id ≤ 999999) :
    Digits.readDecimal (reported account_id) = some account_id.natAbs := by
  have hlen : (idText account_id).length = 6 := length_idText_of_isId ⟨by omega, by omega⟩
  rw [reported, ← hlen, List.take_length, idText_eq h, Digits.readDecimal_padded]

/-- Six characters are never read as a number with more digits. -/
theorem readDecimal_reported_lt (h : 0 < account_id) :
    ∃ n < 1000000, Digits.readDecimal (reported account_id) = some n := by
  have hlen := length_reported account_id
  have hne : reported account_id ≠ [] := by
    rw [← List.length_pos_iff, hlen]
    omega
  refine ⟨_, ?_, Digits.readDecimal_of_digits hne fun c hc => isDigit_of_mem_reported h hc⟩
  have hlt : ∀ d ∈ (reported account_id).map fun c => c.toNat - 48, d < 10 := by
    intro d hd
    obtain ⟨c, hc, rfl⟩ := List.mem_map.mp hd
    have hdigit := isDigit_of_mem_reported h hc
    unfold Digits.IsDigit at hdigit
    omega
  have hvalue := Digits.value_lt (by omega) hlt
  rwa [List.length_map, hlen] at hvalue

theorem cstr_reported (account_id : ℤ) : cstr (reported account_id) = reported account_id :=
  cstr_of_notMem fun hmem => zero_notMem_idText account_id (List.mem_of_mem_take hmem)

/-- A digit as a character of the stream. -/
theorem char_of_digit {c : UInt8} (h : Digits.IsDigit c) :
    ('0' ≤ Char.ofNat c.toNat ∧ Char.ofNat c.toNat ≤ '9') ∧
      (Char.ofNat c.toNat).toNat = c.toNat := by
  have hall : ∀ n < 58, 48 ≤ n →
      ('0' ≤ Char.ofNat n ∧ Char.ofNat n ≤ '9') ∧ (Char.ofNat n).toNat = n := by decide
  unfold Digits.IsDigit at h
  exact hall c.toNat (by omega) h.1

theorem digits_eq (hdigits : ∀ c ∈ text, Digits.IsDigit c) (n : ℕ) :
    Bank.digits (text.map fun c => Char.ofNat c.toNat) n =
      (text.map fun c => c.toNat - 48).foldl (fun n d => 10 * n + d) n := by
  induction text generalizing n with
  | nil => rfl
  | cons c text ih =>
    obtain ⟨hrange, htoNat⟩ := char_of_digit (hdigits c List.mem_cons_self)
    have hzero : '0'.toNat = 48 := rfl
    rw [List.map_cons, Bank.digits, if_pos hrange, htoNat, hzero, Nat.mul_comm,
      ih (fun c hc => hdigits c (List.mem_cons_of_mem _ hc))]
    rfl

/-- A digit is neither a blank nor a sign. -/
theorem lead_of_digit {c : UInt8} (h : Digits.IsDigit c) :
    (Char.ofNat c.toNat).toNat ∉ [9, 10, 11, 12, 13, 32] ∧
      Char.ofNat c.toNat ≠ '-' ∧ Char.ofNat c.toNat ≠ '+' := by
  obtain ⟨-, htoNat⟩ := char_of_digit h
  unfold Digits.IsDigit at h
  refine ⟨?_, ?_, ?_⟩
  · rw [htoNat]
    simp only [List.mem_cons, List.not_mem_nil, or_false]
    omega
  · intro heq
    rw [heq] at htoNat
    have hminus : '-'.toNat = 45 := rfl
    omega
  · intro heq
    rw [heq] at htoNat
    have hplus : '+'.toNat = 43 := rfl
    omega

/-- A stream reads digits as the number that they stand for. -/
theorem StringToInt_digits (unset : ℤ) (h : Digits.readDecimal text = some n) :
    StringToInt unset text = n := by
  obtain ⟨hne, hdigits, rfl⟩ := Digits.readDecimal_eq_some.mp h
  rw [Digits.value, ← digits_eq hdigits 0]
  cases text with
  | nil => exact absurd rfl hne
  | cons c text =>
    have hdigit := hdigits c List.mem_cons_self
    obtain ⟨hblank, hminus, hplus⟩ := lead_of_digit hdigit
    rw [StringToInt, List.map_cons, Bank.readInt,
      List.dropWhile_cons_of_neg (by simpa using hblank)]
    split
    · rename_i hhead
      exact absurd (List.cons.inj hhead).1 hminus
    · rename_i hhead
      exact absurd (List.cons.inj hhead).1 hplus
    · rename_i hhead
      obtain ⟨hc, hcs⟩ := List.cons.inj hhead
      rw [← hc, ← hcs, if_pos (char_of_digit hdigit).1]
    · rename_i hhead
      exact absurd hhead (by simp)

theorem intText_eq (h : 0 < account_id) :
    BillPages.intText account_id = Digits.decimalInt account_id := by
  have hpos : 0 < (Digits.decimal account_id.natAbs).length := by
    rw [Digits.length_decimal]
    exact List.length_pos_iff.mpr (Digits.digits_canonical (by omega) _).nonempty
  rw [BillPages.intText, if_neg (by omega), Digits.decimalInt, Digits.sign, if_neg (by omega),
    List.nil_append, BillPages.padded, ← decimal_eq h]
  rw [show 1 - (Digits.decimal account_id.natAbs).length = 0 by omega]
  rfl

/-- A bill has room for six digits. -/
theorem intText_width (h : 0 < account_id) (hsmall : account_id ≤ 999999) :
    (BillPages.intText account_id).length ≤ 6 ∧ 0 ∉ BillPages.intText account_id := by
  have hlen := Digits.length_decimal_le (n := account_id.natAbs) (k := 6) (by omega) (by omega)
  rw [intText_eq h, Digits.decimalInt, Digits.sign, if_neg (by omega), List.nil_append]
  refine ⟨hlen, ?_⟩
  intro hmem
  have hdigit := Digits.isDigit_of_mem hmem
  exact absurd hdigit (by decide)

end Texts

section Addresses

variable {A : Algorithms} {D : Type} {client server : Host A} {dbl : DoubleText D} {unset : ℤ}
  {sql : SqlNumber} {ids : Set ℤ}

/-- The numbers that the database assigns. -/
def Assigned (account_id : ℤ) : Prop := 0 < account_id ∧ account_id ≤ 2147483647

theorem StringToInt_reported {account_id : ℤ} (h : 0 < account_id) (hsmall : account_id ≤ 999999) :
    StringToInt unset (cstr (reported account_id)) = account_id := by
  rw [cstr_reported, StringToInt_digits unset (readDecimal_reported h hsmall)]
  omega

theorem detail_widths {row : BillPages.Row} {total : BitVec 32}
    (hrow : (0 < row.1.account_id ∧ row.1.account_id ≤ 999999) ∧
      ∀ other ∈ row.1.other_account_id, 0 < other ∧ other ≤ 999999)
    (hdate : IsDate (BillPages.detail dbl total row).trans_date)
    (hfits : responseHeadSize + BankBills.detailSize dbl (BillPages.detail dbl total row) + 8 ≤
      bufferSize) : BankBills.Widths dbl (BillPages.detail dbl total row) where
  trans_date := hdate
  account_id := intText_width hrow.1.1 hrow.1.2
  other_account_id := by
    unfold BillPages.detail
    cases hother : row.1.other_account_id with
    | none => exact ⟨Nat.zero_le 6, List.not_mem_nil⟩
    | some other =>
      obtain ⟨hpos, hsmall⟩ := hrow.2 other hother
      exact intText_width hpos hsmall
  fits := hfits

theorem denotes_detail {row : BillPages.Row} (total : BitVec 32) (hpos : 0 < row.1.account_id)
    (hother : ∀ other ∈ row.1.other_account_id, 0 < other) :
    Denotes (BankBills.received dbl (BillPages.detail dbl total row)) row := by
  refine ⟨?_, ?_⟩
  · change Digits.readInt (BillPages.intText row.1.account_id) = _
    rw [intText_eq hpos, Digits.readInt_decimalInt]
  · simp only [BankBills.received, BillPages.detail]
    cases hcase : row.1.other_account_id with
    | none => rfl
    | some other =>
      change Digits.readInt (BillPages.intText other) = some other
      rw [intText_eq (hother other hcase), Digits.readInt_decimalInt]

theorem bill_denotes (query : BankBills.Query) (total : BitVec 32) {rows : List BillPages.Row}
    (hrows : ∀ row ∈ rows, (0 < row.1.account_id ∧ row.1.account_id ≤ 999999) ∧
      ∀ other ∈ row.1.other_account_id, 0 < other ∧ other ≤ 999999)
    (hne : rows ≠ []) (hlen : rows.length < 2 ^ 16)
    (hfits : ∀ row ∈ rows, IsDate (BillPages.detail dbl total row).trans_date ∧
      responseHeadSize + BankBills.detailSize dbl (BillPages.detail dbl total row) + 8 ≤
        bufferSize) :
    ∃ shown, WireFormat.Reads BankSession.incoming (query.receive client dbl)
        (query.send server dbl 0 (rows.map (BillPages.detail dbl total)))
        { errorCode_ := 0, errorMsg_ := [], response_ := [], details_ := shown } ∧
      List.Forall₂ Denotes shown rows := by
  have hsendable : BankBills.Sendable dbl (rows.map (BillPages.detail dbl total)) := by
    refine ⟨?_, ?_, ?_⟩
    · rw [List.length_map]
      exact List.length_pos_iff.mpr hne
    · rw [List.length_map]
      exact Nat.le_of_lt_succ hlen
    · intro td htd
      obtain ⟨row, hrow, rfl⟩ := List.mem_map.mp htd
      exact detail_widths (hrows row hrow) (hfits row hrow).1 (hfits row hrow).2
  refine ⟨(rows.map (BillPages.detail dbl total)).map (BankBills.received dbl),
    BankBills.receive_query query client server dbl 0 _ fun _ => hsendable, ?_⟩
  rw [List.map_map, List.forall₂_map_left_iff, List.forall₂_same]
  intro row hrow
  exact denotes_detail total (hrows row hrow).1.1 fun other hother =>
    ((hrows row hrow).2 other hother).1

theorem addresses_of_small (hids : ∀ account_id ∈ ids, 0 < account_id ∧ account_id ≤ 999999) :
    Addresses client server dbl unset sql ids where
  reports acc _ hfits := receive_openAccount_cut client server 0 acc hfits
  account account_id hid r hwidths hrfits htext := by
    refine ⟨BankRequests.receive_send client server r hwidths hrfits, ?_⟩
    rw [accountId, htext, Option.map_some,
      StringToInt_reported (hids account_id hid).1 (hids account_id hid).2]
  payee account_id hid r hwidths hrfits htext := by
    obtain ⟨hpos, hsmall⟩ := hids account_id hid
    refine ⟨BankRequests.receive_send client server r hwidths hrfits, ?_, ?_⟩
    · rw [payeeId, htext, Option.map_some, StringToInt_reported hpos hsmall]
    · have hread := sql.read_digits _ _ (readDecimal_reported hpos hsmall)
      rw [payeeClause, htext, Option.bind_some, cstr_reported, hread,
        Int.natAbs_of_nonneg (by omega)]
  bills query total rows hrows hne hlen hfits := by
    refine bill_denotes query total (fun row hrow => ?_) hne hlen hfits
    obtain ⟨hid, hother⟩ := hrows row hrow
    exact ⟨hids _ hid, fun other hmem => hids other (hother other hmem)⟩
  distinct a ha b hb heq := by
    have hread : ∀ c ∈ ids, StringToInt unset (cstr (reported c)) = c :=
      fun c hc => StringToInt_reported (hids c hc).1 (hids c hc).2
    rw [← hread a ha, heq, hread b hb]

/-- A balance inquiry shows what the server makes of six characters. -/
theorem Addresses.le (h : Addresses client server dbl unset sql ids) {account_id : ℤ}
    (hid : account_id ∈ ids) (hpos : 0 < account_id) : account_id ≤ 999999 := by
  have hwidths : (Request.balanceInquiry (reported account_id) []).Widths :=
    ⟨length_reported account_id, Nat.zero_le 15, List.not_mem_nil⟩
  have hfits : (Request.balanceInquiry (reported account_id) []).Fits := by
    simp only [Request.Fits, Request.size, requestHeadSize, bufferSize]
    omega
  have hdecoded := (h.account account_id hid _ hwidths hfits rfl).2
  obtain ⟨n, hn, hread⟩ := readDecimal_reported_lt hpos
  have hvalue : some (StringToInt unset (cstr (reported account_id))) = some account_id := hdecoded
  rw [cstr_reported, StringToInt_digits unset hread] at hvalue
  have heq := Option.some.inj hvalue
  omega

/-- Accounts are addressed as they are meant exactly as long as their numbers have up to six
digits. -/
theorem addresses_iff (client server : Host A) (dbl : DoubleText D) (unset : ℤ) (sql : SqlNumber)
    (ids : Set ℤ) (hids : ∀ account_id ∈ ids, Assigned account_id) :
    Addresses client server dbl unset sql ids ↔ ∀ account_id ∈ ids, account_id ≤ 999999 := by
  constructor
  · intro h account_id hid
    exact h.le hid (hids account_id hid).1
  · intro hsmall
    exact addresses_of_small fun account_id hid => ⟨(hids account_id hid).1, hsmall account_id hid⟩

/-- MySQL, as far as digits are concerned. -/
def plainSql : SqlNumber where
  read text := (Digits.readDecimal text).map fun n => (n : ℤ)
  read_digits text n h := by rw [h]; rfl

theorem addresses_first :
    Addresses (BankBills.plainHost .little) (BankBills.plainHost .big) BankBills.wholes 0 plainSql
      {1} ↔ ∀ account_id ∈ ({1} : Set ℤ), account_id ≤ 999999 :=
  addresses_iff (BankBills.plainHost .little) (BankBills.plainHost .big) BankBills.wholes 0
    plainSql {1} (by rintro account_id rfl; exact ⟨by decide, by decide⟩)

/-- The account 1000000 is reported as `100000`. -/
theorem seven_digits_cut :
    ¬ ∀ (A : Algorithms) (D : Type) (client server : Host A) (dbl : DoubleText D) (unset : ℤ)
      (sql : SqlNumber) (ids : Set ℤ), (∀ account_id ∈ ids, Assigned account_id) →
      Addresses client server dbl unset sql ids := by
  intro hall
  have h := hall _ _ (BankBills.plainHost .little) (BankBills.plainHost .big) BankBills.wholes 0
    plainSql {1000000} (by rintro account_id rfl; exact ⟨by decide, by decide⟩)
  have hle : (1000000 : ℤ) ≤ 999999 := h.le rfl (by decide)
  exact absurd hle (by decide)

end Addresses

end MuduoServer.BankAccountIds
