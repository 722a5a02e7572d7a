import MuduoServer.BankService

/-!
What the credential checks of `BankService` compare. Name and password of a teller stand in
the statement between quotes, so they are the strings that MySQL reads there, with its escapes;
the password of an account stands in its statement as it is, so it is an expression, and one
that is a number is compared as a number. What MySQL makes of other texts is left open.
-/
namespace MuduoServer.BankCredentials

open Bank

/-- A row of `teller`. -/
structure Teller where
  teller_name : Text
  teller_pass : Text
  deriving DecidableEq

/-- The single quote and the backslash. -/
def quote : Char := Char.ofNat 39
def backslash : Char := Char.ofNat 92

/-- A character behind a backslash in a string of MySQL. -/
def unescape (c : Char) : Text :=
  if c = '0' then [Char.ofNat 0]
  else if c = 'b' then [Char.ofNat 8]
  else if c = 't' then [Char.ofNat 9]
  else if c = 'n' then [Char.ofNat 10]
  else if c = 'r' then [Char.ofNat 13]
  else if c = 'Z' then [Char.ofNat 26]
  else if c = '%' ∨ c = '_' then [backslash, c]
  else [c]

/-- The string behind an opening quote, and the text behind its closing quote. A quote is
written in a string by writing it twice. -/
def readString : Text → Option (Text × Text)
  | [] => none
  | [c] => if c = quote then some ([], []) else none
  | c :: d :: rest =>
    if c = quote then
      if d = quote then (readString rest).map fun r => (quote :: r.1, r.2) else some ([], d :: rest)
    else if c = backslash then (readString rest).map fun r => (unescape d ++ r.1, r.2)
    else (readString (d :: rest)).map fun r => (c :: r.1, r.2)

/-- The text behind `front`. -/
def behind (front text : Text) : Option Text :=
  if front <+: text then some (text.drop front.length) else none

def digitsOnly (text : Text) : Bool := text ≠ [] ∧ text.all Char.isDigit

/-- Digits with at most one point among them. -/
def isMantissa (text : Text) : Bool := digitsOnly (text.filter (· ≠ '.')) ∧ text.count '.' ≤ 1

/-- A number of MySQL, without a sign. -/
def isNumeral (text : Text) : Bool :=
  match text.span fun c => c ≠ 'e' ∧ c ≠ 'E' with
  | (mantissa, []) => isMantissa mantissa
  | (mantissa, _ :: c :: exponent) => isMantissa mantissa ∧
      (if c = '+' ∨ c = '-' then digitsOnly exponent else digitsOnly (c :: exponent))
  | (_, [_]) => false

/-- A word that may be the name of a column. -/
def isWord (text : Text) : Bool :=
  match text with
  | [] => false
  | c :: rest => c.isAlpha ∧ rest.all fun c => c.isAlphanum || c = '_'

/-- MySQL as far as it is left open: the number that a string is compared as, the words that it
knows, as the names of columns, and how many rows a statement with another text in it finds;
`none` is an error of the statement. -/
structure MySQL (N : Type) where
  number : Text → N
  known : Text → Bool
  otherTellers : Text → List Teller → Option ℕ
  otherAccounts : Text → AccountTable → Option ℕ

section Checks

variable {N : Type} (sql : MySQL N)

def selectTeller : Text := "select teller_name from teller where teller_name='".toList
def andTellerPass : Text := " and teller_pass='".toList

def loginStatement (user pass : Text) : Text :=
  selectTeller ++ user ++ quote :: andTellerPass ++ pass ++ [quote, ';']

/-- The two strings of a login statement, if it is one. -/
def readLogin (stmt : Text) : Option (Text × Text) := do
  let rest ← behind selectTeller stmt
  let (name, rest) ← readString rest
  let rest ← behind andTellerPass rest
  let (pass, rest) ← readString rest
  if rest = [';'] then some (name, pass) else none

/-- `rs.GetRows() < 1` gives `code`, and an error -1. -/
def checkRows (rows : Option ℕ) (code : ℤ) : ℤ :=
  match rows with
  | none => -1
  | some n => if n < 1 then code else 0

def UserLogin (tellers : List Teller) (user pass : Text) : ℤ :=
  let stmt := loginStatement user pass
  checkRows (match readLogin stmt with
    | some (name, pass) =>
      some (tellers.countP fun t => t.teller_name = name ∧ t.teller_pass = pass)
    | none => sql.otherTellers stmt tellers) 1

/-- What stands behind `pass=`. -/
inductive Operand (N : Type)
  | refused
  | number (x : N)
  | string (text : Text)
  | other

def quoted (text : Text) : Option Text :=
  match text with
  | [] => none
  | c :: rest =>
    if c = quote then
      match readString rest with
      | some (value, []) => some value
      | some (_, _ :: _) | none => none
    else none

def operand (pass : Text) : Operand N :=
  if pass = [] then .refused
  else if isNumeral pass then .number (sql.number pass)
  else
    match quoted pass with
    | some value => .string value
    | none => if isWord pass ∧ ¬ sql.known pass then .refused else .other

def passStatement (account_id : ℤ) (pass tail : Text) : Text :=
  "select balance from bank_account where account_id=".toList ++ (toString account_id).toList ++
    " and pass=".toList ++ pass ++ tail

variable [DecidableEq N]

/-- The rows that the statement finds for the account with the row `row`. -/
def selectPass (tail : Text) (accounts : AccountTable) (account_id : ℤ) (row : AccountRow)
    (pass : Text) : Option ℕ :=
  match operand sql pass with
  | .refused => none
  | .number x => some (if sql.number row.pass = x then 1 else 0)
  | .string text => some (if row.pass = text then 1 else 0)
  | .other => sql.otherAccounts (passStatement account_id pass tail) accounts

/-- The tests of the account and of its password; 0 when both are passed. -/
def tests (tail : Text) (accounts : AccountTable) (account_id : ℤ) (pass : Text) : ℤ :=
  match accounts account_id with
  | some row =>
    if row.flag = 0 then checkRows (selectPass sql tail accounts account_id row pass) 3 else 2
  | none => 2

/-- The operations that test the password of an account. -/
inductive Operation
  | withDraw
  | transfer
  | balanceInquiry
  | changePassword
  | closeAccount

/-- What stands behind the password. -/
def Operation.tail : Operation → Text
  | .withDraw | .transfer | .closeAccount => " for update;".toList
  | .balanceInquiry | .changePassword => ";".toList

def WithDraw.tests := BankCredentials.tests sql " for update;".toList
def Transfer.tests := BankCredentials.tests sql " for update;".toList
def BalanceInquiry.tests := BankCredentials.tests sql ";".toList
def ChangePassword.tests := BankCredentials.tests sql ";".toList
def CloseAccount.tests := BankCredentials.tests sql " for update;".toList

def Operation.tests : Operation → AccountTable → ℤ → Text → ℤ
  | .withDraw => WithDraw.tests sql
  | .transfer => Transfer.tests sql
  | .balanceInquiry => BalanceInquiry.tests sql
  | .changePassword => ChangePassword.tests sql
  | .closeAccount => CloseAccount.tests sql

/-- The tests let `account_id` with the password `pass` through. -/
def Operation.Passes (op : Operation) (accounts : AccountTable) (account_id : ℤ) (pass : Text) :
    Prop :=
  op.tests sql accounts account_id pass = 0

instance (op : Operation) (accounts : AccountTable) (account_id : ℤ) (pass : Text) :
    Decidable (op.Passes sql accounts account_id pass) :=
  inferInstanceAs (Decidable (op.tests sql accounts account_id pass = 0))

end Checks

theorem readString_length (text value rest : Text) (h : readString text = some (value, rest)) :
    value.length + rest.length < text.length := by
  induction text using readString.induct generalizing value rest with
  | case1 => simp [readString] at h
  | case2 =>
    obtain ⟨rfl, rfl⟩ : [] = value ∧ [] = rest := by simpa [readString] using h
    simp
  | case3 c hq => simp [readString, hq] at h
  | case4 tail ih =>
    obtain ⟨r, hr, h⟩ := Option.map_eq_some_iff.mp (by simpa only [readString, if_true] using h)
    obtain ⟨rfl, rfl⟩ := Prod.mk.inj h
    have := ih r.1 r.2 hr
    simp only [List.length_cons]
    omega
  | case5 d tail hd =>
    obtain ⟨rfl, rfl⟩ : [] = value ∧ d :: tail = rest := by simpa [readString, hd] using h
    simp
  | case6 d tail hq ih =>
    obtain ⟨r, hr, h⟩ := Option.map_eq_some_iff.mp
      (by simpa only [readString, if_neg hq, if_true] using h)
    obtain ⟨rfl, rfl⟩ := Prod.mk.inj h
    have := ih r.1 r.2 hr
    have two : (unescape d).length ≤ 2 := by
      unfold unescape
      split_ifs <;> simp
    simp only [List.length_cons, List.length_append]
    omega
  | case7 c d tail hq hb ih =>
    obtain ⟨r, hr, h⟩ := Option.map_eq_some_iff.mp
      (by simpa only [readString, if_neg hq, if_neg hb] using h)
    obtain ⟨rfl, rfl⟩ := Prod.mk.inj h
    have := ih r.1 r.2 hr
    simp only [List.length_cons] at this ⊢
    omega

/-- A text between quotes is never the string that it is read as. -/
theorem quoted_ne (text value : Text) (h : quoted text = some value) : value ≠ text := by
  rintro rfl
  unfold quoted at h
  split at h
  · cases h
  · rename_i c rest
    split at h
    · split at h
      · rename_i v hr
        have := readString_length rest v [] hr
        obtain rfl := Option.some.inj h
        simp only [List.length_cons] at this
        omega
      · cases h
      · cases h
    · cases h

theorem behind_append (front text : Text) : behind front (front ++ text) = some text := by
  simp [behind]

/-- No quote and no backslash. -/
def Plain (text : Text) : Prop := ∀ c ∈ text, c ≠ quote ∧ c ≠ backslash

theorem readString_plain (text rest : Text) (hp : Plain text) (hr : rest.head? ≠ some quote) :
    readString (text ++ quote :: rest) = some (text, rest) := by
  induction text with
  | nil =>
    cases rest with
    | nil => simp [readString]
    | cons d tail =>
      have hd : d ≠ quote := by simpa using hr
      simp [readString, hd]
  | cons c text ih =>
    obtain ⟨hc, hp⟩ := List.forall_mem_cons.mp hp
    have read := ih hp
    obtain ⟨d, tail, split⟩ : ∃ d tail, text ++ quote :: rest = d :: tail :=
      List.exists_cons_of_ne_nil (by simp)
    rw [List.cons_append, split, readString, if_neg hc.1, if_neg hc.2, ← split, read]
    rfl

theorem readLogin_plain (user pass : Text) (hu : Plain user) (hp : Plain pass) :
    readLogin (loginStatement user pass) = some (user, pass) := by
  have between : (andTellerPass ++ (pass ++ [quote, ';'])).head? ≠ some quote := by
    have first : andTellerPass.head? = some ' ' := by decide
    rw [List.head?_append, first, Option.some_or]
    decide
  have name : readString (user ++ quote :: (andTellerPass ++ (pass ++ [quote, ';']))) =
      some (user, andTellerPass ++ (pass ++ [quote, ';'])) :=
    readString_plain user (andTellerPass ++ (pass ++ [quote, ';'])) hu between
  have word : readString (pass ++ [quote, ';']) = some (pass, [';']) :=
    readString_plain pass [';'] hp (by decide)
  have stmt : loginStatement user pass =
      selectTeller ++ (user ++ quote :: (andTellerPass ++ (pass ++ [quote, ';']))) := by
    simp [loginStatement]
  simp [readLogin, stmt, behind_append, name, word]

section Exact

variable {N : Type} (sql : MySQL N)

/-- A teller with this name and this password is stored. -/
def Stored (tellers : List Teller) (user pass : Text) : Prop :=
  ∃ t ∈ tellers, t.teller_name = user ∧ t.teller_pass = pass

/-- The strings that MySQL reads name a teller just when the supplied ones do. When the
statement is not read as two strings, that is asked of the rows that MySQL finds. -/
def LoginExact (tellers : List Teller) (user pass : Text) : Prop :=
  match readLogin (loginStatement user pass) with
  | some (name, word) => (name = user ∧ word = pass) ∨
      (Stored tellers name word ↔ Stored tellers user pass)
  | none => (∃ n ∈ sql.otherTellers (loginStatement user pass) tellers, 0 < n) ↔
      Stored tellers user pass

/-- What the kind of the supplied password asks of the stored one. -/
def PassExact (op : Operation) (accounts : AccountTable) (account_id : ℤ) (row : AccountRow)
    (pass : Text) : Prop :=
  match operand sql pass with
  | .refused => row.pass ≠ pass
  | .number x => row.pass = pass ∨ sql.number row.pass ≠ x
  | .string text => row.pass ≠ text ∧ row.pass ≠ pass
  | .other => (∃ n ∈ sql.otherAccounts (passStatement account_id pass op.tail) accounts, 0 < n) ↔
      row.pass = pass

theorem checkRows_eq_zero (rows : Option ℕ) (code : ℤ) (hc : code ≠ 0) :
    checkRows rows code = 0 ↔ ∃ n ∈ rows, 0 < n := by
  cases rows with
  | none => simp [checkRows]
  | some n =>
    by_cases hn : n < 1
    · have : n = 0 := by omega
      simp [checkRows, this, hc]
    · have : 0 < n := by omega
      simp [checkRows, hn, this]

theorem login_exact_iff (tellers : List Teller) (user pass : Text) :
    (UserLogin sql tellers user pass = 0 ↔ Stored tellers user pass) ↔
      LoginExact sql tellers user pass := by
  rw [UserLogin, checkRows_eq_zero _ _ (by omega), LoginExact]
  cases readLogin (loginStatement user pass) with
  | none => rfl
  | some r =>
    obtain ⟨name, word⟩ := r
    have found : (∃ n ∈ some (tellers.countP fun t => t.teller_name = name ∧ t.teller_pass = word),
        0 < n) ↔ Stored tellers name word := by
      simp [Stored, List.countP_pos_iff]
    rw [found]
    constructor
    · exact Or.inr
    · rintro (⟨rfl, rfl⟩ | same)
      · rfl
      · exact same

/-- Names and passwords without a quote or a backslash are compared as they are. -/
theorem login_plain (tellers : List Teller) (user pass : Text) (hu : Plain user)
    (hp : Plain pass) : UserLogin sql tellers user pass = 0 ↔ Stored tellers user pass := by
  apply (login_exact_iff sql tellers user pass).mpr
  rw [LoginExact, readLogin_plain user pass hu hp]
  exact Or.inl ⟨rfl, rfl⟩

theorem operand_number (pass : Text) (x : N) (h : operand sql pass = .number x) :
    x = sql.number pass := by
  unfold operand at h
  split at h
  · cases h
  · split at h
    · exact (Operand.number.inj h).symm
    · split at h
      · cases h
      · split at h <;> cases h

theorem operand_string (pass text : Text) (h : operand sql pass = .string text) :
    quoted pass = some text := by
  unfold operand at h
  split at h
  · cases h
  · split at h
    · cases h
    · split at h
      · rename_i value hq
        rw [hq, Operand.string.inj h]
      · split at h <;> cases h

variable [DecidableEq N]

theorem Operation.tests_eq (op : Operation) : op.tests sql = BankCredentials.tests sql op.tail := by
  cases op <;> rfl

theorem pass_exact_iff (op : Operation) (accounts : AccountTable) (account_id : ℤ)
    (row : AccountRow) (pass : Text) (hrow : accounts account_id = some row)
    (hflag : row.flag = 0) :
    (op.Passes sql accounts account_id pass ↔ row.pass = pass) ↔
      PassExact sql op accounts account_id row pass := by
  have passes : op.Passes sql accounts account_id pass ↔
      ∃ n ∈ selectPass sql op.tail accounts account_id row pass, 0 < n := by
    rw [Operation.Passes, Operation.tests_eq, BankCredentials.tests, hrow]
    simp only [hflag, if_true]
    exact checkRows_eq_zero _ _ (by omega)
  rw [passes, selectPass, PassExact]
  cases kind : operand sql pass with
  | refused => simp
  | number x =>
    obtain rfl := operand_number sql pass x kind
    by_cases same : row.pass = pass
    · simp [same]
    · simp [same]
  | string text =>
    have differ := quoted_ne pass text (operand_string sql pass text kind)
    by_cases read : row.pass = text
    · simp [read, differ]
    · simp [read]
  | other => rfl

end Exact

/-- MySQL on numerals of digits and unknown words. -/
def leadingDigits : MySQL ℕ where
  number text := digits text 0
  known _ := false
  otherTellers _ _ := none
  otherAccounts _ _ := none

/-- An account with the password `1234`. -/
def pin : AccountRow where
  name := "Li".toList
  pass := "1234".toList
  id := []
  balance := ⟨100, by decide⟩
  flag := 0

end MuduoServer.BankCredentials
