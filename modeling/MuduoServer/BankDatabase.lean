import MuduoServer.RowStore
import MuduoServer.Sessions
import Mathlib.Algebra.Group.Nat.Defs
import Mathlib.Algebra.Group.Int.Defs
import Mathlib.Data.Int.Notation

/-!
The tables of the bank and the SQL statements that `BankService` sends to them through
`MysqlDB`. Numbers go into a statement as digits; the password and the other account's
number of a request go in as raw text, so what such a clause selects is MySQL's reading of
that text. Dates and the interest of `CloseAccount` are left out.
-/
namespace MuduoServer.Bank

open Sessions

abbrev Text := List Char

/-- A value of a `decimal(10,2)` column. -/
structure Decimal where
  cents : ℤ
  fits : cents.natAbs < 10 ^ 10
  deriving DecidableEq

/-- A value stored in such a column. Outside strict mode the nearest bound is stored. -/
def store (strict : Bool) (cents : ℤ) : Option Decimal :=
  if h : cents.natAbs < 10 ^ 10 then some ⟨cents, h⟩
  else if strict then none
  else if 0 ≤ cents then some ⟨10 ^ 10 - 1, by decide⟩
  else some ⟨1 - 10 ^ 10, by decide⟩

/-- A row of `bank_account`. -/
structure AccountRow where
  name : Text
  pass : Text
  id : Text
  balance : Decimal
  flag : ℤ
  deriving DecidableEq

/-- A row of `trans`. -/
structure TransRow where
  trans_id : ℤ
  account_id : ℤ
  other_account_id : Option ℤ
  abstract_id : ℤ
  money : Decimal
  balance : Decimal
  deriving DecidableEq

abbrev AccountTable := ℤ → Option AccountRow

/-- `double` as the service uses it. `parse` is `Convert::StringToDouble` of a column with two
decimals, given in cents, and `print` the cents that `setprecision(2)` and `fixed` show. -/
structure Doubles (D : Type) where
  parse : ℤ → D
  print : D → ℤ
  add : D → D → D
  sub : D → D → D
  gt : D → D → Bool
  /-- Rounding keeps the order. -/
  print_le : ∀ x y, gt x y = false → print x ≤ print y

/-- What a `select balance` returns, and the rows that its `for update` locks. -/
structure Selection (D : Type) where
  balances : List D
  locks : List ℤ

/-- What `insert into bank_account` writes, the id it reports and the next one. -/
structure Inserted where
  rows : List (ℤ × AccountRow)
  insertId : ℤ
  next : ℤ

/-- The statements with raw text of a request in them, as MySQL runs them; `none` is an error
of the statement. -/
structure MySQL (D : Type) where
  strict : Bool
  /-- `select balance from bank_account where account_id=<int> and pass=<text>[ for update];` -/
  selectPass : ℤ → Text → Bool → AccountTable → Option (Selection D)
  /-- `select balance from bank_account where account_id=<text> and flag=0 for update;` -/
  selectOther : Text → AccountTable → Option (Selection D)
  /-- The rows of `update bank_account set … where account_id=<text>;` -/
  updateOther : Text → AccountTable → Option (List ℤ)
  /-- `insert into bank_account values(null, '<name>', '<pass>', '<id>', <cents>, now(), 0);` -/
  insertAccount : Text → Text → Text → ℤ → ℤ → AccountTable → Option Inserted
  /-- `update bank_account set pass='<text>' where account_id=<int>;` -/
  updatePass : Text → ℤ → AccountTable → Option (List (ℤ × AccountRow))

/-- The value of a clause `where account_id=`. -/
inductive AccountId
  | int (account_id : ℤ)
  | text (otherAccountId : Text)

inductive Statement
  | open_
  | startTransaction
  | commit
  | rollback
  | close
  | selectBalance (account : AccountId) (forUpdate : Bool)
  | selectBalancePass (account_id : ℤ) (pass : Text) (forUpdate : Bool)
  | selectName (trans_id : ℤ)
  | selectOpenDate (account_id : ℤ)
  | selectHolder (account_id : ℤ)
  | selectInterest (account_id : ℤ)
  | insertAccount (name pass id : Text) (balance : ℤ)
  | insertTrans (account_id : ℤ) (other_account_id : Option ℤ) (abstract_id money balance : ℤ)
  | updateBalance (account : AccountId) (change : ℤ)
  | updateFlag (account_id : ℤ)
  | updatePass (newPass : Text) (account_id : ℤ)

/-- The balances of a recordset as `Convert::StringToDouble` reads them, a name, or the id of
an insert. -/
def Answer (D : Type) : Statement → Type
  | .selectBalance _ _ | .selectBalancePass _ _ _ => List D
  | .selectName _ | .selectHolder _ => Text
  | .insertAccount _ _ _ _ | .insertTrans _ _ _ _ _ => ℤ
  | .open_ | .startTransaction | .commit | .rollback | .close | .selectOpenDate _
  | .selectInterest _ | .updateBalance _ _ | .updateFlag _ | .updatePass _ _ => Unit

/-- `mysql_query` on a null handle, and `GetItem` of an empty recordset. -/
inductive Fault
  | nullHandle
  | emptyRecordset
  deriving DecidableEq

/-- The tables, and for each connection its handle and the rows of `trans` that it has
inserted and not committed. -/
structure Database (T : Type) where
  accounts : RowStore T ℤ AccountRow
  trans : List TransRow
  inserted : T → List TransRow
  nextAccount : ℤ
  nextTrans : ℤ
  connected : T → Bool

namespace Database
variable {T D : Type}

/-- The tables of `crebas.sql`. -/
def empty : Database T where
  accounts := RowStore.empty
  trans := []
  inserted _ := []
  nextAccount := 1
  nextTrans := 1
  connected _ := false

variable [DecidableEq T]

def commit (s : Database T) (t : T) : Database T :=
  { s with
    accounts := s.accounts.commit t
    trans := s.trans ++ s.inserted t
    inserted := Function.update s.inserted t [] }

def rollback (s : Database T) (t : T) : Database T :=
  { s with
    accounts := s.accounts.release t
    inserted := Function.update s.inserted t [] }

def setConnected (s : Database T) (t : T) (b : Bool) : Database T :=
  { s with connected := Function.update s.connected t b }

variable (sql : MySQL D) (dbl : Doubles D) (s : Database T) (t : T)

/-- `select balance from bank_account where account_id=… and flag=0[ for update];` The plain
form is the first read of its transaction and sees what is committed at that time. -/
def selectBalance (account : AccountId) (forUpdate : Bool) : Option (Selection D) :=
  match account with
  | .text otherAccountId => sql.selectOther otherAccountId (s.accounts.view t)
  | .int account_id =>
    match s.accounts.view t account_id with
    | some row => some
        { balances := if row.flag = 0 then [dbl.parse row.balance.cents] else []
          locks := if forUpdate then [account_id] else [] }
    | none => some { balances := [], locks := [] }

/-- The rows of an `update bank_account set … where account_id=…;` -/
def updated (account : AccountId) : Option (List ℤ) :=
  match account with
  | .text otherAccountId => sql.updateOther otherAccountId (s.accounts.view t)
  | .int account_id => some (if (s.accounts.view t account_id).isSome then [account_id] else [])

/-- The row `account_id` with the balance changed. -/
def changed (change account_id : ℤ) : Option (ℤ × AccountRow) := do
  let row ← s.accounts.view t account_id
  let balance ← store sql.strict (row.balance.cents + change)
  pure (account_id, { row with balance := balance })

/-- `update bank_account set balance=balance+<change> where account_id=…;` -/
def updateBalance (account : AccountId) (change : ℤ) : Option (List (ℤ × AccountRow)) := do
  let ids ← s.updated sql t account
  ids.mapM (s.changed sql t change)

/-- `update bank_account set flag=1 where account_id=<int>;` -/
def updateFlag (account_id : ℤ) : List (ℤ × AccountRow) :=
  match s.accounts.view t account_id with
  | some row => [(account_id, { row with flag := 1 })]
  | none => []

/-- `insert into trans values(null, …);` Both accounts must be there, by the foreign keys. -/
def insertTrans (account_id : ℤ) (other_account_id : Option ℤ) (abstract_id money balance : ℤ) :
    Option TransRow :=
  if (s.accounts.view t account_id).isSome ∧
      ∀ other ∈ other_account_id, (s.accounts.view t other).isSome then do
    let money ← store sql.strict money
    let balance ← store sql.strict balance
    pure { trans_id := s.nextTrans, account_id, other_account_id, abstract_id, money, balance }
  else none

/-- The name of the account of a row of `trans`. -/
def selectName (trans_id : ℤ) : Option AccountRow := do
  let row ← (s.trans ++ s.inserted t).find? (·.trans_id = trans_id)
  s.accounts.view t row.account_id

/-- The rows whose locks a statement takes or has. -/
def locks : Statement → List ℤ
  | .selectBalance account forUpdate =>
    ((s.selectBalance sql dbl t account forUpdate).map (·.locks)).getD []
  | .selectBalancePass account_id pass forUpdate =>
    ((sql.selectPass account_id pass forUpdate (s.accounts.view t)).map (·.locks)).getD []
  | .insertAccount name pass id balance =>
    ((sql.insertAccount name pass id balance s.nextAccount (s.accounts.view t)).map
      (·.rows.map Prod.fst)).getD []
  | .updateBalance account change =>
    ((s.updateBalance sql t account change).map (·.map Prod.fst)).getD []
  | .updateFlag account_id => (s.updateFlag t account_id).map Prod.fst
  | .updatePass newPass account_id =>
    ((sql.updatePass newPass account_id (s.accounts.view t)).map (·.map Prod.fst)).getD []
  | .open_ | .startTransaction | .commit | .rollback | .close | .selectName _
  | .selectOpenDate _ | .selectHolder _ | .selectInterest _ | .insertTrans _ _ _ _ _ => []

/-- `mysql_query`, refused when not `ok`. -/
def query {α : Type} (ok : Bool) (effect : Except Fault (Option α × Database T)) :
    Except Fault (Option α × Database T) :=
  if s.connected t then if ok then effect else .ok (none, s) else .error .nullHandle

def locking (ks : List ℤ) : Database T := { s with accounts := s.accounts.lock t ks }

/-- A statement that fails, or goes through with an answer and an effect. -/
def result {α β : Type} (x : Option β) (f : β → α × Database T) :
    Except Fault (Option α × Database T) :=
  match x with
  | some y => .ok (some (f y).1, (f y).2)
  | none => .ok (none, s)

/-- `GetItem(0, …)` of the rows of an account. -/
def readsItem {α : Type} (row : Option AccountRow) (item : AccountRow → α) :
    Except Fault (Option α × Database T) :=
  match row with
  | some row => .ok (some (item row), s)
  | none => .error .emptyRecordset

def writes (rows : List (ℤ × AccountRow)) : Database T :=
  { s with accounts := s.accounts.writeAll t rows }

def inserts (row : TransRow) : Database T :=
  { s with
    inserted := Function.update s.inserted t (s.inserted t ++ [row])
    nextTrans := s.nextTrans + 1 }

/-- What a statement answers. `updatePass` is sent outside a transaction and commits itself. -/
def perform (q : Statement) (ok : Bool) : Except Fault (Option (Answer D q) × Database T) :=
  match q with
  | .open_ => if ok then .ok (some (), s.setConnected t true) else .ok (none, s)
  | .close => .ok (some (), (s.rollback t).setConnected t false)
  | .startTransaction => s.query t ok (.ok (some (), s))
  | .commit => s.query t ok (.ok (some (), s.commit t))
  | .rollback => s.query t ok (.ok (some (), s.rollback t))
  | .selectBalance account forUpdate =>
    s.query t ok (s.result (s.selectBalance sql dbl t account forUpdate) fun sel =>
      (sel.balances, s.locking t sel.locks))
  | .selectBalancePass account_id pass forUpdate =>
    s.query t ok (s.result (sql.selectPass account_id pass forUpdate (s.accounts.view t)) fun sel =>
      (sel.balances, s.locking t sel.locks))
  | .selectName trans_id => s.query t ok (s.readsItem (s.selectName t trans_id) (·.name))
  | .selectOpenDate account_id =>
    s.query t ok (s.readsItem (s.accounts.view t account_id) fun _ => ())
  | .selectHolder account_id =>
    s.query t ok (s.readsItem (s.accounts.view t account_id) (·.name))
  | .selectInterest _ => s.query t ok (.ok (some (), s))
  | .insertAccount name pass id balance =>
    s.query t ok
      (s.result (sql.insertAccount name pass id balance s.nextAccount (s.accounts.view t)) fun new =>
        (new.insertId, { s.writes t new.rows with nextAccount := new.next }))
  | .insertTrans account_id other_account_id abstract_id money balance =>
    s.query t ok
      (s.result (s.insertTrans sql t account_id other_account_id abstract_id money balance)
        fun row => (row.trans_id, s.inserts t row))
  | .updateBalance account change =>
    s.query t ok (s.result (s.updateBalance sql t account change) fun rows =>
      ((), s.writes t rows))
  | .updateFlag account_id => s.query t ok (.ok (some (), s.writes t (s.updateFlag t account_id)))
  | .updatePass newPass account_id =>
    s.query t ok (s.result (sql.updatePass newPass account_id (s.accounts.view t)) fun rows =>
      ((), (s.writes t rows).commit t))

def system : System T (Database T) Statement (Answer D) Fault where
  ready s t q := ∀ k ∈ s.locks sql dbl t q, s.accounts.Free t k
  perform s t q ok := s.perform sql dbl t q ok

end Database

end MuduoServer.Bank
