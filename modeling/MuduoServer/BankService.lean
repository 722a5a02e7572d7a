import MuduoServer.BankDatabase

/-!
The operations of `BankService` that write. Each opens a connection of its own, runs its
statements in a `try` block and closes the connection in the destructor of `MysqlDB`, so the
operations of different threads meet only in the database. The handlers roll back, except
those of `CloseAccount` and `ChangePassword`; `MysqlDB::Rollback` throws when it succeeds.
-/
namespace MuduoServer.Bank

open Sessions

/-- `Account`, less its date. -/
structure Account (D : Type) where
  account_id : ℤ
  name : Text
  pass : Text
  id : Text
  balance : D

/-- What the commands call. The strings are the bytes of the packet's fields, and `unset` is
what a variable holds that `Transfer` declares without a value. -/
inductive Request (D : Type)
  | openAccount (account : Account D)
  | deposit (account : Account D)
  | withDraw (account : Account D)
  | transfer (account : Account D) (otherAccountId : Text) (unset : ℤ)
  | closeAccount (account : Account D)
  | changePassword (account : Account D) (newPass : Text)

def Request.account {D : Type} : Request D → Account D
  | .openAccount account | .deposit account | .withDraw account | .transfer account _ _
  | .closeAccount account | .changePassword account _ => account

/-- `Exception`, whose text is the server's error message. -/
inductive Exception
  | dbError
  deriving DecidableEq

/-- What a command is left with: a result and the account, or an exception. -/
abbrev Outcome (D : Type) := Except Exception (ℤ × Account D)

abbrev Sql (D X : Type) := ExceptT Exception (Program Statement (Answer D)) X

/-- The leading digits. -/
def digits : Text → ℕ → ℕ
  | [], n => n
  | c :: cs, n => if '0' ≤ c ∧ c ≤ '9' then digits cs (n * 10 + (c.toNat - '0'.toNat)) else n

/-- `ss >> x` for an `int x` that has the value `unset`. -/
def readInt (text : Text) (unset : ℤ) : ℤ :=
  match text.dropWhile (·.toNat ∈ [9, 10, 11, 12, 13, 32]) with
  | '-' :: c :: cs => if '0' ≤ c ∧ c ≤ '9' then -(digits (c :: cs) 0) else unset
  | '+' :: c :: cs => if '0' ≤ c ∧ c ≤ '9' then digits (c :: cs) 0 else unset
  | c :: cs => if '0' ≤ c ∧ c ≤ '9' then digits (c :: cs) 0 else unset
  | [] => unset

section Operations
variable {D : Type}

/-- `MysqlDB::QuerySQL`, `ExecSQL`, `Open`, `StartTransaction` and `Commit`. -/
def querySQL (q : Statement) : Sql D (Answer D q) := invoke .dbError q

/-- `MysqlDB::Rollback`, whose test of `mysql_query` is the wrong way round. -/
def rollback : Sql D Unit :=
  ExceptT.mk (.call .rollback fun a =>
    match a with
    | some _ => .ret (.error .dbError)
    | none => .ret (.ok ()))

/-- The `try` block with its handler, and `~MysqlDB` on the way out. -/
def guarded (body handler : Sql D (ℤ × Account D)) : Program Statement (Answer D) (Outcome D) := do
  let outcome ← (tryCatch body fun _ => handler).run
  .call .close fun _ => .ret outcome

variable (dbl : Doubles D) (account : Account D)

/-- The handler of the operations that roll back. -/
def rollbackHandler : Sql D (ℤ × Account D) := do
  rollback
  return (-1, account)

def openAccount : Sql D (ℤ × Account D) := do
  querySQL .open_
  querySQL .startTransaction
  let account_id ← querySQL
    (.insertAccount account.name account.pass account.id (dbl.print account.balance))
  let _ ← querySQL
    (.insertTrans account_id none 1 (dbl.print account.balance) (dbl.print account.balance))
  querySQL .commit
  querySQL (.selectOpenDate account_id)
  return (0, { account with account_id := account_id })

def deposit : Sql D (ℤ × Account D) := do
  querySQL .open_
  querySQL .startTransaction
  let rs : List D ← querySQL (.selectBalance (.int account.account_id) true)
  match rs with
  | [] => return (2, account)
  | balance :: _ =>
    querySQL (.updateBalance (.int account.account_id) (dbl.print account.balance))
    let trans_id ← querySQL (.insertTrans account.account_id none 2 (dbl.print account.balance)
      (dbl.print (dbl.add balance account.balance)))
    querySQL .commit
    let name ← querySQL (.selectName trans_id)
    return (0, { account with name := name, balance := dbl.add account.balance balance })

/-- The two tests of `WithDraw`, `Transfer` and `CloseAccount`: the account is open and the
password is right. The result is the balance, or the result code of the test that fails. -/
def checkAccount : Sql D (ℤ ⊕ D) := do
  querySQL .open_
  querySQL .startTransaction
  let rs : List D ← querySQL (.selectBalance (.int account.account_id) false)
  match rs with
  | [] => return .inl 2
  | _ :: _ =>
    let rs : List D ← querySQL (.selectBalancePass account.account_id account.pass true)
    match rs with
    | [] => return .inl 3
    | balance :: _ => return .inr balance

def withDraw : Sql D (ℤ × Account D) := do
  match ← checkAccount account with
  | .inl code => return (code, account)
  | .inr balance =>
    if dbl.gt account.balance balance then
      return (4, account)
    else do
      querySQL (.updateBalance (.int account.account_id) (-dbl.print account.balance))
      let trans_id ← querySQL (.insertTrans account.account_id none 3 (dbl.print account.balance)
        (dbl.print (dbl.sub balance account.balance)))
      querySQL .commit
      let name ← querySQL (.selectName trans_id)
      return (0, { account with name := name, balance := dbl.sub balance account.balance })

/-- The statements of `Transfer` after its tests. -/
def transferBetween (otherAccountId : Text) (other_account_id : ℤ) (balance balance2 : D) :
    Sql D (ℤ × Account D) := do
  querySQL (.updateBalance (.int account.account_id) (-dbl.print account.balance))
  querySQL (.updateBalance (.text otherAccountId) (dbl.print account.balance))
  let trans_id ← querySQL (.insertTrans account.account_id (some other_account_id) 5
    (dbl.print account.balance) (dbl.print (dbl.sub balance account.balance)))
  let name ← querySQL (.selectName trans_id)
  let _ ← querySQL (.insertTrans other_account_id (some account.account_id) 4
    (dbl.print account.balance) (dbl.print (dbl.add balance2 account.balance)))
  querySQL .commit
  return (0, { account with name := name, balance := dbl.sub balance account.balance })

def transfer (otherAccountId : Text) (unset : ℤ) : Sql D (ℤ × Account D) := do
  match ← checkAccount account with
  | .inl code => return (code, account)
  | .inr balance =>
    if dbl.gt account.balance balance then
      return (4, account)
    else do
      let rs : List D ← querySQL (.selectBalance (.text otherAccountId) true)
      match rs with
      | [] => return (5, account)
      | balance2 :: _ =>
        transferBetween dbl account otherAccountId (readInt otherAccountId unset) balance balance2

def closeAccount : Sql D (ℤ × Account D) := do
  match ← checkAccount account with
  | .inl code => return (code, account)
  | .inr balance =>
    querySQL (.selectInterest account.account_id)
    querySQL (.updateFlag account.account_id)
    querySQL .commit
    let name ← querySQL (.selectHolder account.account_id)
    return (0, { account with name := name, balance := balance })

/-- `ChangePassword` starts no transaction. -/
def changePassword (newPass : Text) : Sql D (ℤ × Account D) := do
  querySQL .open_
  let rs : List D ← querySQL (.selectBalance (.int account.account_id) false)
  match rs with
  | [] => return (2, account)
  | _ :: _ =>
    let rs : List D ← querySQL (.selectBalancePass account.account_id account.pass false)
    match rs with
    | [] => return (3, account)
    | _ :: _ =>
      querySQL (.updatePass newPass account.account_id)
      return (0, account)

def execute : Request D → Program Statement (Answer D) (Outcome D)
  | .openAccount account => guarded (openAccount dbl account) (rollbackHandler account)
  | .deposit account => guarded (deposit dbl account) (rollbackHandler account)
  | .withDraw account => guarded (withDraw dbl account) (rollbackHandler account)
  | .transfer account otherAccountId unset =>
    guarded (transfer dbl account otherAccountId unset) (rollbackHandler account)
  | .closeAccount account => guarded (closeAccount account) (pure (-1, account))
  | .changePassword account newPass => guarded (changePassword account newPass) (pure (-1, account))

end Operations

/-- Amounts as whole cents. -/
def wholeCents : Doubles ℤ where
  parse c := c
  print x := x
  add x y := x + y
  sub x y := x - y
  gt x y := decide (y < x)
  print_le x y h := by simpa using h

/-- A quote or a backslash, which end or change a quoted text. -/
def quotes (c : Char) : Bool := c.toNat ∈ [39, 92]

/-- What MySQL does in strict mode with texts that are plain numerals, or have no quote where
the statement has quotes. It compares a `varchar` with a number by its leading digits. -/
def plainTexts {D : Type} (dbl : Doubles D) : MySQL D where
  strict := true
  selectPass account_id pass forUpdate accounts :=
    if pass ≠ [] ∧ pass.all Char.isDigit then
      match accounts account_id with
      | some row => some
          { balances := if digits row.pass 0 = digits pass 0 then [dbl.parse row.balance.cents]
              else []
            locks := if forUpdate then [account_id] else [] }
      | none => some { balances := [], locks := [] }
    else none
  selectOther text accounts :=
    if text ≠ [] ∧ text.all Char.isDigit then
      match accounts (digits text 0) with
      | some row => some
          { balances := if row.flag = 0 then [dbl.parse row.balance.cents] else []
            locks := [digits text 0] }
      | none => some { balances := [], locks := [] }
    else none
  updateOther text accounts :=
    if text ≠ [] ∧ text.all Char.isDigit then
      some (if (accounts (digits text 0)).isSome then [(digits text 0 : ℤ)] else [])
    else none
  insertAccount name pass id balance next _ :=
    if (name ++ pass ++ id).any quotes then none
    else (store true balance).map fun balance =>
      { rows := [(next, { name, pass, id, balance, flag := 0 })], insertId := next,
        next := next + 1 }
  updatePass newPass account_id accounts :=
    if newPass.any quotes then none
    else some (match accounts account_id with
      | some row => [(account_id, { row with pass := newPass })]
      | none => [])

/-- The threads of the server, each with the request that it serves, and the database. -/
abbrev Threads (T D : Type) :=
  Sessions.State T (Database T) (Request D) Statement (Answer D) (Outcome D)

section Machine
variable {T D : Type} [DecidableEq T] (sql : MySQL D) (dbl : Doubles D)

def machine : FaultMachine.Machine (Threads T D) (Label T (Request D)) Fault :=
  State.machine (Database.system sql dbl) (· = Database.empty) (execute dbl)

instance (s : Database T) (t : T) (q : Statement) :
    Decidable ((Database.system sql dbl).ready s t q) :=
  inferInstanceAs (Decidable (∀ k ∈ s.locks sql dbl t q, s.accounts.Free t k))

instance (s : Threads T D) (a : Label T (Request D)) : Decidable ((machine sql dbl).enabled s a) :=
  inferInstanceAs (Decidable (s.Enabled (Database.system sql dbl) a))

/-- The server before its first request. -/
def start : Threads T D where
  shared := Database.empty
  session _ := none

end Machine

end MuduoServer.Bank
