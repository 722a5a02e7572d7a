import MuduoServer.BankStatements
import MuduoServer.Courses

/-!
The operations under failing calls: when an operation that runs alone returns 0 and has
committed its whole change, or returns another code and has left the tables as they were.
`MysqlDB::Rollback` throws when the `ROLLBACK` goes through and uses the null handle after a
failed connect, and what is sent after the `COMMIT` can still fail.
-/
namespace MuduoServer.BankAtomic

open Bank Sessions

/-- The committed tables. -/
structure Tables where
  accounts : AccountTable
  trans : List TransRow

variable {T D : Type}

def tables (s : Database T) : Tables := ⟨s.accounts.committed, s.trans⟩

/-- The table with these rows in it. -/
def put (rows : List (ℤ × AccountRow)) (accounts : AccountTable) : AccountTable :=
  rows.foldl (fun accounts r => Function.update accounts r.1 (some r.2)) accounts

section Change
variable (sql : MySQL D) (dbl : Doubles D)

/-- The balances of the accounts `ids` are changed. -/
def Moved (ids : List ℤ) (change : ℤ) (accounts accounts' : AccountTable) : Prop :=
  ∃ rows : List (ℤ × AccountRow), rows.map Prod.fst = ids ∧
    (∀ r ∈ rows, ∃ row balance, accounts r.1 = some row ∧
      store sql.strict (row.balance.cents + change) = some balance ∧
      r.2 = { row with balance := balance }) ∧
    accounts' = put rows accounts

/-- A row of `trans` with these values. -/
def Recorded (trans_id account_id : ℤ) (other_account_id : Option ℤ)
    (abstract_id money balance : ℤ) (row : TransRow) : Prop :=
  row.trans_id = trans_id ∧ row.account_id = account_id ∧
    row.other_account_id = other_account_id ∧ row.abstract_id = abstract_id ∧
    store sql.strict money = some row.money ∧ store sql.strict balance = some row.balance

/-- The whole change of a request: the tables after it, from the database before it. -/
def Complete (s : Database T) : Request D → Tables → Prop
  | .openAccount account, after => ∃ new row,
      sql.insertAccount account.name account.pass account.id (dbl.print account.balance)
        s.nextAccount s.accounts.committed = some new ∧
      Recorded sql s.nextTrans new.insertId none 1 (dbl.print account.balance)
        (dbl.print account.balance) row ∧
      after = ⟨put new.rows s.accounts.committed, s.trans ++ [row]⟩
  | .deposit account, after => ∃ old accounts row,
      s.accounts.committed account.account_id = some old ∧
      Moved sql [account.account_id] (dbl.print account.balance) s.accounts.committed accounts ∧
      Recorded sql s.nextTrans account.account_id none 2 (dbl.print account.balance)
        (dbl.print (dbl.add (dbl.parse old.balance.cents) account.balance)) row ∧
      after = ⟨accounts, s.trans ++ [row]⟩
  | .withDraw account, after => ∃ balance accounts row,
      (∃ sel ∈ sql.selectPass account.account_id account.pass true s.accounts.committed,
        sel.balances.head? = some balance) ∧
      Moved sql [account.account_id] (-dbl.print account.balance) s.accounts.committed accounts ∧
      Recorded sql s.nextTrans account.account_id none 3 (dbl.print account.balance)
        (dbl.print (dbl.sub balance account.balance)) row ∧
      after = ⟨accounts, s.trans ++ [row]⟩
  | .transfer account otherAccountId unset, after =>
    ∃ balance balance2 ids debited accounts row row2,
      (∃ sel ∈ sql.selectPass account.account_id account.pass true s.accounts.committed,
        sel.balances.head? = some balance) ∧
      (∃ sel ∈ sql.selectOther otherAccountId s.accounts.committed,
        sel.balances.head? = some balance2) ∧
      Moved sql [account.account_id] (-dbl.print account.balance) s.accounts.committed debited ∧
      sql.updateOther otherAccountId debited = some ids ∧
      Moved sql ids (dbl.print account.balance) debited accounts ∧
      Recorded sql s.nextTrans account.account_id (some (readInt otherAccountId unset)) 5
        (dbl.print account.balance) (dbl.print (dbl.sub balance account.balance)) row ∧
      Recorded sql (s.nextTrans + 1) (readInt otherAccountId unset) (some account.account_id) 4
        (dbl.print account.balance) (dbl.print (dbl.add balance2 account.balance)) row2 ∧
      after = ⟨accounts, s.trans ++ [row, row2]⟩
  | .closeAccount account, after => ∃ old,
      s.accounts.committed account.account_id = some old ∧
      after = ⟨Function.update s.accounts.committed account.account_id
        (some { old with flag := 1 }), s.trans⟩
  | .changePassword account newPass, after => ∃ rows,
      sql.updatePass newPass account.account_id s.accounts.committed = some rows ∧
      after = ⟨put rows s.accounts.committed, s.trans⟩

variable [DecidableEq T]

/-- The operation on its own connection `t`, while the calls that `fails` names are refused. -/
def serve (t : T) (r : Request D) (fails : ℕ → Bool) (s : Database T) :
    Course (Database T) Statement (Outcome D) :=
  (execute dbl r).alone (Database.system sql dbl) t fails s

/-- The operation returns, with 0 and the whole change committed or with another code and the
tables as before. -/
def AllOrNothing (r : Request D) (s : Database T)
    (c : Course (Database T) Statement (Outcome D)) : Prop :=
  ∃ code account, c.outcome = some (.ok (code, account)) ∧
    ((code = 0 ∧ Complete sql dbl s r (tables c.shared)) ∨
      (code ≠ 0 ∧ tables c.shared = tables s))

end Change

/-- Whether the handler of the operation rolls back. -/
def rollsBack : Request D → Prop
  | .openAccount _ | .deposit _ | .withDraw _ | .transfer _ _ _ => True
  | .closeAccount _ | .changePassword _ _ => False

/-- No call fails; or none crashes, none commits, and the handler's `ROLLBACK` fails too. -/
def Clean (r : Request D) (log : List (Statement × Verdict)) : Prop :=
  (∀ e ∈ log, e.2 = .answered) ∨
    ((∀ e ∈ log, e.2 ≠ .crashed) ∧ (Statement.commit, Verdict.answered) ∉ log ∧
      (rollsBack r → (Statement.rollback, Verdict.refused) ∈ log))

/-- The connection `t` has no transaction under way. -/
structure Fresh (s : Database T) (t : T) : Prop where
  written : s.accounts.written t = fun _ => none
  inserted : s.inserted t = []

variable {sql : MySQL D} {dbl : Doubles D} {s s' s₀ : Database T} {t : T} {ok : Bool}

theorem Fresh.view_eq (h : Fresh s t) : s.accounts.view t = s.accounts.committed := by
  funext k
  rw [RowStore.view, h.written, Option.none_or]

theorem recorded_of_insertTrans {account_id : ℤ} {other_account_id : Option ℤ}
    {abstract_id money balance : ℤ} {row : TransRow}
    (h : s.insertTrans sql t account_id other_account_id abstract_id money balance = some row) :
    Recorded sql s.nextTrans account_id other_account_id abstract_id money balance row := by
  unfold Database.insertTrans at h
  split at h
  · simp only [Option.bind_eq_bind, Option.bind_eq_some_iff, Option.pure_def,
      Option.some.injEq] at h
    obtain ⟨m, hm, b, hb, rfl⟩ := h
    exact ⟨rfl, rfl, rfl, rfl, hm, hb⟩
  · cases h

/-- A row more in `trans` is a change. -/
theorem trans_ne {accounts : AccountTable} {trans : List TransRow} (row : TransRow) :
    (⟨accounts, s₀.trans ++ (trans ++ [row])⟩ : Tables) ≠ tables s₀ := by
  intro heq
  have htrans : s₀.trans ++ (trans ++ [row]) = s₀.trans := congrArg Tables.trans heq
  simp at htrans

/-- A balance that is read with `flag=0` is that of an open account. -/
theorem selectBalance_int {account_id : ℤ} {forUpdate : Bool} {sel : Selection D} {balance : D}
    (h : s.selectBalance sql dbl t (.int account_id) forUpdate = some sel)
    (hsel : sel.balances.head? = some balance) :
    ∃ row, s.accounts.view t account_id = some row ∧ row.flag = 0 ∧
      balance = dbl.parse row.balance.cents := by
  simp only [Database.selectBalance] at h
  split at h
  · rename_i row hrow
    obtain rfl := Option.some.inj h
    by_cases hflag : row.flag = 0
    · rw [if_pos hflag] at hsel
      exact ⟨row, hrow, hflag, (Option.some.inj hsel).symm⟩
    · rw [if_neg hflag] at hsel
      cases hsel
  · obtain rfl := Option.some.inj h
    cases hsel

theorem updated_int {account_id : ℤ} {row : AccountRow} {ids : List ℤ}
    (h : s.updated sql t (.int account_id) = some ids)
    (hrow : s.accounts.view t account_id = some row) : ids = [account_id] := by
  have := Option.some.inj h
  rw [hrow] at this
  exact this.symm

section Working
variable [DecidableEq T]

theorem writeAll_view_eq (accounts : RowStore T ℤ AccountRow) (rows : List (ℤ × AccountRow)) :
    (accounts.writeAll t rows).view t = put rows (accounts.view t) := by
  induction rows generalizing accounts with
  | nil => rfl
  | cons r rows ih =>
    have hview : (accounts.write t r.1 r.2).view t =
        Function.update (accounts.view t) r.1 (some r.2) := by
      funext j
      rw [RowStore.write_view, Function.update_apply]
    have hfold : accounts.writeAll t (r :: rows) =
        (accounts.write t r.1 r.2).writeAll t rows := rfl
    rw [hfold, ih, hview]
    rfl

/-- Before its `COMMIT` the operation reads `accounts` and has inserted `trans`, and the tables
are still as in `s₀`. -/
structure Working (s₀ : Database T) (t : T) (accounts : AccountTable) (trans : List TransRow)
    (s : Database T) : Prop where
  tables : tables s = tables s₀
  view : s.accounts.view t = accounts
  inserted : s.inserted t = trans
  nextTrans : s.nextTrans = s₀.nextTrans + trans.length

variable {accounts : AccountTable} {trans : List TransRow}

theorem Fresh.working (h : Fresh s₀ t) :
    Working s₀ t s₀.accounts.committed [] (s₀.setConnected t true) where
  tables := rfl
  view := h.view_eq
  inserted := h.inserted
  nextTrans := by simp [Database.setConnected]

omit [DecidableEq T] in
theorem Working.locking (h : Working s₀ t accounts trans s) (ks : List ℤ) :
    Working s₀ t accounts trans (s.locking t ks) where
  tables := h.tables
  view := h.view
  inserted := h.inserted
  nextTrans := h.nextTrans

theorem Working.writes (h : Working s₀ t accounts trans s) (rows : List (ℤ × AccountRow)) :
    Working s₀ t (put rows accounts) trans (s.writes t rows) where
  tables := by
    rw [← h.tables]
    simp [BankAtomic.tables, Database.writes]
  view := by
    rw [← h.view]
    exact writeAll_view_eq s.accounts rows
  inserted := h.inserted
  nextTrans := h.nextTrans

theorem Working.inserts (h : Working s₀ t accounts trans s) (row : TransRow) :
    Working s₀ t accounts (trans ++ [row]) (s.inserts t row) where
  tables := h.tables
  view := h.view
  inserted := by simp [Database.inserts, h.inserted]
  nextTrans := by
    have := h.nextTrans
    simp only [Database.inserts, List.length_append, List.length_singleton]
    omega

theorem Working.commit (h : Working s₀ t accounts trans s) :
    BankAtomic.tables (s.commit t) = ⟨accounts, s₀.trans ++ trans⟩ := by
  have htrans : s.trans = s₀.trans := congrArg Tables.trans h.tables
  have hcommit : BankAtomic.tables (s.commit t) =
      ⟨s.accounts.view t, s.trans ++ s.inserted t⟩ := rfl
  rw [hcommit, h.view, h.inserted, htrans]

/-- A refused statement changes nothing. -/
theorem perform_none {q : Statement} (h : s.perform sql dbl t q ok = .ok (none, s')) :
    s' = s := by
  cases q with
  | open_ =>
    cases ok with
    | false => exact (Prod.mk.inj (Except.ok.inj h)).2.symm
    | true => cases (Prod.mk.inj (Except.ok.inj h)).1
  | close => cases (Prod.mk.inj (Except.ok.inj h)).1
  | startTransaction => exact Database.query_pure h
  | selectName => exact Database.query_readsItem h
  | selectOpenDate => exact Database.query_readsItem h
  | selectHolder => exact Database.query_readsItem h
  | selectInterest => exact Database.query_pure h
  | commit | rollback | updateFlag =>
    rcases Database.query_eq_ok h with ⟨-, hs⟩ | ⟨-, heffect⟩
    · exact hs
    · cases (Prod.mk.inj (Except.ok.inj heffect)).1
  | selectBalance | selectBalancePass | insertAccount | insertTrans | updateBalance
  | updatePass =>
    rcases Database.query_result h with ⟨-, hs⟩ | ⟨-, y, -, hy, -⟩
    · exact hs
    · cases hy

end Working

/-- What became of the calls of a part of an operation. -/
def Answered (log : List (Statement × Verdict)) : Prop := ∀ e ∈ log, e.2 = .answered

def Broken (log : List (Statement × Verdict)) : Prop :=
  (∃ e ∈ log, e.2 = .refused) ∧ ∀ e ∈ log, e.2 ≠ .crashed

def Crashed (log : List (Statement × Verdict)) : Prop := ∃ e ∈ log, e.2 = .crashed

/-- The part has neither committed nor rolled back. -/
def Uncommitted (log : List (Statement × Verdict)) : Prop :=
  ∀ e ∈ log, e.1 ≠ .commit ∧ e.1 ≠ .rollback

section Logs
variable {log log' : List (Statement × Verdict)}

theorem Answered.append (h : Answered log) (h' : Answered log') : Answered (log ++ log') :=
  List.forall_mem_append.mpr ⟨h, h'⟩

theorem Uncommitted.append (h : Uncommitted log) (h' : Uncommitted log') :
    Uncommitted (log ++ log') :=
  List.forall_mem_append.mpr ⟨h, h'⟩

theorem Answered.broken (h : Answered log) (h' : Broken log') : Broken (log ++ log') := by
  obtain ⟨⟨e, he, hrefused⟩, hcrash⟩ := h'
  refine ⟨⟨e, List.mem_append_right log he, hrefused⟩, ?_⟩
  refine List.forall_mem_append.mpr ⟨fun e he => ?_, hcrash⟩
  rw [h e he]
  simp

theorem Crashed.after (h : Crashed log') (log : List (Statement × Verdict)) :
    Crashed (log ++ log') := by
  obtain ⟨e, he, hcrash⟩ := h
  exact ⟨e, List.mem_append_right log he, hcrash⟩

end Logs

section Parts
variable (s₀ : Database T) {X Y : Type}

/-- A part of an operation before its `COMMIT`: `P` holds of what it returns, and the tables
are as before when a call is refused. -/
def Before (P : X → Database T → Prop)
    (c : Course (Database T) Statement (Except Exception X)) : Prop :=
  match c.outcome with
  | some (.ok x) => Answered c.log ∧ Uncommitted c.log ∧ P x c.shared
  | some (.error _) => Broken c.log ∧ Uncommitted c.log ∧ tables c.shared = tables s₀
  | none => Crashed c.log

/-- A part after the `COMMIT`, which returns 0 and leaves the tables. -/
def After (final : Tables) (c : Course (Database T) Statement (Outcome D)) : Prop :=
  match c.outcome with
  | some (.ok (code, _)) => Answered c.log ∧ code = 0 ∧ tables c.shared = final
  | some (.error _) => Broken c.log ∧ Uncommitted c.log ∧ tables c.shared = final
  | none => Crashed c.log

/-- The `try` block as a whole. -/
def Body (sql : MySQL D) (dbl : Doubles D) (r : Request D)
    (c : Course (Database T) Statement (Outcome D)) : Prop :=
  match c.outcome with
  | some (.ok (code, _)) => Answered c.log ∧
      ((code = 0 ∧ Complete sql dbl s₀ r (tables c.shared)) ∨
        (code ≠ 0 ∧ tables c.shared = tables s₀))
  | some (.error _) => Broken c.log ∧ (∀ e ∈ c.log, e.1 ≠ .rollback) ∧
      ((Statement.commit, Verdict.answered) ∉ c.log ↔ tables c.shared = tables s₀)
  | none => Crashed c.log

/-- A postcondition that parts which do not commit may come before. -/
structure Open (post : Course (Database T) Statement (Except Exception X) → Prop) : Prop where
  after : ∀ log c, Answered log → Uncommitted log → post c → post (c.after log)
  error : ∀ log s, Broken log → Uncommitted log → tables s = tables s₀ →
    post ⟨log, some (.error .dbError), s⟩
  crash : ∀ log s, Crashed log → post ⟨log, none, s⟩

theorem open_before (P : X → Database T → Prop) : Open s₀ (Before s₀ P) where
  after log c hlog hopen h := by
    unfold Before at h ⊢
    simp only [Course.after_outcome, Course.after_log, Course.after_shared]
    split at h
    · exact ⟨hlog.append h.1, hopen.append h.2.1, h.2.2⟩
    · exact ⟨hlog.broken h.1, hopen.append h.2.1, h.2.2⟩
    · exact h.after log
  error log s hbroken hopen hs := ⟨hbroken, hopen, hs⟩
  crash log s h := h

theorem Uncommitted.not_commit {log : List (Statement × Verdict)} (h : Uncommitted log) :
    (Statement.commit, Verdict.answered) ∉ log :=
  fun he => (h _ he).1 rfl

theorem open_body (sql : MySQL D) (dbl : Doubles D) (r : Request D) :
    Open s₀ (Body s₀ sql dbl r) where
  after log c hlog hopen h := by
    unfold Body at h ⊢
    simp only [Course.after_outcome, Course.after_log, Course.after_shared]
    split at h
    · exact ⟨hlog.append h.1, h.2⟩
    · refine ⟨hlog.broken h.1, ?_, ?_⟩
      · exact List.forall_mem_append.mpr ⟨fun e he => (hopen e he).2, h.2.1⟩
      · rw [List.mem_append, or_iff_right hopen.not_commit]
        exact h.2.2
    · exact h.after log
  error log s hbroken hopen hs :=
    ⟨hbroken, fun e he => (hopen e he).2, iff_of_true hopen.not_commit hs⟩
  crash log s h := h

end Parts

section Rules
variable [DecidableEq T] {X Y : Type} {P : X → Database T → Prop}
  {post : Course (Database T) Statement (Except Exception Y) → Prop}

theorem before_bind {p : Sql D X} {f : X → Sql D Y} (hpost : Open s₀ post)
    (h : Ends (Database.system sql dbl) t p.run (Before s₀ P) s)
    (hf : ∀ x s, P x s → Ends (Database.system sql dbl) t (f x).run post s) :
    Ends (Database.system sql dbl) t (p >>= f).run post s := by
  refine Ends.bind (p := p.run) h (fun c r hc hr => ?_) fun c hc hnone => ?_
  · simp only [Before, hr] at hc
    cases r with
    | ok x => exact (hf x c.shared hc.2.2).mono fun c' h' => hpost.after c.log c' hc.1 hc.2.1 h'
    | error e =>
      cases e
      refine ends_ret ?_
      rw [Course.after, List.append_nil]
      exact hpost.error c.log c.shared hc.1 hc.2.1 hc.2.2
  · simp only [Before, hnone] at hc
    exact hpost.crash c.log c.shared hc

theorem before_pure {x : X} (h : P x s) :
    Ends (Database.system sql dbl) t (pure x : Sql D X).run (Before s₀ P) s :=
  ends_ret ⟨List.forall_mem_nil _, List.forall_mem_nil _, h⟩

/-- A statement that goes through, before the `COMMIT`. -/
theorem before_query {q : Statement} {P : Answer D q → Database T → Prop}
    (hs : tables s = tables s₀) (hq : q ≠ .commit ∧ q ≠ .rollback)
    (hP : ∀ ok x s', s.perform sql dbl t q ok = .ok (some x, s') → P x s') :
    Ends (Database.system sql dbl) t (querySQL q).run (Before s₀ P) s := by
  have hopen : ∀ v, Uncommitted [(q, v)] := fun v => List.forall_mem_singleton.mpr hq
  refine ends_call (fun ok a s' hperform => ?_) ?_
  · cases a with
    | some x =>
      refine ends_ret ⟨List.forall_mem_singleton.mpr rfl, hopen _, ?_⟩
      exact hP ok x s' hperform
    | none =>
      obtain rfl := perform_none hperform
      refine ends_ret ⟨⟨⟨_, List.mem_cons_self .., rfl⟩, ?_⟩, hopen _, hs⟩
      exact List.forall_mem_singleton.mpr (by simp)
  · exact ⟨_, List.mem_cons_self .., rfl⟩

theorem before_quiet {q : Statement} (hs : tables s = tables s₀) (hq : Database.Quiet q) :
    Ends (Database.system sql dbl) t (querySQL q).run (Before s₀ fun _ s' => s' = s) s := by
  refine before_query hs ?_ fun ok x s' hperform => Database.perform_quiet sql dbl hq hperform
  constructor <;> rintro rfl <;> exact hq

theorem before_open (hs : tables s = tables s₀) :
    Ends (Database.system sql dbl) t (querySQL .open_).run
      (Before s₀ fun _ s' => s' = s.setConnected t true) s := by
  refine before_query hs (by simp) fun ok x s' hperform => ?_
  cases ok with
  | false => cases (Prod.mk.inj (Except.ok.inj hperform)).1
  | true => exact (Prod.mk.inj (Except.ok.inj hperform)).2.symm

variable {accounts : AccountTable} {trans : List TransRow}

theorem before_selectBalance_int {account_id : ℤ} {forUpdate : Bool}
    (hw : Working s₀ t accounts trans s) :
    Ends (Database.system sql dbl) t (querySQL (.selectBalance (.int account_id) forUpdate)).run
      (Before s₀ fun (rs : List D) s' => Working s₀ t accounts trans s' ∧
        ∀ balance ∈ rs.head?, ∃ row, accounts account_id = some row ∧ row.flag = 0 ∧
          balance = dbl.parse row.balance.cents) s := by
  refine before_query hw.tables (by simp) fun ok (rs : List D) s' hperform => ?_
  rcases Database.perform_selectBalance sql dbl hperform with ⟨hnone, -⟩ | ⟨-, sel, hsel, hrs, rfl⟩
  · cases hnone
  · refine ⟨hw.locking sel.locks, fun balance hbalance => ?_⟩
    obtain rfl := Option.some.inj hrs
    rw [← hw.view]
    exact selectBalance_int hsel hbalance

theorem before_selectBalance_text {text : Text} {forUpdate : Bool}
    (hw : Working s₀ t accounts trans s) :
    Ends (Database.system sql dbl) t (querySQL (.selectBalance (.text text) forUpdate)).run
      (Before s₀ fun (rs : List D) s' => Working s₀ t accounts trans s' ∧
        ∃ sel ∈ sql.selectOther text accounts, rs = sel.balances) s := by
  refine before_query hw.tables (by simp) fun ok (rs : List D) s' hperform => ?_
  rcases Database.perform_selectBalance sql dbl hperform with ⟨hnone, -⟩ | ⟨-, sel, hsel, hrs, rfl⟩
  · cases hnone
  · refine ⟨hw.locking sel.locks, sel, ?_, Option.some.inj hrs⟩
    rw [← hw.view]
    exact hsel

theorem before_selectPass {account_id : ℤ} {pass : Text} {forUpdate : Bool}
    (hw : Working s₀ t accounts trans s) :
    Ends (Database.system sql dbl) t (querySQL (.selectBalancePass account_id pass forUpdate)).run
      (Before s₀ fun (rs : List D) s' => Working s₀ t accounts trans s' ∧
        ∃ sel ∈ sql.selectPass account_id pass forUpdate accounts, rs = sel.balances) s := by
  refine before_query hw.tables (by simp) fun ok (rs : List D) s' hperform => ?_
  rcases Database.perform_selectBalancePass sql dbl hperform with
    ⟨hnone, -⟩ | ⟨-, sel, hsel, hrs, rfl⟩
  · cases hnone
  · refine ⟨hw.locking sel.locks, sel, ?_, Option.some.inj hrs⟩
    rw [← hw.view]
    exact hsel

theorem before_updateBalance {account : AccountId} {change : ℤ}
    (hw : Working s₀ t accounts trans s) :
    Ends (Database.system sql dbl) t (querySQL (.updateBalance account change)).run
      (Before s₀ fun _ s' => ∃ ids accounts', s.updated sql t account = some ids ∧
        Moved sql ids change accounts accounts' ∧ Working s₀ t accounts' trans s') s := by
  refine before_query hw.tables (by simp) fun ok x s' hperform => ?_
  rcases Database.perform_updateBalance sql dbl hperform with ⟨hnone, -⟩ | ⟨-, rows, hrows, -, rfl⟩
  · cases hnone
  · obtain ⟨ids, hids, hfst, hall⟩ := Database.updateBalance_eq_some hrows
    rw [hw.view] at hall
    exact ⟨ids, put rows accounts, hids, ⟨rows, hfst, hall, rfl⟩, hw.writes rows⟩

theorem before_insertAccount {name pass id : Text} {balance : ℤ}
    (hw : Working s₀ t accounts trans s) :
    Ends (Database.system sql dbl) t (querySQL (.insertAccount name pass id balance)).run
      (Before s₀ fun (account_id : ℤ) s' => ∃ new,
        sql.insertAccount name pass id balance s.nextAccount accounts = some new ∧
          account_id = new.insertId ∧ Working s₀ t (put new.rows accounts) trans s') s := by
  refine before_query hw.tables (by simp) fun ok (x : ℤ) s' hperform => ?_
  rcases Database.perform_insertAccount sql dbl hperform with ⟨hnone, -⟩ | ⟨-, new, hnew, hid, rfl⟩
  · cases hnone
  · rw [hw.view] at hnew
    have hwrites := hw.writes new.rows
    exact ⟨new, hnew, Option.some.inj hid,
      ⟨hwrites.tables, hwrites.view, hwrites.inserted, hwrites.nextTrans⟩⟩

theorem before_insertTrans {account_id : ℤ} {other_account_id : Option ℤ}
    {abstract_id money balance : ℤ} (hw : Working s₀ t accounts trans s) :
    Ends (Database.system sql dbl) t
      (querySQL (.insertTrans account_id other_account_id abstract_id money balance)).run
      (Before s₀ fun _ s' => ∃ row,
        Recorded sql (s₀.nextTrans + trans.length) account_id other_account_id abstract_id money
          balance row ∧ Working s₀ t accounts (trans ++ [row]) s') s := by
  refine before_query hw.tables (by simp) fun ok (x : ℤ) s' hperform => ?_
  rcases Database.perform_insertTrans sql dbl hperform with ⟨hnone, -⟩ | ⟨-, row, hrow, -, rfl⟩
  · cases hnone
  · have hrecorded := recorded_of_insertTrans hrow
    rw [hw.nextTrans] at hrecorded
    exact ⟨row, hrecorded, hw.inserts row⟩

theorem before_updateFlag {account_id : ℤ} {row : AccountRow}
    (hw : Working s₀ t accounts trans s) (hrow : accounts account_id = some row) :
    Ends (Database.system sql dbl) t (querySQL (.updateFlag account_id)).run
      (Before s₀ fun _ s' => Working s₀ t
        (Function.update accounts account_id (some { row with flag := 1 })) trans s') s := by
  refine before_query hw.tables (by simp) fun ok x s' hperform => ?_
  rcases Database.perform_updateFlag sql dbl hperform with ⟨hnone, -⟩ | ⟨-, rfl⟩
  · cases hnone
  · have hrows : s.updateFlag t account_id = [(account_id, { row with flag := 1 })] := by
      rw [Database.updateFlag, hw.view, hrow]
    rw [hrows]
    exact hw.writes [(account_id, { row with flag := 1 })]

/-- `ChangePassword` has no transaction: this statement commits itself. -/
theorem before_updatePass {newPass : Text} {account_id : ℤ}
    (hw : Working s₀ t accounts [] s) :
    Ends (Database.system sql dbl) t (querySQL (.updatePass newPass account_id)).run
      (Before s₀ fun _ s' => ∃ rows, sql.updatePass newPass account_id accounts = some rows ∧
        tables s' = ⟨put rows accounts, s₀.trans⟩) s := by
  refine before_query hw.tables (by simp) fun ok x s' hperform => ?_
  rcases Database.perform_updatePass sql dbl hperform with ⟨hnone, -⟩ | ⟨-, rows, hrows, -, rfl⟩
  · cases hnone
  · rw [hw.view] at hrows
    refine ⟨rows, hrows, ?_⟩
    rw [(hw.writes rows).commit, List.append_nil]

/-- The `COMMIT` of an operation with all that follows it. -/
theorem body_commit {f : Unit → Sql D (ℤ × Account D)} {r : Request D}
    (hw : Working s₀ t accounts trans s)
    (hcomplete : Complete sql dbl s₀ r ⟨accounts, s₀.trans ++ trans⟩)
    (hchanged : (⟨accounts, s₀.trans ++ trans⟩ : Tables) ≠ tables s₀)
    (h : ∀ s, tables s = ⟨accounts, s₀.trans ++ trans⟩ →
      Ends (Database.system sql dbl) t (f ()).run (After ⟨accounts, s₀.trans ++ trans⟩) s) :
    Ends (Database.system sql dbl) t (querySQL .commit >>= f).run (Body s₀ sql dbl r) s := by
  refine ends_call (fun ok a s' hperform => ?_) ⟨_, List.mem_cons_self .., rfl⟩
  replace hperform : s.perform sql dbl t .commit ok = .ok (a, s') := hperform
  cases a with
  | none =>
    obtain rfl := perform_none hperform
    refine ends_ret ⟨⟨⟨_, List.mem_cons_self .., rfl⟩, ?_⟩, ?_, iff_of_true ?_ hw.tables⟩
    · exact List.forall_mem_singleton.mpr (by simp)
    · exact List.forall_mem_singleton.mpr (by simp)
    · simp [Course.after]
  | some x =>
    obtain rfl : s' = s.commit t := by
      rcases Database.perform_commit sql dbl hperform with ⟨hnone, -⟩ | hs'
      · cases hnone
      · exact hs'
    have hlog : Answered [(Statement.commit, verdict (some x))] :=
      List.forall_mem_singleton.mpr rfl
    refine Ends.mono (h _ hw.commit) fun c hc => ?_
    unfold After at hc
    unfold Body
    simp only [Course.after_outcome, Course.after_log, Course.after_shared]
    split at hc
    · exact ⟨hlog.append hc.1, Or.inl ⟨hc.2.1, hc.2.2 ▸ hcomplete⟩⟩
    · refine ⟨hlog.broken hc.1, ?_, iff_of_false ?_ ?_⟩
      · refine List.forall_mem_append.mpr ⟨?_, fun e he => (hc.2.1 e he).2⟩
        exact List.forall_mem_singleton.mpr (by simp)
      · simp
      · rw [hc.2.2]
        exact hchanged
    · exact hc.after _

theorem after_return {final : Tables} {account : Account D} (hs : tables s = final) :
    Ends (Database.system sql dbl) t (pure (0, account) : Sql D (ℤ × Account D)).run
      (After final) s :=
  ends_ret ⟨List.forall_mem_nil _, rfl, hs⟩

/-- What an operation still asks after its `COMMIT`. -/
theorem after_quiet {final : Tables} {q : Statement} {g : Answer D q → Account D}
    (hs : tables s = final) (hq : Database.Quiet q) :
    Ends (Database.system sql dbl) t
      (querySQL q >>= fun x => (pure (0, g x) : Sql D (ℤ × Account D))).run (After final) s := by
  have hopen : ∀ v, Uncommitted [(q, v)] :=
    fun v => List.forall_mem_singleton.mpr (by constructor <;> rintro rfl <;> exact hq)
  refine ends_call (fun ok a s' hperform => ?_) ⟨_, List.mem_cons_self .., rfl⟩
  obtain rfl := Database.perform_quiet sql dbl hq hperform
  cases a with
  | none =>
    refine ends_ret ⟨⟨⟨_, List.mem_cons_self .., rfl⟩, ?_⟩, hopen _, hs⟩
    exact List.forall_mem_singleton.mpr (by simp)
  | some x => exact ends_ret ⟨List.forall_mem_singleton.mpr rfl, rfl, hs⟩

theorem body_return {r : Request D} {code : ℤ} {account : Account D} (hcode : code ≠ 0)
    (hs : tables s = tables s₀) :
    Ends (Database.system sql dbl) t (pure (code, account) : Sql D (ℤ × Account D)).run
      (Body s₀ sql dbl r) s :=
  ends_ret ⟨List.forall_mem_nil _, Or.inr ⟨hcode, hs⟩⟩

end Rules

section Operations
variable [DecidableEq T]

theorem openAccount_body (h : Fresh s₀ t) (account : Account D) :
    Ends (Database.system sql dbl) t (openAccount dbl account).run
      (Body s₀ sql dbl (.openAccount account)) s₀ := by
  have hbody := open_body s₀ sql dbl (.openAccount account)
  refine before_bind hbody (before_open rfl) fun _ s hs => ?_
  subst hs
  refine before_bind hbody (before_quiet rfl trivial) fun _ s hs => ?_
  subst hs
  refine before_bind hbody (before_insertAccount h.working) fun (account_id : ℤ) s hs => ?_
  obtain ⟨new, hnew, rfl, hw⟩ := hs
  refine before_bind hbody (before_insertTrans hw) fun _ s hs => ?_
  obtain ⟨row, hrow, hw⟩ := hs
  refine body_commit hw ⟨new, row, hnew, ?_, rfl⟩ (trans_ne row)
    fun s hs => after_quiet hs trivial
  simpa using hrow

theorem deposit_body (h : Fresh s₀ t) (account : Account D) :
    Ends (Database.system sql dbl) t (deposit dbl account).run
      (Body s₀ sql dbl (.deposit account)) s₀ := by
  have hbody := open_body s₀ sql dbl (.deposit account)
  refine before_bind hbody (before_open rfl) fun _ s hs => ?_
  subst hs
  refine before_bind hbody (before_quiet rfl trivial) fun _ s hs => ?_
  subst hs
  refine before_bind hbody (before_selectBalance_int h.working) fun (rs : List D) s hs => ?_
  obtain ⟨hw, hrs⟩ := hs
  cases rs with
  | nil => exact body_return (by omega) hw.tables
  | cons balance rest =>
    obtain ⟨old, hold, -, rfl⟩ := hrs balance rfl
    refine before_bind hbody (before_updateBalance hw) fun _ s' hs => ?_
    obtain ⟨ids, accounts, hids, hmoved, hw'⟩ := hs
    obtain rfl := updated_int hids (hw.view ▸ hold)
    refine before_bind hbody (before_insertTrans hw') fun _ s hs => ?_
    obtain ⟨row, hrow, hw⟩ := hs
    refine body_commit hw ⟨old, accounts, row, hold, hmoved, ?_, rfl⟩
      (trans_ne row) fun s hs => after_quiet hs trivial
    simpa using hrow

/-- What the tests find, while the tables are still as in `s₀`. -/
def Tested (sql : MySQL D) (s₀ : Database T) (t : T) (account : Account D) (result : ℤ ⊕ D)
    (s : Database T) : Prop :=
  Working s₀ t s₀.accounts.committed [] s ∧
    match result with
    | .inl code => code ≠ 0
    | .inr balance =>
      (∃ row, s₀.accounts.committed account.account_id = some row ∧ row.flag = 0) ∧
        ∃ sel ∈ sql.selectPass account.account_id account.pass true s₀.accounts.committed,
          sel.balances.head? = some balance

theorem checkAccount_before (h : Fresh s₀ t) (account : Account D) :
    Ends (Database.system sql dbl) t (checkAccount account).run
      (Before s₀ (Tested sql s₀ t account)) s₀ := by
  have hopen := open_before s₀ (Tested sql s₀ t account)
  refine before_bind hopen (before_open rfl) fun _ s hs => ?_
  subst hs
  refine before_bind hopen (before_quiet rfl trivial) fun _ s hs => ?_
  subst hs
  refine before_bind hopen (before_selectBalance_int h.working) fun (rs : List D) s hs => ?_
  obtain ⟨hw, hrs⟩ := hs
  cases rs with
  | nil => exact before_pure ⟨hw, (by omega : (2 : ℤ) ≠ 0)⟩
  | cons first rest =>
    obtain ⟨row, hrow, hflag, -⟩ := hrs first rfl
    refine before_bind hopen (before_selectPass hw) fun (rs : List D) s hs => ?_
    obtain ⟨hw, sel, hsel, hrs⟩ := hs
    cases rs with
    | nil => exact before_pure ⟨hw, (by omega : (3 : ℤ) ≠ 0)⟩
    | cons balance rest =>
      exact before_pure ⟨hw, ⟨row, hrow, hflag⟩, sel, hsel, by rw [← hrs]; rfl⟩

theorem withDraw_body (h : Fresh s₀ t) (account : Account D) :
    Ends (Database.system sql dbl) t (withDraw dbl account).run
      (Body s₀ sql dbl (.withDraw account)) s₀ := by
  have hbody := open_body s₀ sql dbl (.withDraw account)
  refine before_bind hbody (checkAccount_before h account) fun result s hs => ?_
  obtain ⟨hw, hresult⟩ := hs
  cases result with
  | inl code => exact body_return hresult hw.tables
  | inr balance =>
    obtain ⟨⟨old, hold, -⟩, hsel⟩ := hresult
    by_cases hgt : dbl.gt account.balance balance = true
    · simp only [hgt, if_true]
      exact body_return (by omega) hw.tables
    · simp only [hgt]
      refine before_bind hbody (before_updateBalance hw) fun _ s' hs => ?_
      obtain ⟨ids, accounts, hids, hmoved, hw'⟩ := hs
      obtain rfl := updated_int hids (hw.view ▸ hold)
      refine before_bind hbody (before_insertTrans hw') fun _ s hs => ?_
      obtain ⟨row, hrow, hw⟩ := hs
      refine body_commit hw ⟨balance, accounts, row, hsel, hmoved, ?_, rfl⟩ (trans_ne row)
        fun s hs => after_quiet hs trivial
      simpa using hrow

theorem transfer_body (h : Fresh s₀ t) (account : Account D) (otherAccountId : Text) (unset : ℤ) :
    Ends (Database.system sql dbl) t (transfer dbl account otherAccountId unset).run
      (Body s₀ sql dbl (.transfer account otherAccountId unset)) s₀ := by
  have hbody := open_body s₀ sql dbl (.transfer account otherAccountId unset)
  refine before_bind hbody (checkAccount_before h account) fun result s hs => ?_
  obtain ⟨hw, hresult⟩ := hs
  cases result with
  | inl code => exact body_return hresult hw.tables
  | inr balance =>
    obtain ⟨⟨old, hold, -⟩, hsel⟩ := hresult
    by_cases hgt : dbl.gt account.balance balance = true
    · simp only [hgt, if_true]
      exact body_return (by omega) hw.tables
    · simp only [hgt]
      refine before_bind hbody (before_selectBalance_text hw) fun (rs : List D) s hs => ?_
      obtain ⟨hw, sel2, hsel2, hrs⟩ := hs
      cases rs with
      | nil => exact body_return (by omega) hw.tables
      | cons balance2 rest =>
        refine before_bind hbody (before_updateBalance hw) fun _ s' hs => ?_
        obtain ⟨ids, debited, hids, hdebit, hw'⟩ := hs
        obtain rfl := updated_int hids (hw.view ▸ hold)
        refine before_bind hbody (before_updateBalance hw') fun _ s hs => ?_
        obtain ⟨ids, accounts, hids, hcredit, hw⟩ := hs
        refine before_bind hbody (before_insertTrans hw) fun _ s hs => ?_
        obtain ⟨row, hrow, hw⟩ := hs
        refine before_bind hbody (before_quiet hw.tables trivial) fun _ s hs => ?_
        subst hs
        refine before_bind hbody (before_insertTrans hw) fun _ s hs => ?_
        obtain ⟨row2, hrow2, hw⟩ := hs
        refine body_commit hw ⟨balance, balance2, ids, debited, accounts, row, row2, hsel,
          ⟨sel2, hsel2, by rw [← hrs]; rfl⟩, hdebit, hw'.view ▸ hids, hcredit, ?_, ?_, rfl⟩
          (trans_ne row2) fun s hs => after_return hs
        · simpa using hrow
        · simpa using hrow2

theorem closeAccount_body (h : Fresh s₀ t) (account : Account D) :
    Ends (Database.system sql dbl) t (closeAccount account).run
      (Body s₀ sql dbl (.closeAccount account)) s₀ := by
  have hbody := open_body s₀ sql dbl (.closeAccount account)
  refine before_bind hbody (checkAccount_before h account) fun result s hs => ?_
  obtain ⟨hw, hresult⟩ := hs
  cases result with
  | inl code => exact body_return hresult hw.tables
  | inr balance =>
    obtain ⟨⟨old, hold, hflag⟩, -⟩ := hresult
    refine before_bind hbody (before_quiet hw.tables trivial) fun _ s hs => ?_
    subst hs
    refine before_bind hbody (before_updateFlag hw hold) fun _ s hs => ?_
    refine body_commit hs ⟨old, hold, by rw [List.append_nil]⟩ ?_
      fun s hs => after_quiet hs trivial
    intro heq
    have hrow := congrFun (congrArg Tables.accounts heq) account.account_id
    simp only [tables, Function.update_self, hold, Option.some.injEq] at hrow
    have := congrArg AccountRow.flag hrow
    simp [hflag] at this

theorem changePassword_body (h : Fresh s₀ t) (account : Account D) (newPass : Text) :
    Ends (Database.system sql dbl) t (changePassword account newPass).run
      (Body s₀ sql dbl (.changePassword account newPass)) s₀ := by
  have hbody := open_body s₀ sql dbl (.changePassword account newPass)
  refine before_bind hbody (before_open rfl) fun _ s hs => ?_
  subst hs
  refine before_bind hbody (before_selectBalance_int h.working) fun (rs : List D) s hs => ?_
  obtain ⟨hw, -⟩ := hs
  cases rs with
  | nil => exact body_return (by omega) hw.tables
  | cons first rest =>
    refine before_bind hbody (before_selectPass hw) fun (rs : List D) s hs => ?_
    obtain ⟨hw, -⟩ := hs
    cases rs with
    | nil => exact body_return (by omega) hw.tables
    | cons balance rest =>
      refine before_bind hbody (before_updatePass hw) fun _ s hs => ?_
      obtain ⟨rows, hrows, hs⟩ := hs
      exact ends_ret ⟨List.forall_mem_nil _, Or.inl ⟨rfl, rows, hrows, hs⟩⟩

end Operations

section Handlers

/-- The operation as a whole is judged by its log. -/
def Judged (sql : MySQL D) (dbl : Doubles D) (s₀ : Database T) (r : Request D)
    (c : Course (Database T) Statement (Outcome D)) : Prop :=
  AllOrNothing sql dbl r s₀ c ↔ Clean r c.log

variable {r : Request D} {log tail : List (Statement × Verdict)}

theorem judged_crash {c : Course (Database T) Statement (Outcome D)}
    (hc : c.outcome = none) (hlog : Crashed c.log) : Judged sql dbl s₀ r c := by
  refine iff_of_false ?_ ?_
  · rintro ⟨code, account, hcode, -⟩
    rw [hc] at hcode
    cases hcode
  · obtain ⟨e, he, hcrash⟩ := hlog
    rintro (hall | ⟨hall, -⟩)
    · rw [hall e he] at hcrash
      cases hcrash
    · exact hall e he hcrash

/-- A log that is broken is clean when nothing in it commits and the rollback fails. -/
theorem clean_broken (h : Broken log) :
    Clean r log ↔ (Statement.commit, Verdict.answered) ∉ log ∧
      (rollsBack r → (Statement.rollback, Verdict.refused) ∈ log) := by
  obtain ⟨⟨e, he, hrefused⟩, hcrash⟩ := h
  constructor
  · rintro (hall | ⟨-, hrest⟩)
    · rw [hall e he] at hrefused
      cases hrefused
    · exact hrest
  · exact fun hrest => Or.inr ⟨hcrash, hrest⟩

theorem Broken.append (h : Broken log) (htail : ∀ e ∈ tail, e.2 ≠ .crashed) :
    Broken (log ++ tail) := by
  obtain ⟨⟨e, he, hrefused⟩, hcrash⟩ := h
  exact ⟨⟨e, List.mem_append_left tail he, hrefused⟩, List.forall_mem_append.mpr ⟨hcrash, htail⟩⟩

/-- The operation fails with -1. -/
theorem judged_failed {account : Account D} (h : Broken log)
    (htail : ∀ e ∈ tail, e.2 ≠ .crashed ∧ e.1 ≠ .commit)
    (hback : rollsBack r → (Statement.rollback, Verdict.refused) ∈ tail)
    (hlog : (Statement.commit, Verdict.answered) ∉ log ↔ tables s = tables s₀) :
    Judged sql dbl s₀ r ⟨log ++ tail, some (.ok (-1, account)), s⟩ := by
  have hcommit : (Statement.commit, Verdict.answered) ∉ tail := fun he => (htail _ he).2 rfl
  rw [Judged, clean_broken (h.append fun e he => (htail e he).1), List.mem_append,
    or_iff_left hcommit, hlog]
  constructor
  · rintro ⟨code, account', hcode, hcase⟩
    obtain ⟨rfl, -⟩ := Prod.mk.inj (Except.ok.inj (Option.some.inj hcode))
    rcases hcase with ⟨hzero, -⟩ | ⟨-, hsame⟩
    · omega
    · exact ⟨hsame, fun hr => List.mem_append_right log (hback hr)⟩
  · rintro ⟨hsame, -⟩
    exact ⟨-1, account, rfl, Or.inr ⟨by omega, hsame⟩⟩

/-- An exception leaves the operation. -/
theorem judged_thrown {e : Exception} (h : Broken log) (hlog : ∀ e ∈ log, e.1 ≠ .rollback)
    (htail : ∀ e ∈ tail, e.2 = .answered) (hr : rollsBack r) :
    Judged sql dbl s₀ r ⟨log ++ tail, some (.error e), s⟩ := by
  refine iff_of_false ?_ ?_
  · rintro ⟨code, account, hcode, -⟩
    cases Option.some.inj hcode
  · rw [clean_broken (h.append fun e he => by rw [htail e he]; simp)]
    rintro ⟨-, hback⟩
    rcases List.mem_append.mp (hback hr) with he | he
    · exact hlog _ he rfl
    · cases htail _ he

/-- The `try` block with its handler, before the destructor closes the connection. -/
def Closing (sql : MySQL D) (dbl : Doubles D) (s₀ : Database T) (r : Request D)
    (c : Course (Database T) Statement (Outcome D)) : Prop :=
  match c.outcome with
  | some outcome => ∀ s, tables s = tables c.shared →
    Judged sql dbl s₀ r ⟨c.log ++ [(.close, .answered)], some outcome, s⟩
  | none => Crashed c.log

variable [DecidableEq T]

theorem guarded_judged {body handler : Sql D (ℤ × Account D)}
    (hbody : Ends (Database.system sql dbl) t body.run (Body s₀ sql dbl r) s₀)
    (hhandler : ∀ log s, Broken log → (∀ e ∈ log, e.1 ≠ .rollback) →
      ((Statement.commit, Verdict.answered) ∉ log ↔ tables s = tables s₀) →
      Ends (Database.system sql dbl) t handler.run
        (fun c => Closing sql dbl s₀ r (c.after log)) s) :
    Ends (Database.system sql dbl) t (guarded body handler) (Judged sql dbl s₀ r) s₀ := by
  refine Ends.bind (P := Closing sql dbl s₀ r) (Ends.bind hbody ?_ ?_) ?_ ?_
  · intro c outcome hc houtcome
    simp only [Body, houtcome] at hc
    cases outcome with
    | ok x =>
      obtain ⟨code, account⟩ := x
      refine ends_ret fun s hs => iff_of_true ⟨code, account, rfl, ?_⟩ (Or.inl ?_)
      · rw [hs]
        exact hc.2
      · rw [Course.after_log, List.append_nil]
        exact Answered.append hc.1 (List.forall_mem_singleton.mpr rfl)
    | error e => exact hhandler c.log c.shared hc.1 hc.2.1 hc.2.2
  · intro c hc hnone
    simp only [Body, hnone] at hc
    exact hc
  · intro c outcome hc houtcome fails
    simp only [Closing, houtcome] at hc
    exact hc ((c.shared.rollback t).setConnected t false) rfl
  · intro c hc hnone
    simp only [Closing, hnone] at hc
    exact judged_crash rfl hc

theorem rollbackHandler_closing {account : Account D} (hr : rollsBack r) (h : Broken log)
    (hlog : ∀ e ∈ log, e.1 ≠ .rollback)
    (hcommit : (Statement.commit, Verdict.answered) ∉ log ↔ tables s = tables s₀) :
    Ends (Database.system sql dbl) t (rollbackHandler account).run
      (fun c => Closing sql dbl s₀ r (c.after log)) s := by
  refine ends_call (fun ok a s' hperform => ?_) ⟨(.rollback, .crashed), by simp, rfl⟩
  replace hperform : s.perform sql dbl t .rollback ok = .ok (a, s') := hperform
  have hs' : tables s' = tables s := by
    rcases Database.perform_rollback sql dbl hperform with rfl | rfl
    · rfl
    · rfl
  cases a with
  | some x =>
    refine ends_ret fun s'' _ => ?_
    simp only [Course.after, List.append_assoc]
    exact judged_thrown h hlog (by simp) hr
  | none =>
    refine ends_ret fun s'' hs'' => ?_
    simp only [Course.after, List.append_assoc]
    refine judged_failed h (by simp) (by simp) ?_
    rw [hcommit, hs'', ← hs']
    rfl

theorem returnHandler_closing {account : Account D} (hr : ¬ rollsBack r) (h : Broken log)
    (hcommit : (Statement.commit, Verdict.answered) ∉ log ↔ tables s = tables s₀) :
    Ends (Database.system sql dbl) t (pure (-1, account) : Sql D (ℤ × Account D)).run
      (fun c => Closing sql dbl s₀ r (c.after log)) s := by
  refine ends_ret fun s' hs' => ?_
  simp only [Course.after, List.append_nil]
  refine judged_failed h (by simp) (fun hback => absurd hback hr) ?_
  rw [hs']
  exact hcommit

/-- Every operation, on its own connection and under every choice of failing calls, is all or
nothing just when its calls are clean. -/
theorem serve_judged (h : Fresh s₀ t) (r : Request D) :
    Ends (Database.system sql dbl) t (execute dbl r) (Judged sql dbl s₀ r) s₀ := by
  cases r with
  | openAccount account =>
    exact guarded_judged (openAccount_body h account) fun _ _ => rollbackHandler_closing trivial
  | deposit account =>
    exact guarded_judged (deposit_body h account) fun _ _ => rollbackHandler_closing trivial
  | withDraw account =>
    exact guarded_judged (withDraw_body h account) fun _ _ => rollbackHandler_closing trivial
  | transfer account otherAccountId unset =>
    exact guarded_judged (transfer_body h account otherAccountId unset)
      fun _ _ => rollbackHandler_closing trivial
  | closeAccount account =>
    exact guarded_judged (closeAccount_body h account)
      fun _ _ hlog _ => returnHandler_closing id hlog
  | changePassword account newPass =>
    exact guarded_judged (changePassword_body h account newPass)
      fun _ _ hlog _ => returnHandler_closing id hlog

variable (sql dbl)

theorem all_or_nothing_iff (s : Database T) (t : T) (h : Fresh s t) (r : Request D)
    (fails : ℕ → Bool) :
    AllOrNothing sql dbl r s (serve sql dbl t r fails s) ↔
      Clean r (serve sql dbl t r fails s).log :=
  serve_judged h r fails

end Handlers

/-- A deposit of one cent. -/
def cent : Request ℤ := .deposit { account_id := 1, name := [], pass := [], id := [], balance := 1 }

theorem all_or_nothing_sample :
    AllOrNothing (plainTexts wholeCents) wholeCents cent (Database.empty : Database Unit)
      (serve (plainTexts wholeCents) wholeCents () cent (fun _ => false) Database.empty) ↔
    Clean cent
      (serve (plainTexts wholeCents) wholeCents () cent (fun _ => false)
        (Database.empty : Database Unit)).log :=
  all_or_nothing_iff (plainTexts wholeCents) wholeCents Database.empty () ⟨rfl, rfl⟩ cent _

/-- `START TRANSACTION` fails, `ROLLBACK` goes through, and an exception leaves `Deposit`. -/
theorem rollback_throws :
    ¬ ∀ (s : Database Unit) (r : Request ℤ) (fails : ℕ → Bool), Fresh s () →
      AllOrNothing (plainTexts wholeCents) wholeCents r s
        (serve (plainTexts wholeCents) wholeCents () r fails s) := by
  intro hall
  obtain ⟨code, account, houtcome, -⟩ := hall Database.empty cent (fun n => n == 1) ⟨rfl, rfl⟩
  have hthrown : (serve (plainTexts wholeCents) wholeCents () cent (fun n => n == 1)
      (Database.empty : Database Unit)).outcome = some (.error .dbError) := rfl
  rw [hthrown] at houtcome
  cases Option.some.inj houtcome

end MuduoServer.BankAtomic
