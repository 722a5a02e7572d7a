import MuduoServer.BankMoney
import MuduoServer.Waiting

/-!
Whether the tests of an operation still hold when its change is committed. `WithDraw`,
`Transfer` and `CloseAccount` read `flag` in a plain select and lock the row only with the
password clause, which does not look at `flag` again; `ChangePassword` locks nothing before
its update. Between the two statements the others can close the account or change its
password, so both are asked to be let alone while a session waits there.
-/
namespace MuduoServer.BankChecks

open Bank Sessions FaultMachine Database

variable {T D : Type}

/-- The operations that take a password. -/
def takesPass : Request D → Prop
  | .withDraw _ | .transfer _ _ _ | .closeAccount _ | .changePassword _ _ => True
  | .openAccount _ | .deposit _ => False

/-- What a request asks of the row of the account `k` that it changes. -/
def Due (r : Request D) (k : ℤ) (row : AccountRow) : Prop :=
  row.flag = 0 ∧ (takesPass r → k = r.account.account_id → row.pass = r.account.pass)

/-- The rows that a step commits a change of were due to be changed. -/
def Commits (r : Request D) (s s' : Database T) : Prop :=
  ∀ k row, s.accounts.committed k = some row → s'.accounts.committed k ≠ some row → Due r k row

section Conditions
variable (sql : MySQL D)

/-- If a password clause finds a row, the text is the stored password, and the row is locked
when it is read for an update. -/
def Compares (accounts : AccountTable) (account_id : ℤ) (pass : Text) (forUpdate : Bool)
    (selection : Option (Selection D)) : Prop :=
  ∀ sel ∈ selection, ∀ _x ∈ sel.balances.head?, (forUpdate = true → account_id ∈ sel.locks) ∧
    ∀ row ∈ accounts account_id, row.pass = pass

/-- The raw text of a request means what the code means by it: a password clause compares the
text, the other account's number is that of its one row, and what is inserted or updated is the
new account or the account itself. -/
def Plain (r : Request D) (s : Database T) (t : T) (q : Statement) : Prop :=
  match r, q with
  | .withDraw _, .selectBalancePass account_id pass forUpdate
  | .transfer _ _ _, .selectBalancePass account_id pass forUpdate
  | .closeAccount _, .selectBalancePass account_id pass forUpdate
  | .changePassword _ _, .selectBalancePass account_id pass forUpdate =>
    Compares (s.accounts.view t) account_id pass forUpdate
      (sql.selectPass account_id pass forUpdate (s.accounts.view t))
  | .transfer _ otherAccountId unset, .selectBalance (.text text) _ =>
    ∀ sel ∈ sql.selectOther text (s.accounts.view t), ∀ _x ∈ sel.balances.head?,
      readInt otherAccountId unset ∈ sel.locks ∧
        ∀ row ∈ s.accounts.view t (readInt otherAccountId unset), row.flag = 0
  | .transfer _ otherAccountId unset, .updateBalance (.text text) _ =>
    ∀ ids ∈ sql.updateOther text (s.accounts.view t), ∀ k ∈ ids,
      k = readInt otherAccountId unset
  | .openAccount _, .insertAccount name pass id balance =>
    ∀ new ∈ sql.insertAccount name pass id balance s.nextAccount (s.accounts.view t),
      ∀ p ∈ new.rows, s.accounts.view t p.1 = none
  | .changePassword _ _, .updatePass newPass account_id =>
    ∀ rows ∈ sql.updatePass newPass account_id (s.accounts.view t), ∀ p ∈ rows, p.1 = account_id
  | _, _ => True

def plain : Contract T (Database T) (Request D) Statement where
  admits _ := True
  allows := Plain sql
  leave := Commits

end Conditions

def flagOf (s : Database T) (k : ℤ) : Option ℤ := (s.accounts.committed k).map (·.flag)

def passOf (s : Database T) (k : ℤ) : Option Text := (s.accounts.committed k).map (·.pass)

/-- An account is not closed while the password clause or the update of its password waits,
and its password not changed while the latter waits. -/
def undisturbed : Calmness (Database T) Statement where
  calm q s s' :=
    match q with
    | .selectBalancePass account_id _ _ => flagOf s' account_id = flagOf s account_id
    | .updatePass _ account_id =>
      flagOf s' account_id = flagOf s account_id ∧ passOf s' account_id = passOf s account_id
    | _ => True
  refl q s := by
    cases q with
    | updatePass => exact ⟨rfl, rfl⟩
    | selectBalancePass => rfl
    | open_ | startTransaction | commit | rollback | close | selectBalance | selectName
    | selectOpenDate | selectHolder | selectInterest | insertAccount | insertTrans | updateBalance
    | updateFlag => trivial
  trans q s s' s'' h h' := by
    cases q with
    | updatePass => exact ⟨h'.1.trans h.1, h'.2.trans h.2⟩
    | selectBalancePass => exact h'.trans h
    | open_ | startTransaction | commit | rollback | close | selectBalance | selectName
    | selectOpenDate | selectHolder | selectInterest | insertAccount | insertTrans | updateBalance
    | updateFlag => trivial

/-- What a connection may rely on: its locked accounts stay as they are. -/
def checkRules : Rules T (Database T) where
  inv s := s.accounts.Locked
  rely t s s' := s.accounts.Spares t s'.accounts
  idle t s := ∀ k, s.accounts.owner k ≠ some t
  refl := moneyRules.refl
  trans := moneyRules.trans
  idle_rely := moneyRules.idle_rely

variable {s s' : Database T} {t : T} {r : Request D} {k : ℤ}

/-- The changes of `t` are of rows that it has locked and that are due to be changed. -/
def Proper (r : Request D) (t : T) (s : Database T) : Prop :=
  ∀ k row', s.accounts.written t k = some row' → s.accounts.owner k = some t ∧
    ∀ row, s.accounts.committed k = some row → Due r k row

/-- `t` has locked the account `k`, which is due to be changed. -/
def Holds (r : Request D) (t : T) (k : ℤ) (s : Database T) : Prop :=
  s.accounts.owner k = some t ∧ ∀ row, s.accounts.committed k = some row → Due r k row

theorem Proper.rely (h : Proper r t s) (hs : s.accounts.Spares t s'.accounts) :
    Proper r t s' := by
  intro k row' hwritten
  rw [hs.written] at hwritten
  obtain ⟨howner, hall⟩ := h k row' hwritten
  refine ⟨(hs.owner k).mpr howner, fun row hrow => hall row ?_⟩
  rwa [hs.committed k howner] at hrow

theorem Holds.rely (h : Holds r t k s) (hs : s.accounts.Spares t s'.accounts) :
    Holds r t k s' := by
  refine ⟨(hs.owner k).mpr h.1, fun row hrow => h.2 row ?_⟩
  rwa [hs.committed k h.1] at hrow

theorem Holds.locking (h : Holds r t k s) (ks : List ℤ) : Holds r t k (s.locking t ks) := by
  refine ⟨?_, h.2⟩
  rw [Database.locking, RowStore.lock_owner, h.1, ite_self]

theorem proper_of_unwritten (h : Unwritten t s) : Proper r t s := by
  intro k row' hwritten
  rw [h k] at hwritten
  cases hwritten

theorem private_commits (r : Request D) : Private (T := T) (Commits r) := by
  intro s s' hsame k row hrow hchanged
  rw [hsame] at hchanged
  exact absurd hrow hchanged

/-- A step of `t` that commits nothing. -/
theorem checks_private (r : Request D) (t : T) : KeepsPrivate checkRules (Commits r) t where
  locked _ h := h
  keeps s s' _ hlocked hcommitted hspares :=
    { inv := hlocked
      leave := private_commits r s s' hcommitted
      others := hspares }
  rely _ _ h := h
  idle _ h := h

theorem lasting_unwritten (r : Request D) (t : T) :
    Lasting checkRules (Commits r) t (Unwritten (T := T) t) where
  rely _ _ := Unwritten.rely
  keeps _ _ hinv hfree := (checks_private r t).locking hinv hfree
  locking _ _ _ h := h

theorem lasting_holds (r : Request D) (t : T) (k : ℤ) :
    Lasting checkRules (Commits r) t fun s => Unwritten t s ∧ Holds r t k s where
  rely _ _ h hs := ⟨h.1.rely hs, h.2.rely hs⟩
  keeps _ _ hinv hfree := (checks_private r t).locking hinv hfree
  locking _ ks _ h := ⟨h.1, h.2.locking ks⟩

/-- A row that is read with `flag=0`. -/
theorem open_of_selectBalance {sql : MySQL D} {dbl : Doubles D} (h : Unwritten t s)
    {account_id : ℤ} {forUpdate : Bool} {sel : Selection D} {x : D}
    (hsel : s.selectBalance sql dbl t (.int account_id) forUpdate = some sel)
    (hx : sel.balances.head? = some x) :
    sel.locks = (if forUpdate then [account_id] else []) ∧
      ∀ row, s.accounts.committed account_id = some row → row.flag = 0 := by
  simp only [selectBalance] at hsel
  rw [h.view_eq] at hsel
  split at hsel
  · rename_i row hrow
    obtain rfl := Option.some.inj hsel
    refine ⟨rfl, fun row' hrow' => ?_⟩
    rw [hrow] at hrow'
    obtain rfl := Option.some.inj hrow'
    by_contra hflag
    rw [if_neg hflag] at hx
    cases hx
  · obtain rfl := Option.some.inj hsel
    cases hx

variable [DecidableEq T]

/-- Changes of rows that are due to be changed. -/
theorem Proper.writes {rows : List (ℤ × AccountRow)} (h : Proper r t s)
    (hrows : ∀ p ∈ rows, ∀ row, s.accounts.committed p.1 = some row → Due r p.1 row) :
    Proper r t (s.writes t rows) := by
  intro k row' hwritten
  have hcommitted : (s.writes t rows).accounts.committed = s.accounts.committed :=
    RowStore.writeAll_committed
  rw [writes_owner, hcommitted]
  by_cases hk : k ∈ rows.map Prod.fst
  · rw [if_pos hk]
    obtain ⟨p, hp, rfl⟩ := List.mem_map.mp hk
    exact ⟨rfl, hrows p hp⟩
  · rw [if_neg hk]
    refine h k row' ?_
    rwa [← RowStore.writeAll_written_of_not_mem hk]

theorem Holds.writes {rows : List (ℤ × AccountRow)} (h : Holds r t k s) :
    Holds r t k (s.writes t rows) := by
  have hcommitted : (s.writes t rows).accounts.committed = s.accounts.committed :=
    RowStore.writeAll_committed
  refine ⟨?_, ?_⟩
  · rw [writes_owner, h.1, ite_self]
  · rw [hcommitted]
    exact h.2

/-- The commit of proper changes. -/
theorem Proper.keeps_commit (h : Proper r t s) (hs : s.accounts.Locked) :
    Keeps checkRules (Commits r) t s (s.commit t) where
  inv := hs.commit
  leave k row hrow hchanged := by
    cases hwritten : s.accounts.written t k with
    | some row' => exact (h k row' hwritten).2 row hrow
    | none =>
      have hsame : (s.commit t).accounts.committed k = s.accounts.committed k := by
        change s.accounts.view t k = _
        rw [RowStore.view, hwritten, Option.none_or]
      rw [hsame] at hchanged
      exact absurd hrow hchanged
  others u hu := RowStore.spares_commit hs hu.symm

/-- Before its changes `t` has locked the accounts `ks`, all due to be changed. -/
structure Prepared (r : Request D) (t : T) (ks : List ℤ) (s : Database T) : Prop where
  proper : Proper r t s
  holds : ∀ k ∈ ks, Holds r t k s

variable {ks : List ℤ} {C : Database T → Statement → Prop} {sql : MySQL D} {dbl : Doubles D}

omit [DecidableEq T] in
theorem Prepared.rely (h : Prepared r t ks s) (hs : s.accounts.Spares t s'.accounts) :
    Prepared r t ks s' where
  proper := h.proper.rely hs
  holds k hk := (h.holds k hk).rely hs

theorem Prepared.writes {rows : List (ℤ × AccountRow)} (h : Prepared r t ks s)
    (hrows : ∀ p ∈ rows, p.1 ∈ ks) : Prepared r t ks (s.writes t rows) where
  proper := h.proper.writes fun p hp => (h.holds p.1 (hrows p hp)).2
  holds k hk := (h.holds k hk).writes

omit [DecidableEq T] in
/-- A row that is due to be changed stays so while the update of its password waits. -/
theorem due_of_calm {newPass : Text} {row : AccountRow}
    (hcalm : undisturbed.calm (.updatePass newPass k) s s')
    (hrow : s'.accounts.committed k = some row)
    (hdue : ∀ row, s.accounts.committed k = some row → Due r k row) : Due r k row := by
  obtain ⟨hflag, hpass⟩ := hcalm
  simp only [flagOf, passOf, hrow, Option.map_some] at hflag hpass
  obtain ⟨old, hold, hsame⟩ := Option.map_eq_some_iff.mp hflag.symm
  rw [hold, Option.map_some, Option.some.injEq] at hpass
  rw [Due, ← hsame, hpass]
  exact hdue old hold

section Statements

theorem does_updateBalance (h : Prepared r t ks s) {clause : AccountId} {change : ℤ}
    (hids : ∀ s ids, C s (.updateBalance clause change) → s.updated sql t clause = some ids →
      ∀ k ∈ ids, k ∈ ks) :
    Does (system sql dbl) checkRules C (Commits r) t (querySQL (.updateBalance clause change))
      (fun _ s => Prepared r t ks s) s := by
  refine Does.invoke fun s' ok a s'' hinv hspares hready hC hperform => ?_
  have hs' : Prepared r t ks s' := h.rely hspares
  rcases perform_updateBalance sql dbl hperform with ⟨rfl, rfl⟩ | ⟨rfl, rows, hupdate, rfl, rfl⟩
  · exact ⟨(checks_private r t).same hinv, fun x hx => by cases hx⟩
  · have hfree : ∀ p ∈ rows, s'.accounts.Free t p.1 :=
      ready_updateBalance sql dbl (hready rfl) hupdate
    obtain ⟨ids, hupdated, hmap, -⟩ := updateBalance_eq_some hupdate
    refine ⟨(checks_private r t).writes hinv hfree, fun _ _ => hs'.writes fun p hp => ?_⟩
    refine hids s' ids hC hupdated p.1 ?_
    rw [← hmap]
    exact List.mem_map_of_mem hp

omit [DecidableEq T] in
theorem mem_updated_int {account_id : ℤ} {ids : List ℤ}
    (h : s.updated sql t (.int account_id) = some ids) (hk : k ∈ ids) : k = account_id := by
  simp only [updated, Option.some.injEq] at h
  rw [← h] at hk
  split at hk
  · exact List.mem_singleton.mp hk
  · exact absurd hk List.not_mem_nil

theorem does_updateFlag (h : Prepared r t ks s) {account_id : ℤ} (hk : account_id ∈ ks) :
    Does (system sql dbl) checkRules C (Commits r) t (querySQL (.updateFlag account_id))
      (fun _ s => Prepared r t ks s) s := by
  refine Does.invoke fun s' ok a s'' hinv hspares hready _ hperform => ?_
  have hs' : Prepared r t ks s' := h.rely hspares
  rcases perform_updateFlag sql dbl hperform with ⟨rfl, rfl⟩ | ⟨rfl, rfl⟩
  · exact ⟨(checks_private r t).same hinv, fun x hx => by cases hx⟩
  · have hfree : ∀ p ∈ s'.updateFlag t account_id, s'.accounts.Free t p.1 :=
      ready_updateFlag sql dbl (hready rfl)
    refine ⟨(checks_private r t).writes hinv hfree, fun _ _ => hs'.writes fun p hp => ?_⟩
    simp only [updateFlag] at hp
    split at hp
    · rw [List.mem_singleton.mp hp]
      exact hk
    · exact absurd hp List.not_mem_nil

theorem does_insertTrans (h : Prepared r t ks s) {account_id : ℤ} {other : Option ℤ}
    {abstract_id money balance : ℤ} :
    Does (system sql dbl) checkRules C (Commits r) t
      (querySQL (.insertTrans account_id other abstract_id money balance))
      (fun _ s => Prepared r t ks s) s := by
  refine Does.invoke fun s' ok a s'' hinv hspares _ _ hperform => ?_
  have hs' : Prepared r t ks s' := h.rely hspares
  have hsame : s''.accounts = s'.accounts := perform_insertTrans_accounts sql dbl hperform
  refine ⟨(checks_private r t).keeps _ _ hinv (hsame ▸ hinv) (by rw [hsame]) fun u _ => ?_,
    fun _ _ => hs'.rely ?_⟩
  · rw [hsame]
    exact .refl u s'.accounts
  · rw [hsame]
    exact .refl t s'.accounts

/-- A new account is not one that there was before. -/
theorem does_insertAccount (h : Unwritten t s) {name pass id : Text} {balance : ℤ}
    (hC : ∀ s, C s (.insertAccount name pass id balance) →
      ∀ new ∈ sql.insertAccount name pass id balance s.nextAccount (s.accounts.view t),
        ∀ p ∈ new.rows, s.accounts.view t p.1 = none) :
    Does (system sql dbl) checkRules C (Commits r) t
      (querySQL (.insertAccount name pass id balance)) (fun _ s => Prepared r t [] s) s := by
  refine Does.invoke fun s' ok a s'' hinv hspares hready hC' hperform => ?_
  have hs' : Unwritten t s' := h.rely hspares
  rcases perform_insertAccount sql dbl hperform with ⟨rfl, rfl⟩ | ⟨rfl, new, hnew, rfl, rfl⟩
  · exact ⟨(checks_private r t).same hinv, fun x hx => by cases hx⟩
  · have hfree : ∀ p ∈ new.rows, s'.accounts.Free t p.1 :=
      ready_insertAccount sql dbl (hready rfl) hnew
    have hkeeps := (checks_private r t).writes hinv hfree
    refine ⟨(checks_private r t).keeps _ _ hinv hkeeps.inv RowStore.writeAll_committed
      hkeeps.others, fun _ _ => ⟨?_, fun k hk => absurd hk List.not_mem_nil⟩⟩
    refine (proper_of_unwritten hs').writes fun p hp row hrow => ?_
    have hnone := hC s' hC' new hnew p hp
    rw [hs'.view_eq, hrow] at hnone
    cases hnone

theorem does_commit (h : Prepared r t ks s) :
    Does (system sql dbl) checkRules C (Commits r) t (querySQL .commit) (fun _ _ => True) s := by
  refine Does.invoke fun s' ok a s'' hinv hspares _ _ hperform => ?_
  have hs' : Prepared r t ks s' := h.rely hspares
  rcases perform_commit sql dbl hperform with ⟨rfl, rfl⟩ | rfl
  · exact ⟨(checks_private r t).same hinv, fun x hx => by cases hx⟩
  · exact ⟨hs'.proper.keeps_commit hinv, fun _ _ => trivial⟩

/-- The statements that an operation ends with. -/
theorem does_end (h : Prepared r t ks s) (q : Statement) (hq : Quiet q)
    {f : Answer D q → ℤ × Account D} :
    Does (system sql dbl) checkRules C (Commits r) t
      (do
        querySQL .commit
        let item ← querySQL q
        return f item) (fun _ _ => True) s := by
  refine (does_commit h).bind fun _ s _ => ?_
  refine ((checks_private r t).harmless.does_quiet (fun _ _ _ _ => trivial) trivial hq).bind
    fun _ s _ => ?_
  exact Does.pure trivial

/-- The password clause, which has waited while the account was not closed: it finds the row
only with the right password, and the account is still open. -/
theorem awaits_selectPass (h : Unwritten t s) {account_id : ℤ} {pass : Text} {forUpdate : Bool}
    (hopen : ∀ row, s.accounts.committed account_id = some row → row.flag = 0)
    (hC : ∀ s, C s (.selectBalancePass account_id pass forUpdate) →
      Compares (s.accounts.view t) account_id pass forUpdate
        (sql.selectPass account_id pass forUpdate (s.accounts.view t))) :
    Awaits (system sql dbl) checkRules undisturbed C (Commits r) t
      (querySQL (.selectBalancePass account_id pass forUpdate))
      (fun (rs : List D) s => Unwritten t s ∧ ∀ _x ∈ rs.head?,
        (forUpdate = true → s.accounts.owner account_id = some t) ∧
        ∀ row, s.accounts.committed account_id = some row → row.flag = 0 ∧ row.pass = pass) s := by
  refine Awaits.invoke fun s' ok a s'' hinv hspares hcalm hready hC' hperform => ?_
  have hs' : Unwritten t s' := h.rely hspares
  rcases perform_selectBalancePass sql dbl hperform with
    ⟨rfl, rfl⟩ | ⟨rfl, sel, hsel, rfl, rfl⟩
  · exact ⟨(checks_private r t).same hinv, fun x hx => by cases hx⟩
  · have hfree : ∀ k ∈ sel.locks, s'.accounts.Free t k :=
      ready_selectPass sql dbl (hready rfl) hsel
    refine ⟨(checks_private r t).locking hinv hfree, fun rs hrs => ⟨hs', fun x hx => ?_⟩⟩
    obtain rfl := Option.some.inj hrs
    obtain ⟨hlock, hpass⟩ := hC s' hC' sel hsel x hx
    refine ⟨fun hfor => if_pos (hlock hfor), fun row hrow => ⟨?_, hpass row ?_⟩⟩
    · have hflag : (s'.accounts.committed account_id).map (·.flag) =
          (s.accounts.committed account_id).map (·.flag) := hcalm
      have hrow' : s'.accounts.committed account_id = some row := hrow
      rw [hrow', Option.map_some] at hflag
      obtain ⟨old, hold, hsame⟩ := Option.map_eq_some_iff.mp hflag.symm
      rw [← hsame]
      exact hopen old hold
    · rw [hs'.view_eq]
      exact hrow

/-- `update bank_account set pass=…` commits itself, after the account has waited undisturbed. -/
theorem awaits_updatePass (h : Unwritten t s) {newPass : Text} {account_id : ℤ}
    (hdue : ∀ row, s.accounts.committed account_id = some row → Due r account_id row)
    (hC : ∀ s, C s (.updatePass newPass account_id) →
      ∀ rows ∈ sql.updatePass newPass account_id (s.accounts.view t),
        ∀ p ∈ rows, p.1 = account_id) :
    Awaits (system sql dbl) checkRules undisturbed C (Commits r) t
      (querySQL (.updatePass newPass account_id)) (fun _ _ => True) s := by
  refine Awaits.invoke fun s' ok a s'' hinv hspares hcalm hready hC' hperform => ?_
  have hs' : Unwritten t s' := h.rely hspares
  rcases perform_updatePass sql dbl hperform with ⟨rfl, rfl⟩ | ⟨rfl, rows, hrows, rfl, rfl⟩
  · exact ⟨(checks_private r t).same hinv, fun x hx => by cases hx⟩
  · have hfree : ∀ p ∈ rows, s'.accounts.Free t p.1 :=
      ready_updatePass sql dbl (hready rfl) hrows
    have hdue' : ∀ row, s'.accounts.committed account_id = some row → Due r account_id row :=
      fun row hrow => due_of_calm hcalm hrow hdue
    have hproper := (proper_of_unwritten (r := r) hs').writes fun p hp row hrow => by
      rw [hC s' hC' rows hrows p hp] at hrow ⊢
      exact hdue' row hrow
    have hwrites := (checks_private r t).writes hinv hfree
    have hcommits := hproper.keeps_commit hwrites.inv
    refine ⟨⟨hcommits.inv, fun k row hrow => hcommits.leave k row ?_, fun u hu => ?_⟩,
      fun _ _ => trivial⟩
    · have hcommitted : (s'.writes t rows).accounts.committed = s'.accounts.committed :=
        RowStore.writeAll_committed
      rwa [hcommitted]
    · exact (hwrites.others u hu).trans (hcommits.others u hu)

end Statements

section Operations
variable {account : Account D}

/-- The tests of `WithDraw`, `Transfer` and `CloseAccount`, after which the account is locked
and due to be changed. -/
theorem awaits_checkAccount (h : Unwritten t s) (hr : r.account = account)
    (hC : ∀ s, C s (.selectBalancePass account.account_id account.pass true) →
      Compares (s.accounts.view t) account.account_id account.pass true
        (sql.selectPass account.account_id account.pass true (s.accounts.view t))) :
    Awaits (system sql dbl) checkRules undisturbed C (Commits r) t (checkAccount account)
      (fun result s => Unwritten t s ∧ ∀ x, result = .inr x →
        Holds r t account.account_id s) s := by
  have hharmless := (checks_private r t).harmless
  have hlasting := lasting_unwritten r t
  refine (hharmless.does_open hlasting.rely h).awaits.bind fun _ s h => ?_
  refine (hharmless.does_startTransaction hlasting.rely h).awaits.bind fun _ s h => ?_
  refine (hharmless.does_selectBalance
    (fun _ s => ∀ row, s.accounts.committed account.account_id = some row → row.flag = 0)
    hlasting h fun s sel x h _ hsel hx => (open_of_selectBalance h hsel hx).2).awaits.bind
    fun (rs : List D) s hrs => ?_
  cases rs with
  | nil => exact (Does.pure ⟨hrs.1, fun x hx => by cases hx⟩).awaits
  | cons x rest =>
    refine (awaits_selectPass hrs.1 (hrs.2 x rfl) hC).bind fun (rs : List D) s hrs => ?_
    cases rs with
    | nil => exact (Does.pure ⟨hrs.1, fun x hx => by cases hx⟩).awaits
    | cons balance rest =>
      obtain ⟨hlock, hdue⟩ := hrs.2 balance rfl
      refine (Does.pure ⟨hrs.1, fun _ _ => ⟨hlock rfl, fun row hrow => ?_⟩⟩).awaits
      exact ⟨(hdue row hrow).1, fun _ _ => hr ▸ (hdue row hrow).2⟩

theorem does_openAccount (h : Unwritten t s) :
    Does (system sql dbl) checkRules (fun s q => Plain sql (.openAccount account) s t q)
      (Commits (.openAccount account)) t (openAccount dbl account) (fun _ _ => True) s := by
  have hharmless := (checks_private (.openAccount account) t).harmless
  refine (hharmless.does_open (fun _ _ => Unwritten.rely) h).bind fun _ s h => ?_
  refine (hharmless.does_startTransaction (fun _ _ => Unwritten.rely) h).bind fun _ s h => ?_
  refine (does_insertAccount h fun s hplain => hplain).bind fun (account_id : ℤ) s h => ?_
  refine (does_insertTrans h).bind fun _ s h => ?_
  exact does_end h (.selectOpenDate account_id) trivial

theorem does_deposit (h : Unwritten t s) :
    Does (system sql dbl) checkRules C (Commits (.deposit account)) t (deposit dbl account)
      (fun _ _ => True) s := by
  have hharmless := (checks_private (.deposit account) t).harmless
  refine (hharmless.does_open (fun _ _ => Unwritten.rely) h).bind fun _ s h => ?_
  refine (hharmless.does_startTransaction (fun _ _ => Unwritten.rely) h).bind fun _ s h => ?_
  refine (hharmless.does_selectBalance
    (fun _ s => Holds (.deposit account) t account.account_id s) (lasting_unwritten _ t) h
    fun s sel x h _ hsel hx => ?_).bind fun (rs : List D) s hrs => ?_
  · obtain ⟨hlocks, hopen⟩ := open_of_selectBalance h hsel hx
    refine ⟨if_pos ?_, fun row hrow => ⟨hopen row hrow, fun hpass => hpass.elim⟩⟩
    rw [hlocks, if_pos rfl]
    exact List.mem_singleton.mpr rfl
  · cases rs with
    | nil => exact Does.pure trivial
    | cons balance rest =>
      have hprepared : Prepared (.deposit account) t [account.account_id] s :=
        ⟨proper_of_unwritten hrs.1, List.forall_mem_singleton.mpr (hrs.2 balance rfl)⟩
      refine (does_updateBalance hprepared fun s ids _ hids k hk =>
        List.mem_singleton.mpr (mem_updated_int hids hk)).bind fun _ s h => ?_
      refine (does_insertTrans h).bind fun trans_id s h => ?_
      exact does_end h (.selectName trans_id) trivial

theorem awaits_withDraw (h : Unwritten t s) :
    Awaits (system sql dbl) checkRules undisturbed
      (fun s q => Plain sql (.withDraw account) s t q) (Commits (.withDraw account)) t
      (withDraw dbl account) (fun _ _ => True) s := by
  refine (awaits_checkAccount h rfl fun s hplain => hplain).bind fun result s hresult => ?_
  obtain ⟨h, hholds⟩ := hresult
  cases result with
  | inl code => exact (Does.pure trivial).awaits
  | inr balance =>
    have hprepared : Prepared (.withDraw account) t [account.account_id] s :=
      ⟨proper_of_unwritten h, List.forall_mem_singleton.mpr (hholds balance rfl)⟩
    dsimp only
    split
    · exact (Does.pure trivial).awaits
    · refine (does_updateBalance hprepared fun s ids _ hids k hk =>
        List.mem_singleton.mpr (mem_updated_int hids hk)).awaits.bind fun _ s h => ?_
      refine (does_insertTrans h).awaits.bind fun trans_id s h => ?_
      exact (does_end h (.selectName trans_id) trivial).awaits

theorem awaits_closeAccount (h : Unwritten t s) :
    Awaits (system sql dbl) checkRules undisturbed
      (fun s q => Plain sql (.closeAccount account) s t q) (Commits (.closeAccount account)) t
      (closeAccount account) (fun _ _ => True) s := by
  refine (awaits_checkAccount h rfl fun s hplain => hplain).bind fun result s hresult => ?_
  obtain ⟨h, hholds⟩ := hresult
  cases result with
  | inl code => exact (Does.pure trivial).awaits
  | inr balance =>
    have hprepared : Prepared (.closeAccount account) t [account.account_id] s :=
      ⟨proper_of_unwritten h, List.forall_mem_singleton.mpr (hholds balance rfl)⟩
    refine ((checks_private _ t).harmless.does_quiet
      (q := .selectInterest account.account_id) (fun _ _ => Prepared.rely) hprepared
      trivial).awaits.bind fun _ s h => ?_
    refine (does_updateFlag h (List.mem_singleton.mpr rfl)).awaits.bind fun _ s h => ?_
    exact (does_end h (.selectHolder account.account_id) trivial).awaits

theorem awaits_transfer {otherAccountId : Text} {unset : ℤ} (h : Unwritten t s) :
    Awaits (system sql dbl) checkRules undisturbed
      (fun s q => Plain sql (.transfer account otherAccountId unset) s t q)
      (Commits (.transfer account otherAccountId unset)) t
      (transfer dbl account otherAccountId unset) (fun _ _ => True) s := by
  have hharmless := (checks_private (.transfer account otherAccountId unset) t).harmless
  refine (awaits_checkAccount h rfl fun s hplain => hplain).bind fun result s hresult => ?_
  obtain ⟨h, hholds⟩ := hresult
  cases result with
  | inl code => exact (Does.pure trivial).awaits
  | inr balance =>
    have hown := hholds balance rfl
    dsimp only
    split
    · exact (Does.pure trivial).awaits
    · refine (hharmless.does_selectBalance (fun _ s => Holds
        (.transfer account otherAccountId unset) t (readInt otherAccountId unset) s)
        (lasting_holds _ t _) ⟨h, hown⟩ fun s sel x h hplain hsel hx => ?_).awaits.bind
        fun (rs : List D) s hrs => ?_
      · obtain ⟨hlock, hopen⟩ := hplain sel hsel x hx
        refine ⟨if_pos hlock, fun row hrow => ⟨hopen row ?_, fun hpass hself => ?_⟩⟩
        · rw [h.1.view_eq]
          exact hrow
        · rw [hself] at hrow
          exact (h.2.2 row hrow).2 hpass rfl
      · obtain ⟨⟨h, hown⟩, hother⟩ := hrs
        cases rs with
        | nil => exact (Does.pure trivial).awaits
        | cons balance2 rest =>
          have hprepared : Prepared (.transfer account otherAccountId unset) t
              [account.account_id, readInt otherAccountId unset] s :=
            ⟨proper_of_unwritten h, List.forall_mem_cons.mpr
              ⟨hown, List.forall_mem_singleton.mpr (hother balance2 rfl)⟩⟩
          refine (does_updateBalance hprepared fun s ids _ hids k hk => ?_).awaits.bind
            fun _ s h => ?_
          · rw [mem_updated_int hids hk]
            exact List.mem_cons_self ..
          · refine (does_updateBalance h fun s ids hplain hids k hk => ?_).awaits.bind
              fun _ s h => ?_
            · rw [hplain ids hids k hk]
              exact List.mem_cons_of_mem _ (List.mem_singleton.mpr rfl)
            · refine (does_insertTrans h).awaits.bind fun trans_id s h => ?_
              refine (hharmless.does_quiet (q := .selectName trans_id)
                (fun _ _ => Prepared.rely) h trivial).awaits.bind fun _ s h => ?_
              refine (does_insertTrans h).awaits.bind fun _ s h => ?_
              exact ((does_commit h).bind fun _ s _ => Does.pure trivial).awaits

theorem awaits_changePassword {newPass : Text} (h : Unwritten t s) :
    Awaits (system sql dbl) checkRules undisturbed
      (fun s q => Plain sql (.changePassword account newPass) s t q)
      (Commits (.changePassword account newPass)) t (changePassword account newPass)
      (fun _ _ => True) s := by
  have hharmless := (checks_private (.changePassword account newPass) t).harmless
  refine (hharmless.does_open (fun _ _ => Unwritten.rely) h).awaits.bind fun _ s h => ?_
  refine (hharmless.does_selectBalance
    (fun _ s => ∀ row, s.accounts.committed account.account_id = some row → row.flag = 0)
    (lasting_unwritten _ t) h
    fun s sel x h _ hsel hx => (open_of_selectBalance h hsel hx).2).awaits.bind
    fun (rs : List D) s hrs => ?_
  cases rs with
  | nil => exact (Does.pure trivial).awaits
  | cons x rest =>
    refine (awaits_selectPass hrs.1 (hrs.2 x rfl) fun s hplain => hplain).bind
      fun (rs : List D) s hrs => ?_
    cases rs with
    | nil => exact (Does.pure trivial).awaits
    | cons balance rest =>
      obtain ⟨-, hdue⟩ := hrs.2 balance rfl
      refine (awaits_updatePass (r := .changePassword account newPass) hrs.1
        (fun row hrow => ⟨(hdue row hrow).1, fun _ _ => (hdue row hrow).2⟩)
        fun s hplain => hplain).bind fun _ s _ => ?_
      exact (Does.pure trivial).awaits

/-- The whole operation runs well when its `try` block does. -/
theorem waits_guarded {body handler : Sql D (ℤ × Account D)}
    (hbody : Awaits (system sql dbl) checkRules undisturbed C (Commits r) t body
      (fun _ _ => True) s)
    (hhandler : ∀ s post, (∀ outcome s, post outcome s) →
      Runs (system sql dbl) checkRules C (Commits r) t handler.run post s) :
    Waits (system sql dbl) checkRules undisturbed C (Commits r) t (guarded body handler)
      (fun _ s => checkRules.idle t s) s := by
  have hharmless := (checks_private r t).harmless
  refine Waits.bind (Waits.bind (hbody.mono fun outcome s' _ => ?_))
  cases outcome with
  | ok x => exact (hharmless.runs_close (.ok x)).waits
  | error e =>
    have hclose := hhandler s' (fun outcome s => Runs (system sql dbl) checkRules C (Commits r) t
      (.call .close fun _ => .ret outcome) (fun _ s => checkRules.idle t s) s)
      fun outcome s => hharmless.runs_close outcome
    exact hclose.waits.mono fun _ _ h => h.waits

omit [DecidableEq T] in
theorem unwritten_of_idle (h : s.accounts.Locked) (hidle : ∀ k, s.accounts.owner k ≠ some t) :
    Unwritten t s := by
  intro k
  cases hrow : s.accounts.written t k with
  | none => rfl
  | some row => exact absurd (h t k row hrow) (hidle k)

theorem sure_execute :
    Sure (system (T := T) sql dbl) checkRules undisturbed (plain sql) (execute dbl) := by
  intro r t s _ hinv hidle
  have hharmless := (checks_private r t).harmless
  have h : Unwritten t s := unwritten_of_idle hinv hidle
  cases r with
  | openAccount account =>
    exact waits_guarded (does_openAccount h).awaits
      fun s post => hharmless.runs_rollbackHandler account
  | deposit account =>
    exact waits_guarded (does_deposit h).awaits fun s post => hharmless.runs_rollbackHandler account
  | withDraw account =>
    exact waits_guarded (awaits_withDraw h) fun s post => hharmless.runs_rollbackHandler account
  | transfer account otherAccountId unset =>
    exact waits_guarded (awaits_transfer h) fun s post => hharmless.runs_rollbackHandler account
  | closeAccount account =>
    exact waits_guarded (awaits_closeAccount h) fun s post => runs_returnHandler account
  | changePassword account newPass =>
    exact waits_guarded (awaits_changePassword h) fun s post => runs_returnHandler account

end Operations

section Checks

/-- The runs whose raw text means what the code means by it, and in which no step closes an
account or changes its password while another session waits on that. -/
def calmMachine (sql : MySQL D) (dbl : Doubles D) :
    Machine (Threads T D) (Label T (Request D)) Fault :=
  (machine sql dbl).restrict fun s a =>
    Allowed (plain sql) s a ∧ Calm (system sql dbl) undisturbed (execute dbl) s a

end Checks

section Samples

instance (accounts : AccountTable) (account_id : ℤ) (pass : Text) (forUpdate : Bool)
    (selection : Option (Selection D)) :
    Decidable (Compares accounts account_id pass forUpdate selection) := by
  unfold Compares
  infer_instance

instance (sql : MySQL D) (r : Request D) (s : Database T) (t : T) (q : Statement) :
    Decidable (Plain sql r s t q) := by
  refine Request.casesOn r ?_ ?_ ?_ ?_ ?_ ?_ <;> intros <;>
    refine Statement.casesOn q ?_ ?_ ?_ ?_ ?_ ?_ ?_ ?_ ?_ ?_ ?_ ?_ ?_ ?_ ?_ ?_ <;> intros <;>
    first
    | exact instDecidableTrue
    | (dsimp only [Plain]; infer_instance)
    | (rename_i account _; refine AccountId.casesOn account ?_ ?_ <;> intro <;>
        dsimp only [Plain] <;> infer_instance)

instance (sql : MySQL D) (r : Request D) : Decidable ((plain (T := T) sql).admits r) :=
  inferInstanceAs (Decidable True)

instance (sql : MySQL D) (r : Request D) (s : Database T) (t : T) (q : Statement) :
    Decidable ((plain sql).allows r s t q) :=
  inferInstanceAs (Decidable (Plain sql r s t q))

/-- A session that is alone disturbs no other. -/
theorem calm_alone (s : Threads Unit D) (a : Label Unit (Request D)) :
    Calm (system sql dbl) undisturbed (execute dbl) s a := by
  cases a with
  | request t r => trivial
  | answer t ok => exact fun s' _ u r q next hne _ => absurd rfl hne

instance (sql : MySQL D) (dbl : Doubles D) (s : Threads Unit D) (a : Label Unit (Request D)) :
    Decidable ((calmMachine sql dbl).enabled s a) :=
  decidable_of_iff ((machine sql dbl).enabled s a ∧ Allowed (plain sql) s a)
    ⟨fun h => ⟨h.1, h.2, calm_alone s a⟩, fun h => ⟨h.1, h.2.1⟩⟩

def steps (t : Bool) (n : ℕ) : List (Label Bool (Request ℤ)) := List.replicate n (.answer t true)

/-- `WithDraw` has read `flag`, the account is closed, and `WithDraw` goes on to its `COMMIT`. -/
def closedMeanwhile : List (Label Bool (Request ℤ)) :=
  .request false (.openAccount (customer 0 10000)) :: steps false 7 ++
    .request true (.withDraw (customer 1 3000)) :: steps true 3 ++
    .request false (.closeAccount (customer 1 0)) :: steps false 9 ++ steps true 3

end Samples

end MuduoServer.BankChecks
