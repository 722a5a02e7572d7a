import MuduoServer.BankAgreement

/-!
Who can take money out of an account. `WithDraw` and `Transfer` compare the amount with the
balance that the password clause reads, but no operation looks at its sign, and the password
goes into the clause as it comes. Without amounts below zero where an account is to be
raised, and with password clauses that mean the stored password, no balance becomes negative
and only the holder of the password lowers one.
-/
namespace MuduoServer.Bank

open Sessions FaultMachine

section Safe
variable {T D : Type} (sql : MySQL D) (dbl : Doubles D)

/-- The rows are of accounts that do not lose by them. -/
def Raises (accounts : AccountTable) (rows : List (ℤ × AccountRow)) : Prop :=
  ∀ r ∈ rows, 0 ≤ r.2.balance.cents ∧
    ∀ row ∈ accounts r.1, row.balance.cents ≤ r.2.balance.cents

/-- If a select returns a row, the password is the stored one, the first balance is at most
that of the account, and the row is locked. -/
def Authorizes (accounts : AccountTable) (account_id : ℤ) (pass : Text)
    (selection : Option (Selection D)) : Prop :=
  ∀ sel ∈ selection, ∀ x ∈ sel.balances.head?, account_id ∈ sel.locks ∧
    ∃ row ∈ accounts account_id, row.pass = pass ∧ dbl.print x ≤ row.balance.cents

/-- The amounts that are added are not negative, a password clause that returns a row means
the stored password where money is taken, and other raw text lowers no balance. -/
def Safe (r : Request D) (s : Database T) (t : T) (q : Statement) : Prop :=
  match r, q with
  | .withDraw account, .selectBalancePass account_id pass forUpdate
  | .transfer account _ _, .selectBalancePass account_id pass forUpdate =>
    0 < dbl.print account.balance → Authorizes dbl (s.accounts.view t) account_id pass
      (sql.selectPass account_id pass forUpdate (s.accounts.view t))
  | .deposit _, .updateBalance _ change => 0 ≤ change
  | .transfer account _ _, .updateBalance (.text text) change =>
    ∀ ids ∈ sql.updateOther text (s.accounts.view t), ∀ k ∈ ids, 0 ≤ change ∨
      (k = account.account_id ∧
        centsOf (s.accounts.committed k) ≤ centsOf (s.accounts.view t k) + change)
  | .openAccount _, .insertAccount name pass id balance =>
    ∀ new ∈ sql.insertAccount name pass id balance s.nextAccount (s.accounts.view t),
      Raises (s.accounts.view t) new.rows
  | .changePassword _ _, .updatePass newPass account_id =>
    ∀ rows ∈ sql.updatePass newPass account_id (s.accounts.view t),
      Raises (s.accounts.view t) rows
  | _, _ => True

section Decidable

instance (accounts : AccountTable) (rows : List (ℤ × AccountRow)) :
    Decidable (Raises accounts rows) :=
  inferInstanceAs (Decidable (∀ r ∈ rows, 0 ≤ r.2.balance.cents ∧
    ∀ row ∈ accounts r.1, row.balance.cents ≤ r.2.balance.cents))

instance (accounts : AccountTable) (account_id : ℤ) (pass : Text)
    (selection : Option (Selection D)) :
    Decidable (Authorizes dbl accounts account_id pass selection) := by
  unfold Authorizes
  infer_instance

instance (r : Request D) (s : Database T) (t : T) (q : Statement) :
    Decidable (Safe sql dbl r s t q) := by
  refine Request.casesOn r ?_ ?_ ?_ ?_ ?_ ?_ <;> intros <;>
    refine Statement.casesOn q ?_ ?_ ?_ ?_ ?_ ?_ ?_ ?_ ?_ ?_ ?_ ?_ ?_ ?_ ?_ ?_ <;> intros <;>
    first
    | exact instDecidableTrue
    | (dsimp only [Safe]; infer_instance)
    | (rename_i account _; refine AccountId.casesOn account ?_ ?_ <;> intro <;>
        dsimp only [Safe] <;> infer_instance)

end Decidable

/-- An account loses money only to a request with its number and its password, and not more
than it has. -/
def Takes (r : Request D) (s s' : Database T) : Prop :=
  ∀ k row, s.accounts.committed k = some row → ∃ row', s'.accounts.committed k = some row' ∧
    (row'.balance.cents < row.balance.cents → k = r.account.account_id ∧
      row.pass = r.account.pass ∧ row.balance.cents - row'.balance.cents ≤ row.balance.cents)

def safe : Contract T (Database T) (Request D) Statement where
  admits _ := True
  allows := Safe sql dbl
  leave := Takes

instance (r : Request D) : Decidable ((safe (T := T) sql dbl).admits r) :=
  inferInstanceAs (Decidable True)

instance (r : Request D) (s : Database T) (t : T) (q : Statement) :
    Decidable ((safe sql dbl).allows r s t q) :=
  inferInstanceAs (Decidable (Safe sql dbl r s t q))

end Safe

section Store
variable {strict : Bool} {v : ℤ} {b d : Decimal}

theorem store_ge (h : store strict v = some d) (hv : b.cents ≤ v) : b.cents ≤ d.cents := by
  have hb := b.fits
  unfold store at h
  split at h
  · rw [← Option.some.inj h]
    exact hv
  · split at h
    · cases h
    · split at h
      · rw [← Option.some.inj h]
        dsimp only
        omega
      · omega

theorem store_nonneg (h : store strict v = some d) (hv : 0 ≤ v) : 0 ≤ d.cents :=
  store_ge (b := ⟨0, by decide⟩) h hv

end Store

namespace Database
variable {T D : Type} {s s' : Database T} {t u : T} {account : Account D} {r : Request D}

structure Solvent (s : Database T) : Prop where
  locked : s.accounts.Locked
  nonneg : ∀ k row, s.accounts.committed k = some row → 0 ≤ row.balance.cents

def moneyRules : Rules T (Database T) where
  inv := Solvent
  rely t s s' := s.accounts.Spares t s'.accounts
  idle t s := ∀ k, s.accounts.owner k ≠ some t
  refl t s := .refl t s.accounts
  trans _ _ _ _ := .trans
  idle_rely _ _ _ h hs k hk := h k ((hs.owner k).mp hk)

/-- The changes of `t` that are not committed lower an account only for its holder. -/
def Fair (t : T) (account : Account D) (s : Database T) : Prop :=
  ∀ k row', s.accounts.written t k = some row' → s.accounts.owner k = some t ∧
    0 ≤ row'.balance.cents ∧ ∀ row, s.accounts.committed k = some row →
      row.balance.cents ≤ row'.balance.cents ∨
        (k = account.account_id ∧ row.pass = account.pass)

/-- Where money is to be taken, `t` has locked the account, the password is right and the
amount `cents` at most the balance. -/
def Checked (t : T) (account : Account D) (amount cents : ℤ) (s : Database T) : Prop :=
  0 < amount → s.accounts.owner account.account_id = some t ∧
    ∃ row, s.accounts.committed account.account_id = some row ∧ row.pass = account.pass ∧
      cents ≤ row.balance.cents

/-- `t` has changed no account. -/
def Unwritten (t : T) (s : Database T) : Prop := ∀ k, s.accounts.written t k = none

/-- A new row for an account that leaves the changes fair. -/
def FairRow (account : Account D) (s : Database T) (p : ℤ × AccountRow) : Prop :=
  0 ≤ p.2.balance.cents ∧ ∀ row, s.accounts.committed p.1 = some row →
    row.balance.cents ≤ p.2.balance.cents ∨ (p.1 = account.account_id ∧ row.pass = account.pass)

theorem Fair.rely (h : Fair t account s) (hs : s.accounts.Spares t s'.accounts) :
    Fair t account s' := by
  intro k row' hwritten
  rw [hs.written] at hwritten
  obtain ⟨howner, hnonneg, hall⟩ := h k row' hwritten
  refine ⟨(hs.owner k).mpr howner, hnonneg, fun row hrow => hall row ?_⟩
  rwa [hs.committed k howner] at hrow

theorem Checked.rely {amount cents : ℤ} (h : Checked t account amount cents s)
    (hs : s.accounts.Spares t s'.accounts) : Checked t account amount cents s' := by
  intro hpositive
  obtain ⟨howner, row, hrow, hpass⟩ := h hpositive
  exact ⟨(hs.owner _).mpr howner, row, by rwa [hs.committed _ howner], hpass⟩

theorem Checked.locking {amount cents : ℤ} (h : Checked t account amount cents s) (ks : List ℤ) :
    Checked t account amount cents (s.locking t ks) := by
  intro hpositive
  obtain ⟨howner, hrow⟩ := h hpositive
  refine ⟨?_, hrow⟩
  rw [Database.locking, RowStore.lock_owner, howner, ite_self]

/-- The amount is at most the balance that the password clause has read. -/
theorem Checked.amount {dbl : Doubles D} {amount x : D}
    (h : Checked t account (dbl.print amount) (dbl.print x) s) (hgt : dbl.gt amount x = false) :
    Checked t account (dbl.print amount) (dbl.print amount) s := by
  intro hpositive
  obtain ⟨howner, row, hrow, hpass, hle⟩ := h hpositive
  exact ⟨howner, row, hrow, hpass, Int.le_trans (dbl.print_le amount x hgt) hle⟩

theorem Unwritten.rely (h : Unwritten t s) (hs : s.accounts.Spares t s'.accounts) :
    Unwritten t s' := by
  intro k
  rw [hs.written]
  exact h k

theorem Unwritten.fair (h : Unwritten t s) (account : Account D) : Fair t account s := by
  intro k row' hwritten
  rw [h k] at hwritten
  cases hwritten

theorem Unwritten.view_eq (h : Unwritten t s) (k : ℤ) :
    s.accounts.view t k = s.accounts.committed k := by
  rw [RowStore.view, h k, Option.none_or]

/-- What a password clause checks that authorizes. -/
theorem Unwritten.checked (h : Unwritten t s) {dbl : Doubles D} {amount : ℤ} {sel : Selection D}
    {x : D} {selection : Option (Selection D)}
    (hauth : 0 < amount → Authorizes dbl (s.accounts.view t) account.account_id account.pass
      selection) (hsel : selection = some sel) (hx : sel.balances.head? = some x) :
    Checked t account amount (dbl.print x) (s.locking t sel.locks) := by
  intro hpositive
  obtain ⟨hlock, row, hrow, hpass, hle⟩ := hauth hpositive sel hsel x hx
  refine ⟨if_pos hlock, row, ?_, hpass, hle⟩
  rw [Option.mem_def, h.view_eq] at hrow
  exact hrow

theorem Solvent.unwritten (h : s.Solvent) (hidle : ∀ k, s.accounts.owner k ≠ some t) :
    Unwritten t s := by
  intro k
  cases hrow : s.accounts.written t k with
  | none => rfl
  | some row => exact absurd (h.locked t k row hrow) (hidle k)

/-- A row that `t` reads is one that it has changed fairly, or a committed one. -/
theorem Fair.view (h : Fair t account s) (hs : s.Solvent) {k : ℤ} {row : AccountRow}
    (hrow : s.accounts.view t k = some row) :
    0 ≤ row.balance.cents ∧ ∀ row₀, s.accounts.committed k = some row₀ →
      row₀.balance.cents ≤ row.balance.cents ∨
        (k = account.account_id ∧ row₀.pass = account.pass) := by
  cases hwritten : s.accounts.written t k with
  | some row' =>
    rw [RowStore.view, hwritten, Option.some_or] at hrow
    obtain rfl := Option.some.inj hrow
    exact (h k row' hwritten).2
  | none =>
    rw [RowStore.view, hwritten, Option.none_or] at hrow
    refine ⟨hs.nonneg k row hrow, fun row₀ hrow₀ => ?_⟩
    rw [hrow] at hrow₀
    obtain rfl := Option.some.inj hrow₀
    exact Or.inl (Int.le_refl _)

section FairRow
variable {strict : Bool} {k change : ℤ} {row row' : AccountRow}

/-- A row that gets money. -/
theorem Fair.raised (h : Fair t account s) (hs : s.Solvent) (hrow : s.accounts.view t k = some row)
    (hstore : store strict (row.balance.cents + change) = some row'.balance) (hc : 0 ≤ change) :
    FairRow account s (k, row') := by
  obtain ⟨hnonneg, hall⟩ := h.view hs hrow
  have hle : row.balance.cents ≤ row'.balance.cents := store_ge hstore (by omega)
  refine ⟨Int.le_trans hnonneg hle, fun row₀ hrow₀ => ?_⟩
  exact (hall row₀ hrow₀).imp_left fun hle₀ => Int.le_trans hle₀ hle

/-- The account's own row, from which an amount is taken. -/
theorem Unwritten.taken (h : Unwritten t s) (hs : s.Solvent) {amount : ℤ}
    (hchecked : Checked t account amount amount s)
    (hrow : s.accounts.view t account.account_id = some row)
    (hstore : store strict (row.balance.cents + -amount) = some row'.balance) :
    FairRow account s (account.account_id, row') := by
  rw [h.view_eq] at hrow
  have hnonneg := hs.nonneg _ row hrow
  by_cases hpositive : 0 < amount
  · obtain ⟨-, row₀, hrow₀, hpass, hle⟩ := hchecked hpositive
    rw [hrow] at hrow₀
    obtain rfl := Option.some.inj hrow₀
    refine ⟨store_nonneg hstore (by omega), fun row₁ hrow₁ => Or.inr ⟨rfl, ?_⟩⟩
    rw [hrow] at hrow₁
    rw [← Option.some.inj hrow₁]
    exact hpass
  · have hle : row.balance.cents ≤ row'.balance.cents := store_ge hstore (by omega)
    refine ⟨Int.le_trans hnonneg hle, fun row₁ hrow₁ => Or.inl ?_⟩
    rw [hrow] at hrow₁
    rw [← Option.some.inj hrow₁]
    exact hle

/-- A row that gets back at least what it had. -/
theorem Solvent.restored (hs : s.Solvent) (hrow : s.accounts.view t k = some row)
    (hstore : store strict (row.balance.cents + change) = some row'.balance)
    (hback : centsOf (s.accounts.committed k) ≤ centsOf (s.accounts.view t k) + change) :
    FairRow account s (k, row') := by
  have hcents : centsOf (s.accounts.view t k) = row.balance.cents := by
    rw [hrow]
    rfl
  rw [hcents] at hback
  cases hcommitted : s.accounts.committed k with
  | none =>
    rw [hcommitted] at hback
    refine ⟨store_nonneg hstore hback, fun row₀ hrow₀ => ?_⟩
    rw [hcommitted] at hrow₀
    cases hrow₀
  | some row₀ =>
    rw [hcommitted] at hback
    have hle : row₀.balance.cents ≤ row'.balance.cents := store_ge hstore hback
    refine ⟨Int.le_trans (hs.nonneg k row₀ hcommitted) hle, fun row₁ hrow₁ => Or.inl ?_⟩
    rw [hcommitted] at hrow₁
    rw [← Option.some.inj hrow₁]
    exact hle

/-- Rows that lower no account, when nothing is changed yet. -/
theorem Unwritten.raises (h : Unwritten t s) {rows : List (ℤ × AccountRow)}
    (hrows : Raises (s.accounts.view t) rows) : ∀ p ∈ rows, FairRow account s p := by
  intro p hp
  refine ⟨(hrows p hp).1, fun row hrow => Or.inl ((hrows p hp).2 row ?_)⟩
  rw [h.view_eq]
  exact hrow

end FairRow

variable {G : Database T → Database T → Prop}

theorem private_takes (r : Request D) : Private (T := T) (Takes r) := by
  intro s s' hsame k row hrow
  refine ⟨row, by rwa [hsame], fun hlt => ?_⟩
  omega

/-- A step of `t` that commits nothing. -/
theorem money_private (hG : Private G) : KeepsPrivate moneyRules G t where
  locked _ := Solvent.locked
  keeps s s' h hlocked hcommitted hspares :=
    { inv :=
        { locked := hlocked
          nonneg := fun k row hrow => Solvent.nonneg h k row (by rwa [← hcommitted]) }
      leave := hG s s' hcommitted
      others := hspares }
  rely _ _ h := h
  idle _ h := h

variable [DecidableEq T]

/-- The commit of fair changes. -/
theorem Fair.keeps_commit (h : Fair t r.account s) (hs : s.Solvent) :
    Keeps moneyRules (Takes r) t s (s.commit t) where
  inv :=
    { locked := hs.locked.commit
      nonneg := fun k row hrow => (h.view hs hrow).1 }
  leave k row hrow := by
    cases hview : s.accounts.view t k with
    | none =>
      rw [RowStore.view, Option.or_eq_none_iff] at hview
      rw [hview.2] at hrow
      cases hrow
    | some row' =>
      refine ⟨row', hview, fun hlt => ?_⟩
      obtain ⟨hnonneg, hall⟩ := h.view hs hview
      rcases hall row hrow with hle | hholder
      · omega
      · exact ⟨hholder.1, hholder.2, by omega⟩
  others u hu := RowStore.spares_commit hs.locked hu.symm

/-- Changes that leave the accounts fair. -/
theorem Fair.writes {rows : List (ℤ × AccountRow)} (h : Fair t account s)
    (hrows : ∀ p ∈ rows, FairRow account s p) : Fair t account (s.writes t rows) := by
  intro k row' hwritten
  rw [writes_owner]
  have hcommitted : (s.writes t rows).accounts.committed = s.accounts.committed :=
    RowStore.writeAll_committed
  rw [hcommitted]
  by_cases hk : k ∈ rows.map Prod.fst
  · rw [if_pos hk]
    rcases writes_view s t rows k with ⟨v, hv, hview⟩ | ⟨hnot, _⟩
    · rw [RowStore.view, hwritten, Option.some_or] at hview
      obtain rfl := Option.some.inj hview
      exact ⟨rfl, hrows _ hv⟩
    · exact absurd hk hnot
  · rw [if_neg hk]
    refine h k row' ?_
    rwa [← RowStore.writeAll_written_of_not_mem hk]

end Database

end MuduoServer.Bank
