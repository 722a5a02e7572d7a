import MuduoServer.BankLedger
import Mathlib.Algebra.BigOperators.Finprod

/-!
Each operation of the bank keeps the ledger, statement by statement. The statements with
raw text are taken to mean what the code means by them (`meant`): the password clause reads
and locks the account itself, and the payee's clause the account whose number the code reads
from the text, which is another one.
-/
namespace MuduoServer.Bank

open Sessions

/-- Amounts with two decimals, as exact numbers. -/
structure Doubles.Exact {D : Type} (dbl : Doubles D) : Prop where
  print_add : ∀ b m, dbl.print (dbl.add (dbl.parse b) (dbl.parse m)) = b + m
  print_sub : ∀ b m, dbl.print (dbl.sub (dbl.parse b) (dbl.parse m)) = b - m

section Meant
variable {T D : Type} (sql : MySQL D) (dbl : Doubles D)

/-- The first balance that a select returns is that of the account `k`, whose row it locks. -/
def ReadsLocked (accounts : AccountTable) (k : ℤ) (selection : Option (Selection D)) : Prop :=
  ∀ sel ∈ selection, ∀ x ∈ sel.balances.head?,
    k ∈ sel.locks ∧ (accounts k).map (fun row => dbl.parse row.balance.cents) = some x

/-- The new balance of the account `k` is stored as it is, if it is stored. -/
def Fits (accounts : AccountTable) (k change : ℤ) : Prop :=
  sql.strict = true ∨ ∀ row ∈ accounts k, (row.balance.cents + change).natAbs < 10 ^ 10

/-- `insert into bank_account` makes one account, with the balance given. -/
def Opens (balance next : ℤ) (new : Inserted) : Prop :=
  new.insertId = next ∧ new.next = next + 1 ∧
    match new.rows with
    | [(k, row)] => k = next ∧ store sql.strict balance = some row.balance
    | _ => False

/-- The amount has two decimals, and a transfer goes to another account. -/
def AmountMeant : Request D → Prop
  | .transfer account otherAccountId unset =>
    dbl.parse (dbl.print account.balance) = account.balance ∧
      readInt otherAccountId unset ≠ account.account_id
  | .openAccount account | .deposit account | .withDraw account | .closeAccount account
  | .changePassword account _ => dbl.parse (dbl.print account.balance) = account.balance

/-- The statements with raw text do what the code means by them. -/
def TextMeant (r : Request D) (s : Database T) (t : T) (q : Statement) : Prop :=
  match r, q with
  | .withDraw _, .selectBalancePass account_id pass forUpdate
  | .transfer _ _ _, .selectBalancePass account_id pass forUpdate =>
    ReadsLocked dbl (s.accounts.view t) account_id
      (sql.selectPass account_id pass forUpdate (s.accounts.view t))
  | .transfer _ otherAccountId unset, .selectBalance (.text text) _ =>
    ReadsLocked dbl (s.accounts.view t) (readInt otherAccountId unset)
      (sql.selectOther text (s.accounts.view t))
  | .transfer _ _ _, .updateBalance (.int account_id) change =>
    Fits sql (s.accounts.view t) account_id change
  | .transfer _ otherAccountId unset, .updateBalance (.text text) change =>
    (∀ ids ∈ sql.updateOther text (s.accounts.view t), ids = [readInt otherAccountId unset]) ∧
      Fits sql (s.accounts.view t) (readInt otherAccountId unset) change
  | .openAccount _, .insertAccount name pass id balance =>
    ∀ new ∈ sql.insertAccount name pass id balance s.nextAccount (s.accounts.view t),
      Opens sql balance s.nextAccount new
  | .changePassword _ _, .updatePass newPass account_id =>
    ∀ rows ∈ sql.updatePass newPass account_id (s.accounts.view t),
      ∀ r ∈ rows, balanceOf (s.accounts.view t r.1) = some r.2.balance
  | _, _ => True

section Decidable
variable [DecidableEq D]

instance (accounts : AccountTable) (k : ℤ) (selection : Option (Selection D)) :
    Decidable (ReadsLocked dbl accounts k selection) := by
  unfold ReadsLocked
  infer_instance

instance (accounts : AccountTable) (k change : ℤ) : Decidable (Fits sql accounts k change) := by
  unfold Fits
  infer_instance

instance (balance next : ℤ) (new : Inserted) : Decidable (Opens sql balance next new) := by
  unfold Opens
  split <;> infer_instance

instance (r : Request D) : Decidable (AmountMeant dbl r) := by
  cases r <;> (simp only [AmountMeant]; infer_instance)

instance (r : Request D) (s : Database T) (t : T) (q : Statement) :
    Decidable (TextMeant sql dbl r s t q) := by
  unfold TextMeant
  split <;> infer_instance

end Decidable

def centsOf (row : Option AccountRow) : ℤ := (row.map (·.balance.cents)).getD 0

/-- The sum of all balances, in cents. -/
noncomputable def total (s : Database T) : ℤ := ∑ᶠ k, centsOf (s.accounts.committed k)

/-- A transfer changes the two accounts and not the sum. -/
def Moves (r : Request D) (s s' : Database T) : Prop :=
  match r with
  | .transfer account otherAccountId unset =>
    (∀ k, k ≠ account.account_id → k ≠ readInt otherAccountId unset →
      s'.accounts.committed k = s.accounts.committed k) ∧ total s' = total s
  | _ => True

def meant : Contract T (Database T) (Request D) Statement where
  admits := AmountMeant dbl
  allows := TextMeant sql dbl
  leave := Moves

instance [DecidableEq D] (r : Request D) : Decidable ((meant (T := T) sql dbl).admits r) :=
  inferInstanceAs (Decidable (AmountMeant dbl r))

instance [DecidableEq D] (r : Request D) (s : Database T) (t : T) (q : Statement) :
    Decidable ((meant sql dbl).allows r s t q) :=
  inferInstanceAs (Decidable (TextMeant sql dbl r s t q))

end Meant

namespace Database
variable {T D : Type} [DecidableEq T] {sql : MySQL D} {dbl : Doubles D}
  {C : Database T → Statement → Prop} {G : Database T → Database T → Prop} {t : T}
  {s : Database T} {dirty ws : List ℤ} {old : Option Decimal} {b : Decimal} {k : ℤ}

section Statements

theorem balanceOf_eq_some {row : Option AccountRow} {x : D}
    (h : row.map (fun row => dbl.parse row.balance.cents) = some x) :
    ∃ b, balanceOf row = some b ∧ x = dbl.parse b.cents := by
  obtain ⟨r, hr, rfl⟩ := Option.map_eq_some_iff.mp h
  exact ⟨r.balance, by rw [hr]; rfl, rfl⟩

theorem lasting_clean (hG : Private G) : Lasting ledgerRules G t (Clean t dirty ws) where
  rely _ _ := Clean.rely
  keeps _ _ := keeps_locking hG
  locking _ _ hinv h := h.locking hinv

theorem lasting_has (hG : Private G) :
    Lasting ledgerRules G t fun s => Clean t dirty ws s ∧ Has t k old b s where
  rely _ _ h hs := ⟨h.1.rely hs, h.2.rely hs⟩
  keeps _ _ := keeps_locking hG
  locking _ _ hinv h := ⟨h.1.locking hinv, h.2.locking⟩

/-- `t` has read the balance `x` of the account `k` and locked it. -/
def Reads (dbl : Doubles D) (t : T) (k : ℤ) (x : D) (s : Database T) : Prop :=
  ∃ b, x = dbl.parse b.cents ∧ Has t k (some b) b s

omit [DecidableEq T] in
/-- What `select balance … where account_id=<int> and flag=0 for update` reads and locks. -/
theorem Clean.has_selectBalance (h : Clean t dirty [] s) {account_id : ℤ} {sel : Selection D}
    {x : D} (hsel : s.selectBalance sql dbl t (.int account_id) true = some sel)
    (hx : sel.balances.head? = some x) :
    Reads dbl t account_id x (s.locking t sel.locks) := by
  simp only [selectBalance] at hsel
  split at hsel
  · rename_i row hrow
    obtain rfl := Option.some.inj hsel
    refine ⟨row.balance, ?_, h.has_locking (List.mem_singleton.mpr rfl) (by rw [hrow]; rfl)⟩
    by_cases hflag : row.flag = 0
    · simpa [hflag, eq_comm] using hx
    · simp [hflag] at hx
  · obtain rfl := Option.some.inj hsel
    simp at hx

omit [DecidableEq T] in
/-- What a select reads and locks that means the account `k`. -/
theorem Clean.has_of_reads (h : Clean t dirty [] s) {selection : Option (Selection D)}
    {sel : Selection D} {x : D} (hreads : ReadsLocked dbl (s.accounts.view t) k selection)
    (hsel : selection = some sel) (hx : sel.balances.head? = some x) :
    Reads dbl t k x (s.locking t sel.locks) := by
  obtain ⟨hk, hrow⟩ := hreads sel hsel x hx
  obtain ⟨b, hb, hx⟩ := balanceOf_eq_some hrow
  exact ⟨b, hx, h.has_locking hk hb⟩

omit [DecidableEq T] in
/-- An update of the balance of `k` alone. -/
theorem updateBalance_single {account : AccountId} {change : ℤ} {rows : List (ℤ × AccountRow)}
    (hrows : s.updateBalance sql t account change = some rows)
    (hids : ∀ ids, s.updated sql t account = some ids → ids = [k]) :
    ∃ row row', s.accounts.view t k = some row ∧
      store sql.strict (row.balance.cents + change) = some row'.balance ∧
      rows = [(k, row')] := by
  obtain ⟨ids, hupdated, hmap, hall⟩ := updateBalance_eq_some hrows
  rw [hids ids hupdated] at hmap
  obtain ⟨r, rfl, hr⟩ := List.map_eq_singleton_iff.mp hmap
  obtain ⟨row, balance, hrow, hbalance, hr'⟩ := hall r (List.mem_singleton.mpr rfl)
  rw [hr] at hrow
  refine ⟨row, r.2, hrow, ?_, by rw [← hr]⟩
  rw [hr']
  exact hbalance

/-- `update bank_account set balance=…` of the account `k` alone. -/
theorem does_updateBalance (hG : Private G) (h : Clean t dirty ws s) {account : AccountId}
    {change : ℤ} (hk : Has t k old b s) (fits : Prop)
    (hC : ∀ s, Has t k old b s → C s (.updateBalance account change) →
      (∀ ids, s.updated sql t account = some ids → ids = [k]) ∧ fits) :
    Does (system sql dbl) ledgerRules C G t (querySQL (.updateBalance account change))
      (fun _ s' => Clean t (k :: dirty) (k :: ws) s' ∧
        (∃ b', store sql.strict (b.cents + change) = some b' ∧ Has t k old b' s') ∧ fits ∧
        ∀ j old' c, j ≠ k → Has t j old' c s → Has t j old' c s') s := by
  refine Does.invoke fun s' ok a s'' hinv hrely hready hC' hperform => ?_
  have hs' := h.rely hrely
  have hk' := hk.rely hrely
  obtain ⟨hids, hfits⟩ := hC s' hk' hC'
  rcases perform_updateBalance sql dbl hperform with ⟨rfl, rfl⟩ | ⟨rfl, rows, hrows, rfl, rfl⟩
  · exact ⟨keeps_same hG hinv, fun x hx => by cases hx⟩
  · have hfree : ∀ r ∈ rows, s'.accounts.Free t r.1 :=
      ready_updateBalance sql dbl (hready rfl) hrows
    obtain ⟨row, row', hrow, hbalance, rfl⟩ := updateBalance_single hrows hids
    have hb : row.balance = b := by
      have hviewed := hk'.viewed
      rw [hrow] at hviewed
      exact Option.some.inj hviewed
    have hid : ∀ r ∈ [(k, row')], 1 ≤ r.1 ∧ r.1 < s'.nextAccount := by
      intro r hr
      rw [List.mem_singleton.mp hr]
      exact hinv.viewIds t k (by rw [hrow]; exact Option.some_ne_none row)
    have hclean : Clean t ([(k, row')].map Prod.fst ++ dirty) ([(k, row')].map Prod.fst ++ ws)
        (s'.writes t [(k, row')]) := hs'.writes
    refine ⟨keeps_writes hG hinv hfree (Int.le_refl _) hid, fun _ _ => ⟨hclean, ?_, hfits, ?_⟩⟩
    · exact ⟨row'.balance, hb ▸ hbalance, has_write hk'.committed⟩
    · intro j old' c hj hhas
      exact (hhas.rely hrely).writes fun hmem => hj (List.mem_singleton.mp hmem)

/-- `insert into trans` with the balance that the account has by then. -/
theorem does_insertTrans (hG : Private G) (h : Clean t dirty ws s) {other : Option ℤ}
    {abstract_id money balance : ℤ} (hk : Has t k old b s)
    (hbalance : store sql.strict balance = some b) (dirty' : List ℤ)
    (hdirty : ∀ j ∈ dirty, j = k ∨ j ∈ dirty') :
    Does (system sql dbl) ledgerRules C G t
      (querySQL (.insertTrans k other abstract_id money balance))
      (fun _ s' => Clean t dirty' ws s' ∧
        ∀ j old' c, Has t j old' c s → Has t j old' c s') s := by
  refine Does.invoke fun s' ok a s'' hinv hrely _ _ hperform => ?_
  have hs' := h.rely hrely
  have hk' := hk.rely hrely
  rcases perform_insertTrans sql dbl hperform with ⟨rfl, rfl⟩ | ⟨rfl, row, hrow, rfl, rfl⟩
  · exact ⟨keeps_same hG hinv, fun x hx => by cases hx⟩
  · obtain ⟨hid, haccount, hstore⟩ := insertTrans_eq_some hrow
    have hb : row.balance = b := Option.some.inj (hstore.symm.trans hbalance)
    subst haccount hb
    refine ⟨keeps_inserts hG hinv hk'.owned hid, fun _ _ => ⟨hs'.inserts hk' hdirty, ?_⟩⟩
    exact fun j old' c hhas => (hhas.rely hrely).inserts

/-- The row for the only account that has been changed since its last row. -/
theorem does_insertLast (hG : Private G) (h : Clean t [k] ws s) {other : Option ℤ}
    {abstract_id money balance : ℤ} (hk : Has t k old b s)
    (hbalance : store sql.strict balance = some b) :
    Does (system sql dbl) ledgerRules C G t
      (querySQL (.insertTrans k other abstract_id money balance))
      (fun _ s' => Clean t [] ws s' ∧ ∀ j old' c, Has t j old' c s → Has t j old' c s') s :=
  does_insertTrans hG h hk hbalance [] fun _ hj => Or.inl (List.mem_singleton.mp hj)

theorem does_commit (hG : Private G) (h : Clean t [] ws s)
    (hcommit : ∀ s', s'.Ledger → LedgerRely t s s' → G s' (s'.commit t)) :
    Does (system sql dbl) ledgerRules C G t (querySQL .commit) (fun _ _ => True) s := by
  refine Does.invoke fun s' ok a s'' hinv hrely _ _ hperform => ?_
  have hs' := h.rely hrely
  rcases perform_commit sql dbl hperform with ⟨rfl, rfl⟩ | rfl
  · exact ⟨keeps_same hG hinv, fun x hx => by cases hx⟩
  · exact ⟨hs'.keeps_commit hinv (hcommit s' hinv hrely), fun _ _ => trivial⟩

/-- `update bank_account set flag=1` keeps the balance. -/
theorem does_updateFlag (hG : Private G) (h : Clean t dirty ws s) {account_id : ℤ} :
    Does (system sql dbl) ledgerRules C G t (querySQL (.updateFlag account_id))
      (fun _ s => ∃ ws', Clean t dirty ws' s) s := by
  refine Does.invoke fun s' ok a s'' hinv hrely hready _ hperform => ?_
  have hs' := h.rely hrely
  rcases perform_updateFlag sql dbl hperform with ⟨rfl, rfl⟩ | ⟨rfl, rfl⟩
  · exact ⟨keeps_same hG hinv, fun x hx => by cases hx⟩
  · have hfree : ∀ r ∈ s'.updateFlag t account_id, s'.accounts.Free t r.1 :=
      ready_updateFlag sql dbl (hready rfl)
    have hsame : ∀ r ∈ s'.updateFlag t account_id,
        balanceOf (s'.accounts.view t r.1) = some r.2.balance := by
      intro r hr
      simp only [updateFlag] at hr
      split at hr
      · rename_i row hrow
        rw [List.mem_singleton.mp hr]
        dsimp only
        rw [hrow]
        rfl
      · exact absurd hr List.not_mem_nil
    exact ⟨keeps_writes_same hG hinv hfree hsame, fun _ _ => ⟨_, hs'.writes_same hinv hsame⟩⟩

/-- A new account with its balance, for which the ledger has no row yet. -/
theorem does_insertAccount (hG : Private G) (h : Clean t [] [] s) {name pass id : Text}
    {balance : ℤ}
    (hC : ∀ s, C s (.insertAccount name pass id balance) →
      ∀ new ∈ sql.insertAccount name pass id balance s.nextAccount (s.accounts.view t),
        Opens sql balance s.nextAccount new) :
    Does (system sql dbl) ledgerRules C G t (querySQL (.insertAccount name pass id balance))
      (fun (account_id : ℤ) s => Clean t [account_id] [account_id] s ∧
        ∃ b, store sql.strict balance = some b ∧ Has t account_id none b s) s := by
  refine Does.invoke fun s' ok a s'' hinv hrely hready hC' hperform => ?_
  have hs' := h.rely hrely
  rcases perform_insertAccount sql dbl hperform with ⟨rfl, rfl⟩ | ⟨rfl, new, hnew, rfl, rfl⟩
  · exact ⟨keeps_same hG hinv, fun x hx => by cases hx⟩
  · have hfree : ∀ r ∈ new.rows, s'.accounts.Free t r.1 :=
      ready_insertAccount sql dbl (hready rfl) hnew
    obtain ⟨hid, hnext, hrows⟩ := hC s' hC' new hnew
    obtain ⟨rows, insertId, next⟩ := new
    dsimp only at hid hnext hrows hfree ⊢
    subst hid hnext
    split at hrows
    · rename_i k row
      obtain ⟨rfl, hstore⟩ := hrows
      have hcommitted : balanceOf (s'.accounts.committed s'.nextAccount) = none := by
        cases hrow : s'.accounts.committed s'.nextAccount with
        | none => rfl
        | some row' =>
          have := hinv.ids s'.nextAccount (by rw [hrow]; exact Option.some_ne_none row')
          omega
      have hids : ∀ r ∈ [(s'.nextAccount, row)], 1 ≤ r.1 ∧ r.1 < s'.nextAccount + 1 := by
        intro r hr
        have hpositive := hinv.positive
        rw [List.mem_singleton.mp hr]
        dsimp only
        omega
      have hkeeps := keeps_writes hG hinv hfree (by omega) hids
      have hclean : Clean t ([(s'.nextAccount, row)].map Prod.fst ++ [])
          ([(s'.nextAccount, row)].map Prod.fst ++ [])
          (s'.writes t [(s'.nextAccount, row)]) := hs'.writes
      have hhas : Has t s'.nextAccount none row.balance
          (s'.writes t [(s'.nextAccount, row)]) := has_write hcommitted
      refine ⟨hkeeps, fun account_id hx => ?_⟩
      obtain rfl := Option.some.inj hx
      exact ⟨{ hclean with }, row.balance, hstore, { hhas with }⟩
    · exact hrows.elim

/-- `update bank_account set pass=…`, which commits itself. -/
theorem does_updatePass (hG : Private G) (h : Clean t [] [] s) {newPass : Text} {account_id : ℤ}
    (hC : ∀ s, C s (.updatePass newPass account_id) →
      ∀ rows ∈ sql.updatePass newPass account_id (s.accounts.view t),
        ∀ r ∈ rows, balanceOf (s.accounts.view t r.1) = some r.2.balance)
    (hcommit : ∀ s s', G s s') :
    Does (system sql dbl) ledgerRules C G t (querySQL (.updatePass newPass account_id))
      (fun _ _ => True) s := by
  refine Does.invoke fun s' ok a s'' hinv hrely hready hC' hperform => ?_
  have hs' := h.rely hrely
  rcases perform_updatePass sql dbl hperform with ⟨rfl, rfl⟩ | ⟨rfl, rows, hrows, rfl, rfl⟩
  · exact ⟨keeps_same hG hinv, fun x hx => by cases hx⟩
  · have hfree : ∀ r ∈ rows, s'.accounts.Free t r.1 :=
      ready_updatePass sql dbl (hready rfl) hrows
    have hsame := hC s' hC' rows hrows
    have hwrites := keeps_writes_same hG hinv hfree hsame
    have hclean := hs'.writes_same (t := t) hinv hsame
    have hcommits := hclean.keeps_commit hwrites.inv (hcommit _ _)
    refine ⟨⟨hcommits.inv, hcommit _ _, fun u hu => ?_⟩, fun _ _ => trivial⟩
    exact (hwrites.others u hu).trans' (hcommits.others u hu)

end Statements

end Database

end MuduoServer.Bank
