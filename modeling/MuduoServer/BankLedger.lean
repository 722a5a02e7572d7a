import MuduoServer.BankStatements

/-!
The invariant that ties `trans` to `bank_account`: a connection inserts rows only for
accounts that it has locked, so the rows of an account are committed in the order of their
ids, and the last of them has the account's balance. Inside a transaction the two may
differ for the accounts called dirty, of which none is left at the commit.
-/
namespace MuduoServer.Bank

open Sessions

/-- The rows of `trans` for the account `k`. -/
def rowsOf (k : ℤ) (rows : List TransRow) : List TransRow := rows.filter (·.account_id = k)

/-- The balance in the last row for the account `k`. -/
def lastBalance (rows : List TransRow) (k : ℤ) : Option Decimal :=
  (rowsOf k rows).getLast?.map (·.balance)

def balanceOf (row : Option AccountRow) : Option Decimal := row.map (·.balance)

section Rows
variable {k : ℤ} {rows rows' : List TransRow}

theorem rowsOf_append : rowsOf k (rows ++ rows') = rowsOf k rows ++ rowsOf k rows' :=
  List.filter_append ..

theorem mem_rowsOf {r : TransRow} : r ∈ rowsOf k rows ↔ r ∈ rows ∧ r.account_id = k := by
  simp [rowsOf]

theorem rowsOf_eq_nil (h : ∀ r ∈ rows, r.account_id ≠ k) : rowsOf k rows = [] := by
  rw [rowsOf, List.filter_eq_nil_iff]
  intro r hr
  simpa using h r hr

theorem rowsOf_append_of_none (h : ∀ r ∈ rows', r.account_id ≠ k) :
    rowsOf k (rows ++ rows') = rowsOf k rows := by
  rw [rowsOf_append, rowsOf_eq_nil h, List.append_nil]

theorem lastBalance_snoc (r : TransRow) :
    lastBalance (rows ++ [r]) k =
      if r.account_id = k then some r.balance else lastBalance rows k := by
  rw [lastBalance, rowsOf_append]
  split
  · rename_i h
    have hlast : rowsOf k [r] = [r] := by simp [rowsOf, h]
    rw [hlast, List.getLast?_append]
    rfl
  · rename_i h
    have hnone : rowsOf k [r] = [] := by simp [rowsOf, h]
    rw [hnone, List.append_nil]
    rfl

end Rows

namespace Database
variable {T : Type} {s s' s'' : Database T} {t u : T} {k : ℤ}

structure Ledger (s : Database T) : Prop where
  locked : s.accounts.Locked
  rowsLocked : ∀ t, ∀ r ∈ s.inserted t, s.accounts.owner r.account_id = some t
  below : ∀ r ∈ s.trans, r.trans_id < s.nextTrans
  insertedBelow : ∀ t, ∀ r ∈ s.inserted t, r.trans_id < s.nextTrans
  sorted : ∀ k, (rowsOf k s.trans).Pairwise (·.trans_id < ·.trans_id)
  insertedSorted : ∀ t k, (rowsOf k (s.trans ++ s.inserted t)).Pairwise (·.trans_id < ·.trans_id)
  agrees : ∀ k, lastBalance s.trans k = balanceOf (s.accounts.committed k)
  positive : 1 ≤ s.nextAccount
  ids : ∀ k, s.accounts.committed k ≠ none → 1 ≤ k ∧ k < s.nextAccount
  viewIds : ∀ t k, s.accounts.view t k ≠ none → 1 ≤ k ∧ k < s.nextAccount

/-- What a connection may rely on: its locked accounts, and their rows, stay as they are. -/
structure LedgerRely (t : T) (s s' : Database T) : Prop where
  accounts : s.accounts.Spares t s'.accounts
  inserted : s'.inserted t = s.inserted t
  trans : ∀ k, s.accounts.owner k = some t → rowsOf k s'.trans = rowsOf k s.trans

/-- A connection with no lock and no row. -/
def Idle (t : T) (s : Database T) : Prop :=
  (∀ k, s.accounts.owner k ≠ some t) ∧ s.inserted t = []

theorem LedgerRely.refl (t : T) (s : Database T) : LedgerRely t s s where
  accounts := .refl t s.accounts
  inserted := rfl
  trans _ _ := rfl

theorem LedgerRely.trans' (h : LedgerRely t s s') (h' : LedgerRely t s' s'') :
    LedgerRely t s s'' where
  accounts := h.accounts.trans h'.accounts
  inserted := h'.inserted.trans h.inserted
  trans k hk := (h'.trans k ((h.accounts.owner k).mpr hk)).trans (h.trans k hk)

theorem Idle.rely (h : Idle t s) (hs : LedgerRely t s s') : Idle t s' where
  left k hk := h.1 k ((hs.accounts.owner k).mp hk)
  right := hs.inserted.trans h.2

def ledgerRules : Rules T (Database T) where
  inv := Ledger
  rely := LedgerRely
  idle := Idle
  refl := LedgerRely.refl
  trans _ _ _ _ := LedgerRely.trans'
  idle_rely _ _ _ := Idle.rely

theorem Ledger.inserted_ne (h : s.Ledger) (hk : s.accounts.owner k ≠ some t) :
    ∀ r ∈ s.inserted t, r.account_id ≠ k := by
  rintro r hr rfl
  exact hk (h.rowsLocked t r hr)

/-- In the transaction of `t`, the ledger has the balance of each locked account that is not
dirty, and only the accounts `ws` have been changed. -/
structure Clean (t : T) (dirty ws : List ℤ) (s : Database T) : Prop where
  balances : ∀ k, s.accounts.owner k = some t → k ∉ dirty →
    lastBalance (s.trans ++ s.inserted t) k = balanceOf (s.accounts.view t k)
  only : ∀ k, s.accounts.written t k ≠ none → k ∈ ws

/-- `t` has locked the account `k`, whose balance was `old` and is `b` in the transaction. -/
structure Has (t : T) (k : ℤ) (old : Option Decimal) (b : Decimal) (s : Database T) : Prop where
  owned : s.accounts.owner k = some t
  committed : balanceOf (s.accounts.committed k) = old
  viewed : balanceOf (s.accounts.view t k) = some b

variable {dirty ws : List ℤ} {old : Option Decimal} {b : Decimal}

theorem Clean.rely (h : Clean t dirty ws s) (hs : LedgerRely t s s') : Clean t dirty ws s' where
  balances k hk hdirty := by
    have hown := (hs.accounts.owner k).mp hk
    have hlast : lastBalance (s'.trans ++ s'.inserted t) k =
        lastBalance (s.trans ++ s.inserted t) k := by
      rw [lastBalance, lastBalance, rowsOf_append, rowsOf_append, hs.inserted, hs.trans k hown]
    rw [hlast, hs.accounts.view_eq hown]
    exact h.balances k hown hdirty
  only k hk := by
    rw [hs.accounts.written] at hk
    exact h.only k hk

theorem Has.rely (h : Has t k old b s) (hs : LedgerRely t s s') : Has t k old b s' where
  owned := (hs.accounts.owner k).mpr h.owned
  committed := by rw [hs.accounts.committed k h.owned]; exact h.committed
  viewed := by rw [hs.accounts.view_eq h.owned]; exact h.viewed

theorem Idle.clean (h : Idle t s) (hs : s.Ledger) : Clean t [] [] s where
  balances k hk := absurd hk (h.1 k)
  only k hk := by
    obtain ⟨v, hv⟩ := Option.ne_none_iff_exists'.mp hk
    exact absurd (hs.locked t k v hv) (h.1 k)

/-- An account that `t` has not locked agrees with the ledger too. -/
theorem Clean.balance_eq (h : Clean t dirty ws s) (hs : s.Ledger)
    (hk : s.accounts.owner k = some t → k ∉ dirty) :
    lastBalance (s.trans ++ s.inserted t) k = balanceOf (s.accounts.view t k) := by
  by_cases hown : s.accounts.owner k = some t
  · exact h.balances k hown (hk hown)
  · rw [lastBalance, rowsOf_append_of_none (hs.inserted_ne hown), hs.locked.view_eq hown]
    exact hs.agrees k

variable [DecidableEq T] {G : Database T → Database T → Prop}

/-- Steps of `t` that change its view of the accounts and commit nothing. -/
theorem Ledger.with_accounts (h : s.Ledger) {accounts : RowStore T ℤ AccountRow} {next : ℤ}
    (hlocked : accounts.Locked) (hspares : ∀ u, u ≠ t → s.accounts.Spares u accounts)
    (hown : ∀ k, s.accounts.owner k = some t → accounts.owner k = some t)
    (hcommitted : accounts.committed = s.accounts.committed) (hnext : s.nextAccount ≤ next)
    (hids : ∀ k, accounts.view t k ≠ none → 1 ≤ k ∧ k < next) :
    Ledger { s with accounts := accounts, nextAccount := next } where
  locked := hlocked
  rowsLocked u r hr := by
    have howner := h.rowsLocked u r hr
    by_cases hu : u = t
    · subst hu
      exact hown _ howner
    · exact ((hspares u hu).owner _).mpr howner
  below := h.below
  insertedBelow := h.insertedBelow
  sorted := h.sorted
  insertedSorted := h.insertedSorted
  agrees k := by
    rw [hcommitted]
    exact h.agrees k
  positive := Int.le_trans h.positive hnext
  ids k hk := by
    rw [hcommitted] at hk
    have := h.ids k hk
    dsimp only
    omega
  viewIds u k hk := by
    by_cases hu : u = t
    · subst hu
      exact hids k hk
    · have hview : accounts.view u k = s.accounts.view u k := by
        rw [RowStore.view, RowStore.view, (hspares u hu).written, hcommitted]
      rw [hview] at hk
      have := h.viewIds u k hk
      dsimp only
      omega

/-- A session that has leave to do anything that commits nothing. -/
def Private (G : Database T → Database T → Prop) : Prop :=
  ∀ s s', s'.accounts.committed = s.accounts.committed → G s s'

omit [DecidableEq T] in
theorem keeps_same (hG : Private G) (h : s.Ledger) : Keeps ledgerRules G t s s where
  inv := h
  leave := hG s s rfl
  others u _ := LedgerRely.refl u s

section Locking
variable {ks : List ℤ}

theorem keeps_locking (hG : Private G) (h : s.Ledger) (hfree : ∀ k ∈ ks, s.accounts.Free t k) :
    Keeps ledgerRules G t s (s.locking t ks) where
  inv := by
    refine h.with_accounts (h.locked.lock hfree) (fun u hu => RowStore.spares_lock hu.symm hfree)
      (fun k hk => ?_) rfl (Int.le_refl _) (fun k hk => h.viewIds t k hk)
    rw [RowStore.lock_owner]
    split
    · rfl
    · exact hk
  leave := hG _ _ rfl
  others u hu :=
    { accounts := RowStore.spares_lock hu.symm hfree
      inserted := rfl
      trans := fun _ _ => rfl }

omit [DecidableEq T] in
theorem Clean.locking (h : Clean t dirty ws s) (hs : s.Ledger) :
    Clean t dirty ws (s.locking t ks) where
  balances _ _ hdirty := h.balance_eq hs fun _ => hdirty
  only := h.only

omit [DecidableEq T] in
theorem Has.locking (h : Has t k old b s) : Has t k old b (s.locking t ks) where
  owned := by
    rw [Database.locking, RowStore.lock_owner, h.owned, ite_self]
  committed := h.committed
  viewed := h.viewed

omit [DecidableEq T] in
/-- A row that is locked before it is changed. -/
theorem Clean.has_locking (h : Clean t dirty [] s) (hk : k ∈ ks)
    (hb : balanceOf (s.accounts.view t k) = some b) : Has t k (some b) b (s.locking t ks) where
  owned := if_pos hk
  committed := by
    have hnone : s.accounts.written t k = none := by
      by_contra hne
      exact absurd (h.only k hne) List.not_mem_nil
    rw [RowStore.view, hnone, Option.none_or] at hb
    exact hb
  viewed := hb

end Locking

section Writes
variable {rows : List (ℤ × AccountRow)}

theorem writes_view (s : Database T) (t : T) (rows : List (ℤ × AccountRow)) (k : ℤ) :
    (∃ v, (k, v) ∈ rows ∧ (s.writes t rows).accounts.view t k = some v) ∨
      (k ∉ rows.map Prod.fst ∧ (s.writes t rows).accounts.view t k = s.accounts.view t k) :=
  RowStore.writeAll_view k

theorem writes_owner (k : ℤ) :
    (s.writes t rows).accounts.owner k =
      if k ∈ rows.map Prod.fst then some t else s.accounts.owner k :=
  RowStore.writeAll_owner k

theorem keeps_writes (hG : Private G) (h : s.Ledger) (hfree : ∀ r ∈ rows, s.accounts.Free t r.1)
    {next : ℤ} (hnext : s.nextAccount ≤ next) (hids : ∀ r ∈ rows, 1 ≤ r.1 ∧ r.1 < next) :
    Keeps ledgerRules G t s { s.writes t rows with nextAccount := next } where
  inv := by
    refine h.with_accounts (h.locked.writeAll hfree)
      (fun u hu => RowStore.spares_writeAll hu.symm hfree) (fun k hk => ?_)
      RowStore.writeAll_committed hnext (fun k hk => ?_)
    · rw [writes_owner]
      split
      · rfl
      · exact hk
    · rcases writes_view s t rows k with ⟨v, hv, _⟩ | ⟨_, hview⟩
      · exact hids _ hv
      · rw [hview] at hk
        have := h.viewIds t k hk
        omega
  leave := hG _ _ RowStore.writeAll_committed
  others u hu :=
    { accounts := RowStore.spares_writeAll hu.symm hfree
      inserted := rfl
      trans := fun _ _ => rfl }

/-- Changes that keep the balances. -/
theorem keeps_writes_same (hG : Private G) (h : s.Ledger)
    (hfree : ∀ r ∈ rows, s.accounts.Free t r.1)
    (hsame : ∀ r ∈ rows, balanceOf (s.accounts.view t r.1) = some r.2.balance) :
    Keeps ledgerRules G t s (s.writes t rows) := by
  refine keeps_writes hG h hfree (Int.le_refl _) fun r hr => h.viewIds t r.1 fun hnone => ?_
  have hbalance := hsame r hr
  rw [hnone] at hbalance
  cases hbalance

theorem Clean.only_writes (h : Clean t dirty ws s) (k : ℤ)
    (hk : (s.writes t rows).accounts.written t k ≠ none) : k ∈ rows.map Prod.fst ++ ws := by
  rw [List.mem_append]
  by_cases hmem : k ∈ rows.map Prod.fst
  · exact Or.inl hmem
  · refine Or.inr (h.only k ?_)
    rwa [← RowStore.writeAll_written_of_not_mem hmem]

/-- Changes of the balance make an account dirty. -/
theorem Clean.writes (h : Clean t dirty ws s) :
    Clean t (rows.map Prod.fst ++ dirty) (rows.map Prod.fst ++ ws) (s.writes t rows) where
  balances k hk hdirty := by
    rw [List.mem_append, not_or] at hdirty
    rw [writes_owner, if_neg hdirty.1] at hk
    rcases writes_view s t rows k with ⟨v, hv, _⟩ | ⟨_, hview⟩
    · exact absurd (List.mem_map_of_mem hv) hdirty.1
    · rw [hview]
      exact h.balances k hk hdirty.2
  only := h.only_writes

theorem Clean.writes_same (h : Clean t dirty ws s) (hs : s.Ledger)
    (hsame : ∀ r ∈ rows, balanceOf (s.accounts.view t r.1) = some r.2.balance) :
    Clean t dirty (rows.map Prod.fst ++ ws) (s.writes t rows) where
  balances k _ hdirty := by
    have hbefore := h.balance_eq hs fun _ => hdirty
    rcases writes_view s t rows k with ⟨v, hv, hview⟩ | ⟨_, hview⟩
    · rw [hview]
      exact hbefore.trans (hsame _ hv)
    · rw [hview]
      exact hbefore
  only := h.only_writes

/-- The other accounts are still had. -/
theorem Has.writes (h : Has t k old b s) (hk : k ∉ rows.map Prod.fst) :
    Has t k old b (s.writes t rows) where
  owned := by
    rw [writes_owner, if_neg hk]
    exact h.owned
  committed := by
    rw [Database.writes, RowStore.writeAll_committed]
    exact h.committed
  viewed := by
    rcases writes_view s t rows k with ⟨v, hv, _⟩ | ⟨_, hview⟩
    · exact absurd (List.mem_map_of_mem hv) hk
    · rw [hview]
      exact h.viewed

theorem has_write {row : AccountRow} (hcommitted : balanceOf (s.accounts.committed k) = old) :
    Has t k old row.balance (s.writes t [(k, row)]) where
  owned := by
    rw [writes_owner]
    exact if_pos (List.mem_singleton.mpr rfl)
  committed := hcommitted
  viewed := by
    rcases writes_view s t [(k, row)] k with ⟨v, hv, hview⟩ | ⟨hk, _⟩
    · rw [hview]
      rw [List.mem_singleton, Prod.mk.injEq] at hv
      rw [hv.2]
      rfl
    · exact absurd (List.mem_singleton.mpr rfl) hk

end Writes

section Inserts
variable {row : TransRow}

theorem Ledger.inserts (h : s.Ledger) (howner : s.accounts.owner row.account_id = some t)
    (hid : row.trans_id = s.nextTrans) : Ledger (s.inserts t row) where
  locked := h.locked
  rowsLocked u r hr := by
    by_cases hu : u = t
    · subst hu
      simp only [Database.inserts, Function.update_self, List.mem_append, List.mem_singleton] at hr
      rcases hr with hr | hr
      · exact h.rowsLocked u r hr
      · rw [hr]
        exact howner
    · simp only [Database.inserts, Function.update_of_ne hu] at hr
      exact h.rowsLocked u r hr
  below r hr := by
    have := h.below r hr
    simp only [Database.inserts]
    omega
  insertedBelow u r hr := by
    simp only [Database.inserts]
    by_cases hu : u = t
    · subst hu
      simp only [Database.inserts, Function.update_self, List.mem_append, List.mem_singleton] at hr
      rcases hr with hr | hr
      · have := h.insertedBelow u r hr
        omega
      · rw [hr]
        omega
    · simp only [Database.inserts, Function.update_of_ne hu] at hr
      have := h.insertedBelow u r hr
      omega
  sorted := h.sorted
  insertedSorted u j := by
    by_cases hu : u = t
    · subst hu
      simp only [Database.inserts, Function.update_self]
      rw [← List.append_assoc, rowsOf_append, List.pairwise_append]
      refine ⟨h.insertedSorted u j, List.Pairwise.filter _ (List.pairwise_singleton ..), ?_⟩
      intro r hr r' hr'
      have hlast : r' = row := List.mem_singleton.mp (mem_rowsOf.mp hr').1
      rw [hlast, hid]
      rcases List.mem_append.mp (mem_rowsOf.mp hr).1 with hr | hr
      · exact h.below r hr
      · exact h.insertedBelow u r hr
    · simp only [Database.inserts, Function.update_of_ne hu]
      exact h.insertedSorted u j
  agrees := h.agrees
  positive := h.positive
  ids := h.ids
  viewIds := h.viewIds

theorem keeps_inserts (hG : Private G) (h : s.Ledger)
    (howner : s.accounts.owner row.account_id = some t) (hid : row.trans_id = s.nextTrans) :
    Keeps ledgerRules G t s (s.inserts t row) where
  inv := h.inserts howner hid
  leave := hG _ _ rfl
  others u hu :=
    { accounts := .refl u s.accounts
      inserted := Function.update_of_ne hu ..
      trans := fun _ _ => rfl }

/-- The row with the account's new balance makes the account clean. -/
theorem Clean.inserts {dirty' : List ℤ} (h : Clean t dirty ws s)
    (hrow : Has t row.account_id old row.balance s)
    (hdirty : ∀ k ∈ dirty, k = row.account_id ∨ k ∈ dirty') :
    Clean t dirty' ws (s.inserts t row) where
  balances k hk hk' := by
    simp only [Database.inserts, Function.update_self]
    rw [← List.append_assoc, lastBalance_snoc]
    split
    · rename_i heq
      rw [← heq]
      exact hrow.viewed.symm
    · rename_i hne
      refine h.balances k hk fun hmem => ?_
      rcases hdirty k hmem with heq | hmem'
      · exact hne heq.symm
      · exact hk' hmem'
  only := h.only

theorem Has.inserts (h : Has t k old b s) : Has t k old b (s.inserts t row) where
  owned := h.owned
  committed := h.committed
  viewed := h.viewed

end Inserts

section Ends

/-- Without dirty accounts a transaction can be committed. -/
theorem Clean.commit (h : Clean t [] ws s) (hs : s.Ledger) : Ledger (s.commit t) where
  locked := hs.locked.commit
  rowsLocked u r hr := by
    by_cases hu : u = t
    · subst hu
      simp [Database.commit] at hr
    · simp only [Database.commit, Function.update_of_ne hu] at hr
      exact ((RowStore.spares_commit hs.locked (Ne.symm hu)).owner _).mpr (hs.rowsLocked u r hr)
  below r hr := by
    rcases List.mem_append.mp hr with hr | hr
    · exact hs.below r hr
    · exact hs.insertedBelow t r hr
  insertedBelow u r hr := by
    by_cases hu : u = t
    · subst hu
      simp [Database.commit] at hr
    · simp only [Database.commit, Function.update_of_ne hu] at hr
      exact hs.insertedBelow u r hr
  sorted := hs.insertedSorted t
  insertedSorted u k := by
    by_cases hu : u = t
    · subst hu
      simp only [Database.commit, Function.update_self, List.append_nil]
      exact hs.insertedSorted u k
    · simp only [Database.commit, Function.update_of_ne hu]
      by_cases hown : s.accounts.owner k = some t
      · have hother : s.accounts.owner k ≠ some u := by
          rw [hown]
          exact fun heq => hu (Option.some.inj heq).symm
        rw [rowsOf_append_of_none (hs.inserted_ne hother)]
        exact hs.insertedSorted t k
      · have hnone : rowsOf k (s.inserted t) = [] := rowsOf_eq_nil (hs.inserted_ne hown)
        rw [rowsOf_append, rowsOf_append, hnone, List.append_nil, ← rowsOf_append]
        exact hs.insertedSorted u k
  agrees k := h.balance_eq hs fun _ => List.not_mem_nil
  positive := hs.positive
  ids := hs.viewIds t
  viewIds u k hk := by
    by_cases hview : s.accounts.view t k = none
    · by_cases hu : u = t
      · subst hu
        exact absurd hview (by rwa [Database.commit, RowStore.commit_view_self] at hk)
      · rw [Database.commit, RowStore.commit_view_of_ne hu, hview, Option.or_none] at hk
        refine hs.viewIds u k ?_
        rw [RowStore.view]
        exact fun hnone => hk (Option.or_eq_none_iff.mp hnone).1
    · exact hs.viewIds t k hview

theorem Clean.keeps_commit (h : Clean t [] ws s) (hs : s.Ledger) (hG : G s (s.commit t)) :
    Keeps ledgerRules G t s (s.commit t) where
  inv := h.commit hs
  leave := hG
  others u hu :=
    { accounts := RowStore.spares_commit hs.locked hu.symm
      inserted := Function.update_of_ne hu ..
      trans := fun k hk => by
        refine rowsOf_append_of_none (hs.inserted_ne ?_)
        rw [hk]
        exact fun heq => hu (Option.some.inj heq) }

theorem Ledger.rollback (h : s.Ledger) : Ledger (s.rollback t) where
  locked := h.locked.release
  rowsLocked u r hr := by
    by_cases hu : u = t
    · subst hu
      simp [Database.rollback] at hr
    · simp only [Database.rollback, Function.update_of_ne hu] at hr
      exact ((RowStore.spares_release (Ne.symm hu)).owner _).mpr (h.rowsLocked u r hr)
  below := h.below
  insertedBelow u r hr := by
    by_cases hu : u = t
    · subst hu
      simp [Database.rollback] at hr
    · simp only [Database.rollback, Function.update_of_ne hu] at hr
      exact h.insertedBelow u r hr
  sorted := h.sorted
  insertedSorted u k := by
    by_cases hu : u = t
    · subst hu
      simp only [Database.rollback, Function.update_self, List.append_nil]
      exact h.sorted k
    · simp only [Database.rollback, Function.update_of_ne hu]
      exact h.insertedSorted u k
  agrees := h.agrees
  positive := h.positive
  ids := h.ids
  viewIds u k hk := by
    by_cases hu : u = t
    · subst hu
      rw [Database.rollback, RowStore.view, RowStore.release_written, Option.none_or] at hk
      exact h.ids k hk
    · have hview : (s.rollback t).accounts.view u k = s.accounts.view u k := by
        rw [RowStore.view, RowStore.view]
        exact congrArg (fun w => Option.or (w k) _) (RowStore.release_written_of_ne hu)
      rw [hview] at hk
      exact h.viewIds u k hk

theorem keeps_rollback (hG : Private G) (h : s.Ledger) :
    Keeps ledgerRules G t s (s.rollback t) where
  inv := h.rollback
  leave := hG _ _ rfl
  others _ hu :=
    { accounts := RowStore.spares_release hu.symm
      inserted := Function.update_of_ne hu ..
      trans := fun _ _ => rfl }

theorem idle_rollback : Idle t (s.rollback t) where
  left k := by
    rw [Database.rollback, RowStore.release_owner]
    split
    · exact fun h => Option.some_ne_none t h.symm
    · assumption
  right := Function.update_self ..

theorem Ledger.setConnected (h : s.Ledger) (c : Bool) : Ledger (s.setConnected t c) :=
  { h with }

theorem rely_setConnected (c : Bool) : LedgerRely u s (s.setConnected t c) where
  accounts := .refl u s.accounts
  inserted := rfl
  trans _ _ := rfl

theorem harmless (hG : Private G) : Harmless ledgerRules G t where
  same _ h := keeps_same hG h
  opens _ c h :=
    { inv := h.setConnected c
      leave := hG _ _ rfl
      others := fun _ _ => rely_setConnected c }
  opened _ c := rely_setConnected c
  rollback _ h := keeps_rollback hG h
  close _ h :=
    { inv := h.rollback.setConnected false
      leave := hG _ _ rfl
      others := fun u hu => ((keeps_rollback hG h).others u hu).trans' (rely_setConnected false) }
  idle _ _ := idle_rollback

end Ends

end Database

end MuduoServer.Bank
