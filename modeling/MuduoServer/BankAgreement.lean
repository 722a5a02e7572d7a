import MuduoServer.BankTransactions
import Mathlib.Order.Interval.Finset.Basic
import Mathlib.Data.Int.Interval

/-!
The ledger of the bank agrees with the accounts in every state of any interleaving, and a
transfer moves money between its two accounts only, as long as the raw text of the requests
means what the code means by it. A transfer to the payer's own account breaks it: the row
for the payee is computed from the balance read before the update.
-/
namespace MuduoServer.Bank

open Sessions FaultMachine

namespace Database
variable {T D : Type} [DecidableEq T] {sql : MySQL D} {dbl : Doubles D}
  {G : Database T → Database T → Prop} {t : T} {s : Database T} {account : Account D}

/-- The sums that the code computes are those that the update makes. -/
theorem Exact.print_add_eq (hdbl : dbl.Exact) {m : D} (hm : dbl.parse (dbl.print m) = m) (b : ℤ) :
    dbl.print (dbl.add (dbl.parse b) m) = b + dbl.print m := by
  have h := hdbl.print_add b (dbl.print m)
  rwa [hm] at h

theorem Exact.print_sub_eq (hdbl : dbl.Exact) {m : D} (hm : dbl.parse (dbl.print m) = m) (b : ℤ) :
    dbl.print (dbl.sub (dbl.parse b) m) = b + -dbl.print m := by
  have h := hdbl.print_sub b (dbl.print m)
  rw [hm] at h
  omega

section Total
variable {n m : ℤ} {b b' c c' : Decimal} {ws : List ℤ}

theorem store_eq {strict : Bool} {v : ℤ} {d : Decimal} (h : store strict v = some d)
    (hfits : strict = true ∨ v.natAbs < 10 ^ 10) : d.cents = v := by
  unfold store at h
  split at h
  · exact congrArg Decimal.cents (Option.some.inj h).symm
  · rename_i hlarge
    rw [or_iff_left hlarge] at hfits
    simp [hfits] at h

omit [DecidableEq T] in
theorem centsOf_eq {row : Option AccountRow} {d : Decimal} (h : balanceOf row = some d) :
    centsOf row = d.cents := by
  obtain ⟨r, rfl, rfl⟩ := Option.map_eq_some_iff.mp h
  rfl

omit [DecidableEq T] in
theorem total_eq_sum {ks : Finset ℤ} (h : ∀ k, s.accounts.committed k ≠ none → k ∈ ks) :
    total s = ∑ k ∈ ks, centsOf (s.accounts.committed k) := by
  refine finsum_eq_sum_of_support_subset _ fun k hk => ?_
  exact Finset.mem_coe.mpr (h k fun hnone => hk (congrArg centsOf hnone))

/-- The commit of a transaction that has moved money from `n` to `m`. -/
theorem moves_commit (hs : s.Ledger) (h : Clean t [] [m, n] s) (hn : Has t n (some b) b' s)
    (hm : Has t m (some c) c' s) (hne : m ≠ n) (hsum : b'.cents + c'.cents = b.cents + c.cents) :
    (∀ k, k ≠ n → k ≠ m → (s.commit t).accounts.committed k = s.accounts.committed k) ∧
      total (s.commit t) = total s := by
  have hother : ∀ k, k ≠ n → k ≠ m → s.accounts.view t k = s.accounts.committed k := by
    intro k hkn hkm
    have hnone : s.accounts.written t k = none := by
      by_contra hwritten
      rcases List.mem_cons.mp (h.only k hwritten) with hk | hk
      · exact hkm hk
      · exact hkn (List.mem_singleton.mp hk)
    rw [RowStore.view, hnone, Option.none_or]
  refine ⟨hother, ?_⟩
  have hids : ∀ k, s.accounts.committed k ≠ none → k ∈ Finset.Ico 1 s.nextAccount := by
    intro k hk
    exact Finset.mem_Ico.mpr (hs.ids k hk)
  have hmem : ∀ k, s.accounts.view t k ≠ none → k ∈ Finset.Ico 1 s.nextAccount := by
    intro k hk
    exact Finset.mem_Ico.mpr (hs.viewIds t k hk)
  have hsome : ∀ k d, balanceOf (s.accounts.view t k) = some d → s.accounts.view t k ≠ none := by
    intro k d hd hnone
    rw [hnone] at hd
    cases hd
  rw [total_eq_sum hids, total_eq_sum (s := s.commit t) hmem, ← sub_eq_zero,
    ← Finset.sum_sub_distrib, Finset.sum_eq_add n m hne.symm]
  · have hview : (s.commit t).accounts.committed = s.accounts.view t := rfl
    rw [hview, centsOf_eq hn.viewed, centsOf_eq hn.committed, centsOf_eq hm.viewed,
      centsOf_eq hm.committed]
    omega
  · intro k _ hk
    have hview : (s.commit t).accounts.committed k = s.accounts.committed k :=
      hother k hk.1 hk.2
    rw [hview, sub_self]
  · exact fun hnot => absurd (hmem n (hsome n b' hn.viewed)) hnot
  · exact fun hnot => absurd (hmem m (hsome m c' hm.viewed)) hnot

end Total

section Operations
variable {C : Database T → Statement → Prop} {ws : List ℤ}

/-- The statements that an operation ends with when the ledger has a row for each change. -/
theorem does_end (h : Clean t [] ws s) (hG : ∀ s s', G s s') (q : Statement) (hq : Quiet q)
    {f : Answer D q → ℤ × Account D} :
    Does (system sql dbl) ledgerRules C G t
      (do
        querySQL .commit
        let item ← querySQL q
        return f item) (fun _ _ => True) s := by
  have hprivate : Private G := fun s s' _ => hG s s'
  refine (does_commit hprivate h fun s' _ _ => hG _ _).bind fun _ s _ => ?_
  refine ((harmless hprivate).does_quiet (fun _ _ _ _ => trivial) trivial hq).bind fun _ s _ => ?_
  exact Does.pure trivial

omit [DecidableEq T] in
/-- An update of the account `account_id` alone. -/
theorem updated_int {account_id : ℤ} {old : Option Decimal} {b : Decimal} {ids : List ℤ}
    (hhas : Has t account_id old b s) (hids : s.updated sql t (.int account_id) = some ids) :
    ids = [account_id] := by
  have hsome : (s.accounts.view t account_id).isSome := by
    obtain ⟨row, hrow, _⟩ := Option.map_eq_some_iff.mp hhas.viewed
    rw [hrow]
    rfl
  simp only [updated, hsome, if_true, Option.some.injEq] at hids
  exact hids.symm

theorem does_deposit (hdbl : dbl.Exact)
    (hamount : dbl.parse (dbl.print account.balance) = account.balance) (h : Idle t s)
    (hs : s.Ledger) (hG : ∀ s s', G s s') :
    Does (system sql dbl) ledgerRules C G t (deposit dbl account) (fun _ _ => True) s := by
  have hprivate : Private G := fun s s' _ => hG s s'
  refine ((harmless hprivate).does_open (fun _ _ => Clean.rely) (h.clean hs)).bind
    fun _ s h => ?_
  refine ((harmless hprivate).does_startTransaction (fun _ _ => Clean.rely) h).bind
    fun _ s h => ?_
  refine ((harmless hprivate).does_selectBalance (Reads dbl t account.account_id)
    (lasting_clean hprivate) h fun s sel x h _ hsel hx => h.has_selectBalance hsel hx).bind
    fun (rs : List D) s hrs => ?_
  obtain ⟨h, hread⟩ := hrs
  cases rs with
  | nil => exact Does.pure trivial
  | cons x rest =>
    obtain ⟨b, rfl, hhas⟩ := hread x rfl
    refine (does_updateBalance hprivate h hhas True
      fun s hhas _ => ⟨fun ids => updated_int hhas, trivial⟩).bind fun _ s h => ?_
    obtain ⟨h, ⟨b', hb', hhas⟩, -, -⟩ := h
    rw [← Exact.print_add_eq hdbl hamount] at hb'
    refine (does_insertLast hprivate h hhas hb').bind fun trans_id s h => ?_
    exact does_end h.1 hG (.selectName trans_id) trivial

theorem does_withDraw (hdbl : dbl.Exact)
    (hamount : dbl.parse (dbl.print account.balance) = account.balance) (h : Idle t s)
    (hs : s.Ledger) (hG : ∀ s s', G s s') :
    Does (system sql dbl) ledgerRules (fun s q => TextMeant sql dbl (.withDraw account) s t q) G t
      (withDraw dbl account) (fun _ _ => True) s := by
  have hprivate : Private G := fun s s' _ => hG s s'
  refine ((harmless hprivate).does_checkAccount (Reads dbl t account.account_id)
    (lasting_clean hprivate) (h.clean hs)
    fun s sel x h hmeant hsel hx => h.has_of_reads hmeant hsel hx).bind fun result s hresult => ?_
  obtain ⟨h, hread⟩ := hresult
  cases result with
  | inl code => exact Does.pure trivial
  | inr balance =>
    obtain ⟨b, rfl, hhas⟩ := hread balance rfl
    dsimp only
    split
    · exact Does.pure trivial
    · refine (does_updateBalance hprivate h hhas True
        fun s hhas _ => ⟨fun ids => updated_int hhas, trivial⟩).bind fun _ s h => ?_
      obtain ⟨h, ⟨b', hb', hhas⟩, -, -⟩ := h
      rw [← Exact.print_sub_eq hdbl hamount] at hb'
      refine (does_insertLast hprivate h hhas hb').bind fun trans_id s h => ?_
      exact does_end h.1 hG (.selectName trans_id) trivial

omit [DecidableEq T] in
theorem private_moves (r : Request D) : Private (T := T) (Moves r) := by
  intro s s' hsame
  cases r with
  | transfer account otherAccountId unset =>
    exact ⟨fun k _ _ => by rw [hsame], by rw [total, total, hsame]⟩
  | openAccount | deposit | withDraw | closeAccount | changePassword => trivial

theorem does_transferBetween (hdbl : dbl.Exact)
    (hamount : dbl.parse (dbl.print account.balance) = account.balance) {otherAccountId : Text}
    {unset : ℤ} {b c : Decimal} (hne : readInt otherAccountId unset ≠ account.account_id)
    (h : Clean t [] [] s) (hn : Has t account.account_id (some b) b s)
    (hm : Has t (readInt otherAccountId unset) (some c) c s) :
    Does (system sql dbl) ledgerRules
      (fun s q => TextMeant sql dbl (.transfer account otherAccountId unset) s t q)
      (Moves (.transfer account otherAccountId unset)) t
      (transferBetween dbl account otherAccountId (readInt otherAccountId unset)
        (dbl.parse b.cents) (dbl.parse c.cents)) (fun _ _ => True) s := by
  have hprivate := private_moves (T := T) (.transfer account otherAccountId unset)
  have hfit : ∀ (s : Database T) (k : ℤ) (old : Option Decimal) (d : Decimal) (change : ℤ),
      Has t k old d s → Fits sql (s.accounts.view t) k change →
      sql.strict = true ∨ (d.cents + change).natAbs < 10 ^ 10 := by
    intro s k old d change hhas hfits
    obtain ⟨row, hrow, hbalance⟩ := Option.map_eq_some_iff.mp hhas.viewed
    rw [← hbalance]
    exact hfits.imp_right fun hall => hall row hrow
  refine (does_updateBalance hprivate h hn
    (sql.strict = true ∨ (b.cents + -dbl.print account.balance).natAbs < 10 ^ 10)
    fun s hhas hfits => ⟨fun ids => updated_int hhas, hfit s _ _ b _ hhas hfits⟩).bind
    fun _ s hpaid => ?_
  obtain ⟨h, ⟨b', hb', hn⟩, hbfits, hkeep⟩ := hpaid
  have hm := hkeep _ _ _ hne hm
  refine (does_updateBalance hprivate h hm
    (sql.strict = true ∨ (c.cents + dbl.print account.balance).natAbs < 10 ^ 10)
    fun s hhas hmeant => ⟨hmeant.1, hfit s _ _ c _ hhas hmeant.2⟩).bind fun _ s hpaid => ?_
  obtain ⟨h, ⟨c', hc', hm⟩, hcfits, hkeep⟩ := hpaid
  have hn := hkeep _ _ _ hne.symm hn
  have hsum : b'.cents + c'.cents = b.cents + c.cents := by
    have hb := store_eq hb' hbfits
    have hc := store_eq hc' hcfits
    omega
  refine (does_insertTrans hprivate h hn ?_ [readInt otherAccountId unset] ?_).bind
    fun trans_id s hrow => ?_
  · rw [Exact.print_sub_eq hdbl hamount]
    exact hb'
  · intro j hj
    rcases List.mem_cons.mp hj with hj | hj
    · exact Or.inr (List.mem_singleton.mpr hj)
    · exact Or.inl (List.mem_singleton.mp hj)
  refine ((harmless hprivate).does_quiet (q := .selectName trans_id) (P := fun s =>
      Clean t [readInt otherAccountId unset]
        [readInt otherAccountId unset, account.account_id] s ∧
      Has t account.account_id (some b) b' s ∧ Has t (readInt otherAccountId unset) (some c) c' s)
    (fun s s' hpoint hrely => ?_) ⟨hrow.1, hrow.2 _ _ _ hn, hrow.2 _ _ _ hm⟩ trivial).bind
    fun name s hpoint => ?_
  · exact ⟨hpoint.1.rely hrely, hpoint.2.1.rely hrely, hpoint.2.2.rely hrely⟩
  obtain ⟨h, hn, hm⟩ := hpoint
  rw [← Exact.print_add_eq hdbl hamount] at hc'
  refine (does_insertLast hprivate h hm hc').bind fun _ s hrow => ?_
  have hn := hrow.2 _ _ _ hn
  have hm := hrow.2 _ _ _ hm
  refine (does_commit hprivate hrow.1 fun s' hinv hrely => ?_).bind fun _ s _ => Does.pure trivial
  exact moves_commit hinv (hrow.1.rely hrely) (hn.rely hrely) (hm.rely hrely) hne hsum

theorem does_transfer (hdbl : dbl.Exact)
    (hamount : dbl.parse (dbl.print account.balance) = account.balance) {otherAccountId : Text}
    {unset : ℤ} (hne : readInt otherAccountId unset ≠ account.account_id) (h : Idle t s)
    (hs : s.Ledger) :
    Does (system sql dbl) ledgerRules
      (fun s q => TextMeant sql dbl (.transfer account otherAccountId unset) s t q)
      (Moves (.transfer account otherAccountId unset)) t
      (transfer dbl account otherAccountId unset) (fun _ _ => True) s := by
  have hprivate := private_moves (T := T) (.transfer account otherAccountId unset)
  refine ((harmless hprivate).does_checkAccount (Reads dbl t account.account_id)
    (lasting_clean hprivate) (h.clean hs)
    fun s sel x h hmeant hsel hx => h.has_of_reads hmeant hsel hx).bind fun result s hresult => ?_
  obtain ⟨h, hread⟩ := hresult
  cases result with
  | inl code => exact Does.pure trivial
  | inr balance =>
    obtain ⟨b, rfl, hn⟩ := hread balance rfl
    dsimp only
    split
    · exact Does.pure trivial
    · refine ((harmless hprivate).does_selectBalance (Reads dbl t (readInt otherAccountId unset))
        (lasting_has hprivate) ⟨h, hn⟩
        fun s sel x h hmeant hsel hx => h.1.has_of_reads hmeant hsel hx).bind
        fun (rs : List D) s hrs => ?_
      obtain ⟨⟨h, hn⟩, hread⟩ := hrs
      cases rs with
      | nil => exact Does.pure trivial
      | cons balance2 rest =>
        obtain ⟨c, rfl, hm⟩ := hread balance2 rfl
        exact does_transferBetween hdbl hamount hne h hn hm

theorem does_closeAccount (h : Idle t s) (hs : s.Ledger) (hG : ∀ s s', G s s') :
    Does (system sql dbl) ledgerRules C G t (closeAccount account) (fun _ _ => True) s := by
  have hprivate : Private G := fun s s' _ => hG s s'
  refine ((harmless hprivate).does_checkAccount (fun _ _ => True) (lasting_clean hprivate)
    (h.clean hs) fun _ _ _ _ _ _ _ => trivial).bind fun result s hresult => ?_
  obtain ⟨h, -⟩ := hresult
  cases result with
  | inl code => exact Does.pure trivial
  | inr balance =>
    refine ((harmless hprivate).does_quiet (q := .selectInterest account.account_id)
      (fun _ _ => Clean.rely) h trivial).bind fun _ s h => ?_
    refine (does_updateFlag hprivate h).bind fun _ s h => ?_
    obtain ⟨ws, h⟩ := h
    exact does_end h hG (.selectHolder account.account_id) trivial

theorem does_openAccount (h : Idle t s) (hs : s.Ledger) (hG : ∀ s s', G s s') :
    Does (system sql dbl) ledgerRules (fun s q => TextMeant sql dbl (.openAccount account) s t q)
      G t (openAccount dbl account) (fun _ _ => True) s := by
  have hprivate : Private G := fun s s' _ => hG s s'
  refine ((harmless hprivate).does_open (fun _ _ => Clean.rely) (h.clean hs)).bind
    fun _ s h => ?_
  refine ((harmless hprivate).does_startTransaction (fun _ _ => Clean.rely) h).bind
    fun _ s h => ?_
  refine (does_insertAccount hprivate h fun s hmeant => hmeant).bind
    fun (account_id : ℤ) s hinsert => ?_
  obtain ⟨h, b, hb, hhas⟩ := hinsert
  refine (does_insertLast hprivate h hhas hb).bind fun trans_id s h => ?_
  exact does_end h.1 hG (.selectOpenDate account_id) trivial

theorem does_changePassword {newPass : Text} (h : Idle t s) (hs : s.Ledger)
    (hG : ∀ s s', G s s') :
    Does (system sql dbl) ledgerRules
      (fun s q => TextMeant sql dbl (.changePassword account newPass) s t q) G t
      (changePassword account newPass) (fun _ _ => True) s := by
  have hprivate : Private G := fun s s' _ => hG s s'
  refine ((harmless hprivate).does_open (fun _ _ => Clean.rely) (h.clean hs)).bind
    fun _ s h => ?_
  refine ((harmless hprivate).does_selectBalance (fun _ _ => True) (lasting_clean hprivate) h
    fun _ _ _ _ _ _ _ => trivial).bind fun (rs : List D) s hrs => ?_
  cases rs with
  | nil => exact Does.pure trivial
  | cons x rest =>
    refine ((harmless hprivate).does_selectPass (fun _ _ => True) (lasting_clean hprivate) hrs.1
      fun _ _ _ _ _ _ _ => trivial).bind fun (rs : List D) s hrs => ?_
    cases rs with
    | nil => exact Does.pure trivial
    | cons balance rest =>
      refine (does_updatePass hprivate hrs.1 (fun s hmeant => hmeant) hG).bind fun _ s _ => ?_
      exact Does.pure trivial

end Operations

section Last
variable {k : ℤ} {rows : List TransRow} {r r' : TransRow}

/-- `r` is the row for the account `k` with the largest `trans_id`. -/
def IsLast (rows : List TransRow) (k : ℤ) (r : TransRow) : Prop :=
  r ∈ rows ∧ r.account_id = k ∧ ∀ r' ∈ rows, r'.account_id = k → r'.trans_id ≤ r.trans_id

/-- The last row of each account has its balance. -/
def Agrees (s : Database T) : Prop :=
  ∀ k row, s.accounts.committed k = some row →
    (∃ r, IsLast s.trans k r) ∧ ∀ r, IsLast s.trans k r → r.balance = row.balance

theorem before_last (h : rows.Pairwise (·.trans_id < ·.trans_id)) (hr : rows.getLast? = some r)
    (hr' : r' ∈ rows) : r' = r ∨ r'.trans_id < r.trans_id := by
  obtain ⟨front, rfl⟩ := List.getLast?_eq_some_iff.mp hr
  rcases List.mem_append.mp hr' with hfront | hlast
  · exact Or.inr ((List.pairwise_append.mp h).2.2 r' hfront r (List.mem_singleton.mpr rfl))
  · exact Or.inl (List.mem_singleton.mp hlast)

omit [DecidableEq T] in
theorem Ledger.all_agree (h : s.Ledger) : s.Agrees := by
  intro k row hrow
  have hagrees := h.agrees k
  rw [hrow] at hagrees
  obtain ⟨r, hr, hbalance⟩ := Option.map_eq_some_iff.mp hagrees
  have hmem := mem_rowsOf.mp (List.mem_of_getLast? hr)
  refine ⟨⟨r, hmem.1, hmem.2, fun r' hr' hk => ?_⟩, fun r' hlast => ?_⟩
  · rcases before_last (h.sorted k) hr (mem_rowsOf.mpr ⟨hr', hk⟩) with rfl | hlt
    · exact Int.le_refl _
    · exact Int.le_of_lt hlt
  · rcases before_last (h.sorted k) hr (mem_rowsOf.mpr ⟨hlast.1, hlast.2.1⟩) with rfl | hlt
    · exact hbalance
    · have hle := hlast.2.2 r hmem.1 hmem.2
      omega

end Last

omit [DecidableEq T] in
theorem ledger_empty : (empty : Database T).Ledger where
  locked := RowStore.locked_empty
  rowsLocked _ _ hr := absurd hr List.not_mem_nil
  below _ hr := absurd hr List.not_mem_nil
  insertedBelow _ _ hr := absurd hr List.not_mem_nil
  sorted _ := List.Pairwise.nil
  insertedSorted _ _ := List.Pairwise.nil
  agrees _ := rfl
  positive := Int.le_refl 1
  ids _ hk := absurd rfl hk
  viewIds _ _ hk := absurd rfl hk

omit [DecidableEq T] in
theorem idle_empty : Idle t (empty : Database T) :=
  ⟨fun _ hk => (Option.some_ne_none t hk.symm).elim, rfl⟩

end Database

section Agreement
variable {T D : Type} [DecidableEq T] {sql : MySQL D} {dbl : Doubles D} {s s' : Threads T D}

open Database

theorem correct_execute (hdbl : dbl.Exact) :
    Correct (system (T := T) sql dbl) ledgerRules (meant sql dbl) (execute dbl) := by
  intro r t s hadmits hinv hidle
  have hharmless : Harmless ledgerRules (Moves r) t := harmless (private_moves r)
  cases r with
  | openAccount account =>
    exact hharmless.runs_guarded (does_openAccount hidle hinv fun _ _ => trivial)
      fun s post => hharmless.runs_rollbackHandler account
  | deposit account =>
    exact hharmless.runs_guarded (does_deposit hdbl hadmits hidle hinv fun _ _ => trivial)
      fun s post => hharmless.runs_rollbackHandler account
  | withDraw account =>
    exact hharmless.runs_guarded (does_withDraw hdbl hadmits hidle hinv fun _ _ => trivial)
      fun s post => hharmless.runs_rollbackHandler account
  | transfer account otherAccountId unset =>
    exact hharmless.runs_guarded (does_transfer hdbl hadmits.1 hadmits.2 hidle hinv)
      fun s post => hharmless.runs_rollbackHandler account
  | closeAccount account =>
    exact hharmless.runs_guarded (does_closeAccount hidle hinv fun _ _ => trivial)
      fun s post => runs_returnHandler account
  | changePassword account newPass =>
    exact hharmless.runs_guarded (does_changePassword hidle hinv fun _ _ => trivial)
      fun s post => runs_returnHandler account

/-- In any interleaving in which the raw text of the requests means what the code means by
it, the ledger agrees with the accounts, and no statement of a transfer changes another
account than its two or the sum of all. -/
theorem ledger_agreement (hdbl : dbl.Exact)
    (hs : ((machine sql dbl).restrict (Allowed (meant sql dbl))).Reachable s) :
    s.shared.Agrees ∧ {k | s.shared.accounts.committed k ≠ none}.Finite ∧
      ∀ t ok s' account otherAccountId unset p,
        s.session t = some (.transfer account otherAccountId unset, p) →
        ((machine sql dbl).restrict (Allowed (meant sql dbl))).enabled s (.answer t ok) →
        (machine sql dbl).step s (.answer t ok) = .ok s' →
        (∀ k, k ≠ account.account_id → k ≠ readInt otherAccountId unset →
          s'.shared.accounts.committed k = s.shared.accounts.committed k) ∧
          total s'.shared = total s.shared := by
  have hinit : ∀ s : Database T, s = Database.empty → s.Ledger ∧ ∀ t, Idle t s := by
    rintro s rfl
    exact ⟨ledger_empty, fun t => idle_empty⟩
  have hsound := sound_of_reachable hinit (correct_execute hdbl) hs
  refine ⟨Ledger.all_agree hsound.inv, ?_, ?_⟩
  · refine (Finset.Ico 1 s.shared.nextAccount).finite_toSet.subset fun k hk => ?_
    exact Finset.mem_coe.mpr (Finset.mem_Ico.mpr (Ledger.ids hsound.inv k hk))
  · intro t ok s' account otherAccountId unset p hsession he hstep
    have hanswer : s.step (system sql dbl) (execute dbl) (.answer t ok) = .ok s' := hstep
    obtain ⟨-, r, p', hsession', hmoves⟩ := hsound.answer he.1 he.2 hanswer
    rw [hsession] at hsession'
    obtain ⟨rfl, -⟩ := Prod.mk.inj (Option.some.inj hsession')
    exact hmoves

instance [DecidableEq D] (s : Threads T D) (a : Label T (Request D)) :
    Decidable (((machine sql dbl).restrict (Allowed (meant sql dbl))).enabled s a) :=
  inferInstanceAs (Decidable ((machine sql dbl).enabled s a ∧ Allowed (meant sql dbl) s a))

end Agreement

section Samples

open Database

instance (rows : List TransRow) (k : ℤ) (r : TransRow) : Decidable (IsLast rows k r) :=
  inferInstanceAs (Decidable
    (r ∈ rows ∧ r.account_id = k ∧ ∀ r' ∈ rows, r'.account_id = k → r'.trans_id ≤ r.trans_id))

theorem exact_wholeCents : wholeCents.Exact where
  print_add _ _ := rfl
  print_sub _ _ := rfl

/-- A request of the customer with the password `1`, and its statements. -/
def served (r : Request ℤ) (statements : ℕ) : List (Label Unit (Request ℤ)) :=
  .request () r :: List.replicate statements (.answer () true)

def customer (account_id balance : ℤ) : Account ℤ :=
  { account_id, name := ['A'], pass := ['1'], id := [], balance }

/-- Two accounts with 100.00, and a transfer of 10.00 from the first to `otherAccountId`. -/
def transferTo (otherAccountId : Text) : List (Label Unit (Request ℤ)) :=
  served (.openAccount (customer 0 10000)) 7 ++ served (.openAccount (customer 0 10000)) 7 ++
    served (.transfer (customer 1 1000) otherAccountId 0) 12

theorem ledger_agreement_transferTo :
    ∃ s : Threads Unit ℤ, centsOf (s.shared.accounts.committed 1) = 9000 ∧
      centsOf (s.shared.accounts.committed 2) = 11000 ∧ s.shared.Agrees := by
  have h : (((machine (plainTexts wholeCents) wholeCents).restrict
      (Allowed (meant (plainTexts wholeCents) wholeCents))).execute start (transferTo ['2'])).map
      (fun s => (centsOf (s.shared.accounts.committed 1),
        centsOf (s.shared.accounts.committed 2))) = some (9000, 11000) := by
    decide +kernel
  obtain ⟨s, hs, hview⟩ := Option.map_eq_some_iff.mp h
  simp only [Prod.mk.injEq] at hview
  have hreach : ((machine (plainTexts wholeCents) wholeCents).restrict
      (Allowed (meant (plainTexts wholeCents) wholeCents))).Reachable s :=
    ⟨start, _, ⟨rfl, fun _ => rfl⟩, Machine.run_of_execute _ hs⟩
  exact ⟨s, hview.1, hview.2, (ledger_agreement exact_wholeCents hreach).1⟩

/-- A transfer to the payer's own account. -/
theorem transfer_to_payer_disagrees :
    wholeCents.Exact ∧ ∃ s : Threads Unit ℤ,
      (machine (plainTexts wholeCents) wholeCents).Reachable s ∧ ¬ s.shared.Agrees := by
  have h : ((machine (plainTexts wholeCents) wholeCents).execute start (transferTo ['1'])).map
      (fun s => (s.shared.trans.any fun r =>
          decide (IsLast s.shared.trans 1 r ∧ r.balance.cents = 11000),
        (s.shared.accounts.committed 1).map (·.balance.cents))) = some (true, some 10000) := by
    decide +kernel
  obtain ⟨s, hs, hview⟩ := Option.map_eq_some_iff.mp h
  simp only [Prod.mk.injEq, List.any_eq_true, decide_eq_true_eq, Option.map_eq_some_iff] at hview
  obtain ⟨⟨r, _, hlast, hr⟩, row, hrow, hbalance⟩ := hview
  refine ⟨exact_wholeCents, s, ⟨start, _, ⟨rfl, fun _ => rfl⟩, Machine.run_of_execute _ hs⟩, ?_⟩
  intro hagrees
  rw [← (hagrees 1 row hrow).2 r hlast, hr] at hbalance
  cases hbalance

end Samples

end MuduoServer.Bank
