import MuduoServer.BankMoney

/-!
No balance becomes negative and nobody but the holder lowers one, in every state of any
interleaving of requests that meet `safe`. A deposit with a negative amount does not: it
takes money from an account without its password, and more than the account has.
-/
namespace MuduoServer.Bank

open Sessions FaultMachine

namespace Money
variable {T D : Type} [DecidableEq T] {sql : MySQL D} {dbl : Doubles D}
  {C : Database T → Statement → Prop} {G : Database T → Database T → Prop} {t : T}
  {s : Database T} {account : Account D} {P : Database T → Prop}

open Database

section Statements

omit [DecidableEq T] in
theorem lasting_unwritten (hG : Private G) : Lasting moneyRules G t (Unwritten (T := T) t) where
  rely _ _ := Unwritten.rely
  keeps _ _ hinv hfree := (money_private hG).locking hinv hfree
  locking _ _ _ h := h

omit [DecidableEq T] in
theorem lasting_checked (hG : Private G) {amount cents : ℤ} :
    Lasting moneyRules G t fun s => Unwritten t s ∧ Checked t account amount cents s where
  rely _ _ h hs := ⟨h.1.rely hs, h.2.rely hs⟩
  keeps _ _ hinv hfree := (money_private hG).locking hinv hfree
  locking _ ks _ h := ⟨h.1, h.2.locking ks⟩

theorem does_updateBalance (hG : Private G) (hP : P s)
    (hrely : ∀ s s', P s → s.accounts.Spares t s'.accounts → P s')
    (hfair : ∀ s, P s → Fair t account s) {clause : AccountId} {change : ℤ}
    (hrows : ∀ s k row row', s.Solvent → P s → C s (.updateBalance clause change) →
      (∃ ids, s.updated sql t clause = some ids ∧ k ∈ ids) → s.accounts.view t k = some row →
      store sql.strict (row.balance.cents + change) = some row'.balance →
      FairRow account s (k, row')) :
    Does (system sql dbl) moneyRules C G t (querySQL (.updateBalance clause change))
      (fun _ s => Fair t account s) s := by
  refine Does.invoke fun s' ok a s'' hinv hspares hready hC hperform => ?_
  have hP' := hrely s s' hP hspares
  rcases perform_updateBalance sql dbl hperform with ⟨rfl, rfl⟩ | ⟨rfl, rows, hupdate, rfl, rfl⟩
  · exact ⟨(money_private hG).same hinv, fun x hx => by cases hx⟩
  · have hfree : ∀ r ∈ rows, s'.accounts.Free t r.1 :=
      ready_updateBalance sql dbl (hready rfl) hupdate
    obtain ⟨ids, hids, hmap, hall⟩ := updateBalance_eq_some hupdate
    refine ⟨(money_private hG).writes hinv hfree, fun _ _ => (hfair s' hP').writes fun p hp => ?_⟩
    obtain ⟨row, balance, hrow, hstore, hp'⟩ := hall p hp
    refine hrows s' p.1 row p.2 hinv hP' hC ⟨ids, hids, ?_⟩ hrow ?_
    · rw [← hmap]
      exact List.mem_map_of_mem hp
    · rw [hp']
      exact hstore

theorem does_insertTrans (hG : Private G) (h : Fair t account s) {account_id : ℤ}
    {other : Option ℤ} {abstract_id money balance : ℤ} :
    Does (system sql dbl) moneyRules C G t
      (querySQL (.insertTrans account_id other abstract_id money balance))
      (fun _ s => Fair t account s) s := by
  refine Does.invoke fun s' ok a s'' hinv hspares _ _ hperform => ?_
  have hs' : Fair t account s' := h.rely hspares
  have hsame : s''.accounts = s'.accounts := perform_insertTrans_accounts sql dbl hperform
  refine ⟨(money_private hG).keeps _ _ hinv (hsame ▸ hinv.locked) (by rw [hsame]) fun u _ => ?_,
    fun _ _ => ?_⟩
  · rw [hsame]
    exact .refl u s'.accounts
  · rw [Fair, hsame]
    exact hs'

theorem does_insertAccount (hG : Private G) (h : Unwritten t s) (account : Account D)
    {name pass id : Text} {balance : ℤ}
    (hC : ∀ s, C s (.insertAccount name pass id balance) →
      ∀ new ∈ sql.insertAccount name pass id balance s.nextAccount (s.accounts.view t),
        Raises (s.accounts.view t) new.rows) :
    Does (system sql dbl) moneyRules C G t (querySQL (.insertAccount name pass id balance))
      (fun _ s => Fair t account s) s := by
  refine Does.invoke fun s' ok a s'' hinv hspares hready hC' hperform => ?_
  have hs' : Unwritten t s' := h.rely hspares
  rcases perform_insertAccount sql dbl hperform with ⟨rfl, rfl⟩ | ⟨rfl, new, hnew, rfl, rfl⟩
  · exact ⟨(money_private hG).same hinv, fun x hx => by cases hx⟩
  · have hfree : ∀ r ∈ new.rows, s'.accounts.Free t r.1 :=
      ready_insertAccount sql dbl (hready rfl) hnew
    have hkeeps := (money_private hG).writes hinv hfree
    have hfair := (hs'.fair account).writes (hs'.raises (hC s' hC' new hnew))
    exact ⟨(money_private hG).keeps _ _ hinv hkeeps.inv.locked RowStore.writeAll_committed
      hkeeps.others, fun _ _ => hfair⟩

theorem does_updateFlag (hG : Private G) (h : Unwritten t s) (account : Account D)
    {account_id : ℤ} :
    Does (system sql dbl) moneyRules C G t (querySQL (.updateFlag account_id))
      (fun _ s => Fair t account s) s := by
  refine Does.invoke fun s' ok a s'' hinv hspares hready _ hperform => ?_
  have hs' : Unwritten t s' := h.rely hspares
  rcases perform_updateFlag sql dbl hperform with ⟨rfl, rfl⟩ | ⟨rfl, rfl⟩
  · exact ⟨(money_private hG).same hinv, fun x hx => by cases hx⟩
  · have hfree : ∀ r ∈ s'.updateFlag t account_id, s'.accounts.Free t r.1 :=
      ready_updateFlag sql dbl (hready rfl)
    have hraises : Raises (s'.accounts.view t) (s'.updateFlag t account_id) := by
      intro r hr
      simp only [updateFlag] at hr
      split at hr
      · rename_i row hrow
        rw [List.mem_singleton.mp hr]
        refine ⟨hinv.nonneg account_id row (by rwa [← hs'.view_eq]), fun row' hrow' => ?_⟩
        rw [← Option.some.inj (hrow.symm.trans hrow')]
      · exact absurd hr List.not_mem_nil
    exact ⟨(money_private hG).writes hinv hfree,
      fun _ _ => (hs'.fair account).writes (hs'.raises hraises)⟩

variable {r : Request D}

theorem does_commit (h : Fair t r.account s) :
    Does (system sql dbl) moneyRules C (Takes r) t (querySQL .commit) (fun _ _ => True) s := by
  refine Does.invoke fun s' ok a s'' hinv hspares _ _ hperform => ?_
  have hs' : Fair t r.account s' := h.rely hspares
  rcases perform_commit sql dbl hperform with ⟨rfl, rfl⟩ | rfl
  · exact ⟨(money_private (private_takes r)).same hinv, fun x hx => by cases hx⟩
  · exact ⟨hs'.keeps_commit hinv, fun _ _ => trivial⟩

theorem does_updatePass (h : Unwritten t s) {newPass : Text} {account_id : ℤ}
    (hC : ∀ s, C s (.updatePass newPass account_id) →
      ∀ rows ∈ sql.updatePass newPass account_id (s.accounts.view t),
        Raises (s.accounts.view t) rows) :
    Does (system sql dbl) moneyRules C (Takes r) t (querySQL (.updatePass newPass account_id))
      (fun _ _ => True) s := by
  refine Does.invoke fun s' ok a s'' hinv hspares hready hC' hperform => ?_
  have hs' : Unwritten t s' := h.rely hspares
  rcases perform_updatePass sql dbl hperform with ⟨rfl, rfl⟩ | ⟨rfl, rows, hrows, rfl, rfl⟩
  · exact ⟨(money_private (private_takes r)).same hinv, fun x hx => by cases hx⟩
  · have hfree : ∀ r ∈ rows, s'.accounts.Free t r.1 :=
      ready_updatePass sql dbl (hready rfl) hrows
    have hfair := (hs'.fair r.account).writes (hs'.raises (hC s' hC' rows hrows))
    have hwrites := (money_private (private_takes r)).writes hinv hfree
    have hcommits := hfair.keeps_commit hwrites.inv
    refine ⟨⟨hcommits.inv, ?_, fun u hu => ?_⟩, fun _ _ => trivial⟩
    · intro k row hrow
      refine hcommits.leave k row ?_
      have hcommitted : (s'.writes t rows).accounts.committed = s'.accounts.committed :=
        RowStore.writeAll_committed
      rwa [hcommitted]
    · exact (hwrites.others u hu).trans (hcommits.others u hu)

end Statements

section Operations
variable {r : Request D}

/-- A statement that changes nothing keeps what `t` has changed fair. -/
theorem does_quiet (hG : Private G) (h : Fair t account s) {q : Statement} (hq : Quiet q) :
    Does (system sql dbl) moneyRules C G t (querySQL q) (fun _ s => Fair t account s) s :=
  (money_private hG).harmless.does_quiet (fun _ _ => Fair.rely) h hq

/-- The statements that an operation ends with when its changes are fair. -/
theorem does_end (h : Fair t r.account s) (q : Statement) (hq : Quiet q)
    {f : Answer D q → ℤ × Account D} :
    Does (system sql dbl) moneyRules C (Takes r) t
      (do
        querySQL .commit
        let item ← querySQL q
        return f item) (fun _ _ => True) s := by
  refine (does_commit h).bind fun _ s _ => ?_
  refine ((money_private (private_takes r)).harmless.does_quiet (fun _ _ _ _ => trivial) trivial
    hq).bind fun _ s _ => ?_
  exact Does.pure trivial

theorem does_deposit (h : Unwritten t s) :
    Does (system sql dbl) moneyRules (fun s q => Safe sql dbl (.deposit account) s t q)
      (Takes (.deposit account)) t (deposit dbl account) (fun _ _ => True) s := by
  have hprivate := private_takes (T := T) (.deposit account)
  refine ((money_private hprivate).harmless.does_open (fun _ _ => Unwritten.rely) h).bind
    fun _ s h => ?_
  refine ((money_private hprivate).harmless.does_startTransaction (fun _ _ => Unwritten.rely)
    h).bind fun _ s h => ?_
  refine ((money_private hprivate).harmless.does_selectBalance (fun _ _ => True)
    (lasting_unwritten hprivate) h fun _ _ _ _ _ _ _ => trivial).bind fun (rs : List D) s hrs => ?_
  cases rs with
  | nil => exact Does.pure trivial
  | cons balance rest =>
    refine (does_updateBalance hprivate hrs.1 (fun _ _ => Unwritten.rely)
      (fun s h => h.fair account) fun s k row row' hs h hsafe _ hrow hstore =>
        (h.fair account).raised hs hrow hstore hsafe).bind fun _ s h => ?_
    refine (does_insertTrans hprivate h).bind fun trans_id s h => ?_
    exact does_end h (.selectName trans_id) trivial

/-- The update that takes the amount from the account itself. -/
theorem does_take (hG : Private G) (h : Unwritten t s) {amount : ℤ}
    (hchecked : Checked t account amount amount s) :
    Does (system sql dbl) moneyRules C G t
      (querySQL (.updateBalance (.int account.account_id) (-amount)))
      (fun _ s => Fair t account s) s := by
  refine does_updateBalance hG (P := fun s => Unwritten t s ∧ Checked t account amount amount s)
    ⟨h, hchecked⟩ (fun s s' h hspares => ⟨h.1.rely hspares, h.2.rely hspares⟩)
    (fun s h => h.1.fair account) fun s k row row' hs h _ hids hrow hstore => ?_
  obtain ⟨ids, hids, hk⟩ := hids
  have hk' : k = account.account_id := by
    simp only [updated, Option.some.injEq] at hids
    rw [← hids] at hk
    split at hk
    · exact List.mem_singleton.mp hk
    · exact absurd hk List.not_mem_nil
  subst hk'
  exact h.1.taken hs h.2 hrow hstore

theorem does_withDraw (h : Unwritten t s) :
    Does (system sql dbl) moneyRules (fun s q => Safe sql dbl (.withDraw account) s t q)
      (Takes (.withDraw account)) t (withDraw dbl account) (fun _ _ => True) s := by
  have hprivate := private_takes (T := T) (.withDraw account)
  refine ((money_private hprivate).harmless.does_checkAccount
    (fun x s => Checked t account (dbl.print account.balance) (dbl.print x) s)
    (lasting_unwritten hprivate) h
    fun s sel x h hsafe hsel hx => h.checked hsafe hsel hx).bind fun result s hresult => ?_
  obtain ⟨h, hchecked⟩ := hresult
  cases result with
  | inl code => exact Does.pure trivial
  | inr balance =>
    dsimp only
    split
    · exact Does.pure trivial
    · rename_i hgt
      have hamount := (hchecked balance rfl).amount (Bool.eq_false_of_not_eq_true hgt)
      refine (does_take hprivate h hamount).bind fun _ s h => ?_
      refine (does_insertTrans hprivate h).bind fun trans_id s h => ?_
      exact does_end h (.selectName trans_id) trivial

theorem does_transfer {otherAccountId : Text} {unset : ℤ} (h : Unwritten t s) :
    Does (system sql dbl) moneyRules
      (fun s q => Safe sql dbl (.transfer account otherAccountId unset) s t q)
      (Takes (.transfer account otherAccountId unset)) t
      (transfer dbl account otherAccountId unset) (fun _ _ => True) s := by
  have hprivate := private_takes (T := T) (.transfer account otherAccountId unset)
  refine ((money_private hprivate).harmless.does_checkAccount
    (fun x s => Checked t account (dbl.print account.balance) (dbl.print x) s)
    (lasting_unwritten hprivate) h
    fun s sel x h hsafe hsel hx => h.checked hsafe hsel hx).bind fun result s hresult => ?_
  obtain ⟨h, hchecked⟩ := hresult
  cases result with
  | inl code => exact Does.pure trivial
  | inr balance =>
    dsimp only
    split
    · exact Does.pure trivial
    · rename_i hgt
      have hamount := (hchecked balance rfl).amount (Bool.eq_false_of_not_eq_true hgt)
      refine ((money_private hprivate).harmless.does_selectBalance (fun _ _ => True)
        (lasting_checked hprivate) ⟨h, hamount⟩ fun _ _ _ _ _ _ _ => trivial).bind
        fun (rs : List D) s hrs => ?_
      obtain ⟨h, -⟩ := hrs
      cases rs with
      | nil => exact Does.pure trivial
      | cons balance2 rest =>
        refine (does_take hprivate h.1 h.2).bind fun _ s h => ?_
        refine (does_updateBalance hprivate h (fun _ _ => Fair.rely) (fun s h => h)
          fun s k row row' hs h hsafe hids hrow hstore => ?_).bind fun _ s h => ?_
        · obtain ⟨ids, hids, hk⟩ := hids
          rcases hsafe ids hids k hk with hchange | ⟨_, hback⟩
          · exact h.raised hs hrow hstore hchange
          · exact hs.restored hrow hstore hback
        · refine (does_insertTrans hprivate h).bind fun trans_id s h => ?_
          refine (does_quiet (q := .selectName trans_id) hprivate h trivial).bind fun _ s h => ?_
          refine (does_insertTrans hprivate h).bind fun _ s h => ?_
          exact (does_commit h).bind fun _ s _ => Does.pure trivial

theorem does_closeAccount (h : Unwritten t s) :
    Does (system sql dbl) moneyRules C (Takes (.closeAccount account)) t (closeAccount account)
      (fun _ _ => True) s := by
  have hprivate := private_takes (T := T) (.closeAccount account)
  refine ((money_private hprivate).harmless.does_checkAccount (fun _ _ => True)
    (lasting_unwritten hprivate) h fun _ _ _ _ _ _ _ => trivial).bind fun result s hresult => ?_
  cases result with
  | inl code => exact Does.pure trivial
  | inr balance =>
    refine ((money_private hprivate).harmless.does_quiet (q := .selectInterest account.account_id)
      (fun _ _ => Unwritten.rely) hresult.1 trivial).bind fun _ s h => ?_
    refine (does_updateFlag hprivate h account).bind fun _ s h => ?_
    exact does_end h (.selectHolder account.account_id) trivial

theorem does_openAccount (h : Unwritten t s) :
    Does (system sql dbl) moneyRules (fun s q => Safe sql dbl (.openAccount account) s t q)
      (Takes (.openAccount account)) t (openAccount dbl account) (fun _ _ => True) s := by
  have hprivate := private_takes (T := T) (.openAccount account)
  refine ((money_private hprivate).harmless.does_open (fun _ _ => Unwritten.rely) h).bind
    fun _ s h => ?_
  refine ((money_private hprivate).harmless.does_startTransaction (fun _ _ => Unwritten.rely)
    h).bind fun _ s h => ?_
  refine (does_insertAccount hprivate h account fun s hsafe => hsafe).bind
    fun (account_id : ℤ) s h => ?_
  refine (does_insertTrans hprivate h).bind fun _ s h => ?_
  exact does_end h (.selectOpenDate account_id) trivial

theorem does_changePassword {newPass : Text} (h : Unwritten t s) :
    Does (system sql dbl) moneyRules
      (fun s q => Safe sql dbl (.changePassword account newPass) s t q)
      (Takes (.changePassword account newPass)) t (changePassword account newPass)
      (fun _ _ => True) s := by
  have hprivate := private_takes (T := T) (.changePassword account newPass)
  refine ((money_private hprivate).harmless.does_open (fun _ _ => Unwritten.rely) h).bind
    fun _ s h => ?_
  refine ((money_private hprivate).harmless.does_selectBalance (fun _ _ => True)
    (lasting_unwritten hprivate) h fun _ _ _ _ _ _ _ => trivial).bind fun (rs : List D) s hrs => ?_
  cases rs with
  | nil => exact Does.pure trivial
  | cons x rest =>
    refine ((money_private hprivate).harmless.does_selectPass (fun _ _ => True)
      (lasting_unwritten hprivate) hrs.1 fun _ _ _ _ _ _ _ => trivial).bind
      fun (rs : List D) s hrs => ?_
    cases rs with
    | nil => exact Does.pure trivial
    | cons balance rest =>
      exact (does_updatePass hrs.1 fun s hsafe => hsafe).bind fun _ s _ => Does.pure trivial

end Operations

omit [DecidableEq T] in
theorem solvent_empty : (Database.empty : Database T).Solvent where
  locked := RowStore.locked_empty
  nonneg _ _ hrow := absurd hrow.symm (Option.some_ne_none _)

theorem correct_execute :
    Correct (system (T := T) sql dbl) moneyRules (safe sql dbl) (execute dbl) := by
  intro r t s _ hinv hidle
  have hharmless : Harmless moneyRules (Takes r) t := (money_private (private_takes r)).harmless
  have h : Unwritten t s := Solvent.unwritten hinv hidle
  cases r with
  | openAccount account =>
    exact hharmless.runs_guarded (does_openAccount h)
      fun s post => hharmless.runs_rollbackHandler account
  | deposit account =>
    exact hharmless.runs_guarded (does_deposit h)
      fun s post => hharmless.runs_rollbackHandler account
  | withDraw account =>
    exact hharmless.runs_guarded (does_withDraw h)
      fun s post => hharmless.runs_rollbackHandler account
  | transfer account otherAccountId unset =>
    exact hharmless.runs_guarded (does_transfer h)
      fun s post => hharmless.runs_rollbackHandler account
  | closeAccount account =>
    exact hharmless.runs_guarded (does_closeAccount h) fun s post => runs_returnHandler account
  | changePassword account newPass =>
    exact hharmless.runs_guarded (does_changePassword h) fun s post => runs_returnHandler account

end Money

section Safety
variable {T D : Type} [DecidableEq T] {sql : MySQL D} {dbl : Doubles D} {s : Threads T D}

open Database

/-- In any interleaving of requests that meet `safe`, no balance is negative, and a statement
lowers a balance only for a request with the account's number and its stored password, by at
most the balance. -/
theorem money_safety (hs : ((machine sql dbl).restrict (Allowed (safe sql dbl))).Reachable s) :
    (∀ k row, s.shared.accounts.committed k = some row → 0 ≤ row.balance.cents) ∧
      ∀ t ok s' r p, s.session t = some (r, p) →
        ((machine sql dbl).restrict (Allowed (safe sql dbl))).enabled s (.answer t ok) →
        (machine sql dbl).step s (.answer t ok) = .ok s' →
        ∀ k row, s.shared.accounts.committed k = some row →
          ∃ row', s'.shared.accounts.committed k = some row' ∧
            (row'.balance.cents < row.balance.cents → k = r.account.account_id ∧
              row.pass = r.account.pass ∧
              row.balance.cents - row'.balance.cents ≤ row.balance.cents) := by
  have hinit : ∀ s : Database T, s = Database.empty →
      s.Solvent ∧ ∀ t k, s.accounts.owner k ≠ some t := by
    rintro s rfl
    exact ⟨Money.solvent_empty, fun t _ hk => (Option.some_ne_none t hk.symm).elim⟩
  have hsound := sound_of_reachable hinit Money.correct_execute hs
  refine ⟨Solvent.nonneg hsound.inv, fun t ok s' r p hsession he hstep => ?_⟩
  have hanswer : s.step (system sql dbl) (execute dbl) (.answer t ok) = .ok s' := hstep
  obtain ⟨-, r', p', hsession', htakes⟩ := hsound.answer he.1 he.2 hanswer
  rw [hsession] at hsession'
  obtain ⟨rfl, -⟩ := Prod.mk.inj (Option.some.inj hsession')
  exact htakes

instance (s : Threads T D) (a : Label T (Request D)) :
    Decidable (((machine sql dbl).restrict (Allowed (safe sql dbl))).enabled s a) :=
  inferInstanceAs (Decidable ((machine sql dbl).enabled s a ∧ Allowed (safe sql dbl) s a))

/-- An account with 100.00, from which 30.00 are withdrawn. -/
theorem money_safety_withDraw :
    ∃ s : Threads Unit ℤ, centsOf (s.shared.accounts.committed 1) = 7000 ∧
      ∀ k row, s.shared.accounts.committed k = some row → 0 ≤ row.balance.cents := by
  have h : (((machine (plainTexts wholeCents) wholeCents).restrict
      (Allowed (safe (plainTexts wholeCents) wholeCents))).execute start
      (served (.openAccount (customer 0 10000)) 7 ++ served (.withDraw (customer 1 3000)) 9)).map
      (fun s => centsOf (s.shared.accounts.committed 1)) = some 7000 := by
    decide +kernel
  obtain ⟨s, hs, hview⟩ := Option.map_eq_some_iff.mp h
  have hreach : ((machine (plainTexts wholeCents) wholeCents).restrict
      (Allowed (safe (plainTexts wholeCents) wholeCents))).Reachable s :=
    ⟨start, _, ⟨rfl, fun _ => rfl⟩, Machine.run_of_execute _ hs⟩
  exact ⟨s, hview, (money_safety hreach).1⟩

/-- A deposit of -200.00 to an account with 100.00. -/
theorem deposit_takes_money :
    ∃ s : Threads Unit ℤ, (machine (plainTexts wholeCents) wholeCents).Reachable s ∧
      ¬ ∀ k row, s.shared.accounts.committed k = some row → 0 ≤ row.balance.cents := by
  have h : ((machine (plainTexts wholeCents) wholeCents).execute start
      (served (.openAccount (customer 0 10000)) 7 ++
        served (.deposit (customer 1 (-20000))) 8)).map
      (fun s => (s.shared.accounts.committed 1).map (·.balance.cents)) = some (some (-10000)) := by
    decide +kernel
  obtain ⟨s, hs, hview⟩ := Option.map_eq_some_iff.mp h
  obtain ⟨row, hrow, hbalance⟩ := Option.map_eq_some_iff.mp hview
  refine ⟨s, ⟨start, _, ⟨rfl, fun _ => rfl⟩, Machine.run_of_execute _ hs⟩, fun hall => ?_⟩
  have hnonneg := hall 1 row hrow
  omega

end Safety

end MuduoServer.Bank
