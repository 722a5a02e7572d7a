import MuduoServer.BankService

/-!
What each statement can do to the database, once for all operations, and the parts of the
operations that are the same under any rules: the statements that change nothing, the
handlers and the destructor.
-/
namespace MuduoServer.Bank

open Sessions FaultMachine

namespace Database
variable {T D : Type} {sql : MySQL D} {dbl : Doubles D} {s s' : Database T} {t : T} {ok : Bool}

theorem query_eq_ok {α : Type} {effect : Except Fault (Option α × Database T)} {a : Option α}
    (h : s.query t ok effect = .ok (a, s')) :
    (a = none ∧ s' = s) ∨ (ok = true ∧ effect = .ok (a, s')) := by
  unfold query at h
  split at h
  · split at h
    · exact Or.inr ⟨by assumption, h⟩
    · simp only [Except.ok.injEq, Prod.mk.injEq] at h
      exact Or.inl ⟨h.1.symm, h.2.symm⟩
  · cases h

/-- A statement that only answers. -/
theorem query_pure {α : Type} {x : α} {a : Option α}
    (h : s.query t ok (.ok (some x, s)) = .ok (a, s')) : s' = s := by
  rcases query_eq_ok h with ⟨_, hs⟩ | ⟨_, heffect⟩
  · exact hs
  · simp only [Except.ok.injEq, Prod.mk.injEq] at heffect
    exact heffect.2.symm

theorem query_readsItem {α : Type} {row : Option AccountRow} {item : AccountRow → α}
    {a : Option α} (h : s.query t ok (s.readsItem row item) = .ok (a, s')) : s' = s := by
  rcases query_eq_ok h with ⟨_, hs⟩ | ⟨_, heffect⟩
  · exact hs
  · cases row with
    | none => cases heffect
    | some row =>
      simp only [readsItem, Except.ok.injEq, Prod.mk.injEq] at heffect
      exact heffect.2.symm

theorem query_result {α β : Type} {x : Option β} {f : β → α × Database T} {a : Option α}
    (h : s.query t ok (s.result x f) = .ok (a, s')) :
    (a = none ∧ s' = s) ∨ (ok = true ∧ ∃ y, x = some y ∧ a = some (f y).1 ∧ s' = (f y).2) := by
  rcases query_eq_ok h with hnone | ⟨hok, heffect⟩
  · exact Or.inl hnone
  · cases x with
    | none =>
      simp only [result, Except.ok.injEq, Prod.mk.injEq] at heffect
      exact Or.inl ⟨heffect.1.symm, heffect.2.symm⟩
    | some y =>
      simp only [result, Except.ok.injEq, Prod.mk.injEq] at heffect
      exact Or.inr ⟨hok, y, rfl, heffect.1.symm, heffect.2.symm⟩

/-- The rows of an update of balances: those of the accounts it is for, each changed. -/
theorem updateBalance_eq_some {account : AccountId} {change : ℤ}
    {rows : List (ℤ × AccountRow)} (h : s.updateBalance sql t account change = some rows) :
    ∃ ids, s.updated sql t account = some ids ∧ rows.map Prod.fst = ids ∧
      ∀ r ∈ rows, ∃ row balance, s.accounts.view t r.1 = some row ∧
        store sql.strict (row.balance.cents + change) = some balance ∧
        r.2 = { row with balance := balance } := by
  simp only [updateBalance, Option.bind_eq_bind, Option.bind_eq_some_iff] at h
  obtain ⟨ids, hids, hrows⟩ := h
  refine ⟨ids, hids, ?_⟩
  clear hids
  induction ids generalizing rows with
  | nil =>
    simp only [List.mapM_nil, Option.pure_def, Option.some.injEq] at hrows
    subst hrows
    exact ⟨rfl, fun r hr => absurd hr List.not_mem_nil⟩
  | cons k ids ih =>
    simp only [List.mapM_cons, Option.bind_eq_bind, Option.bind_eq_some_iff, Option.pure_def,
      Option.some.injEq] at hrows
    obtain ⟨r, hr, rest, hrest, rfl⟩ := hrows
    obtain ⟨hmap, hall⟩ := ih hrest
    simp only [changed, Option.bind_eq_bind, Option.bind_eq_some_iff, Option.pure_def,
      Option.some.injEq] at hr
    obtain ⟨row, hrow, balance, hbalance, rfl⟩ := hr
    refine ⟨by rw [List.map_cons, hmap], fun r' hr' => ?_⟩
    rcases List.mem_cons.mp hr' with hr' | hr'
    · subst hr'
      exact ⟨row, balance, hrow, hbalance, rfl⟩
    · exact hall r' hr'

theorem insertTrans_eq_some {account_id : ℤ} {other_account_id : Option ℤ}
    {abstract_id money balance : ℤ} {row : TransRow}
    (h : s.insertTrans sql t account_id other_account_id abstract_id money balance = some row) :
    row.trans_id = s.nextTrans ∧ row.account_id = account_id ∧
      store sql.strict balance = some row.balance := by
  unfold insertTrans at h
  split at h
  · simp only [Option.bind_eq_bind, Option.bind_eq_some_iff, Option.pure_def,
      Option.some.injEq] at h
    obtain ⟨m, _, b, hb, rfl⟩ := h
    exact ⟨rfl, rfl, hb⟩
  · cases h

variable [DecidableEq T]

/-- The statements that read nothing that is locked and change nothing. -/
def Quiet : Statement → Prop
  | .startTransaction | .selectName _ | .selectOpenDate _ | .selectHolder _ | .selectInterest _ =>
    True
  | _ => False

variable (sql dbl)

theorem perform_quiet {q : Statement} (hq : Quiet q) {a : Option (Answer D q)}
    (h : s.perform sql dbl t q ok = .ok (a, s')) : s' = s := by
  cases q with
  | startTransaction => exact query_pure h
  | selectName => exact query_readsItem h
  | selectOpenDate => exact query_readsItem h
  | selectHolder => exact query_readsItem h
  | selectInterest => exact query_pure h
  | open_ | commit | rollback | close | selectBalance | selectBalancePass | insertAccount
  | insertTrans | updateBalance | updateFlag | updatePass => exact absurd hq id

theorem perform_open {a : Option (Answer D .open_)}
    (h : s.perform sql dbl t .open_ ok = .ok (a, s')) :
    s' = s ∨ s' = s.setConnected t true := by
  simp only [perform] at h
  split at h
  · simp only [Except.ok.injEq, Prod.mk.injEq] at h
    exact Or.inr h.2.symm
  · simp only [Except.ok.injEq, Prod.mk.injEq] at h
    exact Or.inl h.2.symm

theorem perform_rollback {a : Option (Answer D .rollback)}
    (h : s.perform sql dbl t .rollback ok = .ok (a, s')) : s' = s ∨ s' = s.rollback t := by
  rcases query_eq_ok h with ⟨_, hs⟩ | ⟨_, heffect⟩
  · exact Or.inl hs
  · simp only [Except.ok.injEq, Prod.mk.injEq] at heffect
    exact Or.inr heffect.2.symm

theorem perform_commit {a : Option (Answer D .commit)}
    (h : s.perform sql dbl t .commit ok = .ok (a, s')) :
    (a = none ∧ s' = s) ∨ s' = s.commit t := by
  rcases query_eq_ok h with hnone | ⟨_, heffect⟩
  · exact Or.inl hnone
  · simp only [Except.ok.injEq, Prod.mk.injEq] at heffect
    exact Or.inr heffect.2.symm

theorem perform_selectBalance {account : AccountId} {forUpdate : Bool} {a : Option (List D)}
    (h : s.perform sql dbl t (.selectBalance account forUpdate) ok = .ok (a, s')) :
    (a = none ∧ s' = s) ∨ (ok = true ∧
      ∃ sel, s.selectBalance sql dbl t account forUpdate = some sel ∧ a = some sel.balances ∧
        s' = s.locking t sel.locks) :=
  query_result h

theorem perform_selectBalancePass {account_id : ℤ} {pass : Text} {forUpdate : Bool}
    {a : Option (List D)}
    (h : s.perform sql dbl t (.selectBalancePass account_id pass forUpdate) ok = .ok (a, s')) :
    (a = none ∧ s' = s) ∨ (ok = true ∧
      ∃ sel, sql.selectPass account_id pass forUpdate (s.accounts.view t) = some sel ∧
        a = some sel.balances ∧ s' = s.locking t sel.locks) :=
  query_result h

theorem perform_insertAccount {name pass id : Text} {balance : ℤ} {a : Option ℤ}
    (h : s.perform sql dbl t (.insertAccount name pass id balance) ok = .ok (a, s')) :
    (a = none ∧ s' = s) ∨ (ok = true ∧
      ∃ new, sql.insertAccount name pass id balance s.nextAccount (s.accounts.view t) = some new ∧
        a = some new.insertId ∧ s' = { s.writes t new.rows with nextAccount := new.next }) :=
  query_result h

theorem perform_insertTrans {account_id : ℤ} {other_account_id : Option ℤ}
    {abstract_id money balance : ℤ} {a : Option ℤ}
    (h : s.perform sql dbl t
      (.insertTrans account_id other_account_id abstract_id money balance) ok = .ok (a, s')) :
    (a = none ∧ s' = s) ∨ (ok = true ∧
      ∃ row, s.insertTrans sql t account_id other_account_id abstract_id money balance = some row ∧
        a = some row.trans_id ∧ s' = s.inserts t row) :=
  query_result h

theorem perform_insertTrans_accounts {account_id : ℤ} {other_account_id : Option ℤ}
    {abstract_id money balance : ℤ} {a : Option ℤ}
    (h : s.perform sql dbl t
      (.insertTrans account_id other_account_id abstract_id money balance) ok = .ok (a, s')) :
    s'.accounts = s.accounts := by
  rcases perform_insertTrans sql dbl h with ⟨-, rfl⟩ | ⟨-, row, -, -, rfl⟩
  · rfl
  · rfl

theorem perform_updateBalance {account : AccountId} {change : ℤ} {a : Option Unit}
    (h : s.perform sql dbl t (.updateBalance account change) ok = .ok (a, s')) :
    (a = none ∧ s' = s) ∨ (ok = true ∧
      ∃ rows, s.updateBalance sql t account change = some rows ∧ a = some () ∧
        s' = s.writes t rows) :=
  query_result h

theorem perform_updateFlag {account_id : ℤ} {a : Option Unit}
    (h : s.perform sql dbl t (.updateFlag account_id) ok = .ok (a, s')) :
    (a = none ∧ s' = s) ∨ (ok = true ∧ s' = s.writes t (s.updateFlag t account_id)) := by
  rcases query_eq_ok h with hnone | ⟨hok, heffect⟩
  · exact Or.inl hnone
  · exact Or.inr ⟨hok, (Prod.mk.inj (Except.ok.inj heffect)).2.symm⟩

theorem perform_updatePass {newPass : Text} {account_id : ℤ} {a : Option Unit}
    (h : s.perform sql dbl t (.updatePass newPass account_id) ok = .ok (a, s')) :
    (a = none ∧ s' = s) ∨ (ok = true ∧
      ∃ rows, sql.updatePass newPass account_id (s.accounts.view t) = some rows ∧ a = some () ∧
        s' = (s.writes t rows).commit t) :=
  query_result h

section Ready
variable {rows : List (ℤ × AccountRow)}

/-- The rows that a statement locks are free when it is ready. -/
theorem free_of_ready {q : Statement} {ks : List ℤ} (h : (system sql dbl).ready s t q)
    (hks : s.locks sql dbl t q = ks) : ∀ k ∈ ks, s.accounts.Free t k := by
  subst hks
  exact h

theorem ready_selectBalance {account : AccountId} {forUpdate : Bool} {sel : Selection D}
    (h : (system sql dbl).ready s t (.selectBalance account forUpdate))
    (hsel : s.selectBalance sql dbl t account forUpdate = some sel) :
    ∀ k ∈ sel.locks, s.accounts.Free t k := by
  apply free_of_ready sql dbl h
  change ((s.selectBalance sql dbl t account forUpdate).map (·.locks)).getD [] = sel.locks
  rw [hsel]
  rfl

theorem ready_selectPass {account_id : ℤ} {pass : Text} {forUpdate : Bool} {sel : Selection D}
    (h : (system sql dbl).ready s t (.selectBalancePass account_id pass forUpdate))
    (hsel : sql.selectPass account_id pass forUpdate (s.accounts.view t) = some sel) :
    ∀ k ∈ sel.locks, s.accounts.Free t k := by
  apply free_of_ready sql dbl h
  change ((sql.selectPass account_id pass forUpdate (s.accounts.view t)).map (·.locks)).getD [] =
    sel.locks
  rw [hsel]
  rfl

theorem ready_insertAccount {name pass id : Text} {balance : ℤ} {new : Inserted}
    (h : (system sql dbl).ready s t (.insertAccount name pass id balance))
    (hnew : sql.insertAccount name pass id balance s.nextAccount (s.accounts.view t) = some new) :
    ∀ r ∈ new.rows, s.accounts.Free t r.1 := by
  have hks : s.locks sql dbl t (.insertAccount name pass id balance) = new.rows.map Prod.fst := by
    change ((sql.insertAccount name pass id balance s.nextAccount (s.accounts.view t)).map
      (·.rows.map Prod.fst)).getD [] = _
    rw [hnew]
    rfl
  exact fun r hr => free_of_ready sql dbl h hks r.1 (List.mem_map_of_mem hr)

theorem ready_updateBalance {account : AccountId} {change : ℤ}
    (h : (system sql dbl).ready s t (.updateBalance account change))
    (hrows : s.updateBalance sql t account change = some rows) :
    ∀ r ∈ rows, s.accounts.Free t r.1 := by
  have hks : s.locks sql dbl t (.updateBalance account change) = rows.map Prod.fst := by
    change ((s.updateBalance sql t account change).map (·.map Prod.fst)).getD [] = _
    rw [hrows]
    rfl
  exact fun r hr => free_of_ready sql dbl h hks r.1 (List.mem_map_of_mem hr)

theorem ready_updateFlag {account_id : ℤ}
    (h : (system sql dbl).ready s t (.updateFlag account_id)) :
    ∀ r ∈ s.updateFlag t account_id, s.accounts.Free t r.1 := fun r hr =>
  free_of_ready sql dbl h rfl r.1 (List.mem_map_of_mem hr)

theorem ready_updatePass {newPass : Text} {account_id : ℤ}
    (h : (system sql dbl).ready s t (.updatePass newPass account_id))
    (hrows : sql.updatePass newPass account_id (s.accounts.view t) = some rows) :
    ∀ r ∈ rows, s.accounts.Free t r.1 := by
  have hks : s.locks sql dbl t (.updatePass newPass account_id) = rows.map Prod.fst := by
    change ((sql.updatePass newPass account_id (s.accounts.view t)).map (·.map Prod.fst)).getD [] = _
    rw [hrows]
    rfl
  exact fun r hr => free_of_ready sql dbl h hks r.1 (List.mem_map_of_mem hr)

end Ready

end Database

section Guarded
variable {T D : Type} [DecidableEq T] {sql : MySQL D} {dbl : Doubles D}
  {rules : Rules T (Database T)} {C : Database T → Statement → Prop}
  {G : Database T → Database T → Prop} {t : T} {s : Database T}

/-- Rules that let a session open its connection, do nothing and give up. -/
structure Harmless (rules : Rules T (Database T)) (G : Database T → Database T → Prop) (t : T) :
    Prop where
  same : ∀ s, rules.inv s → Keeps rules G t s s
  opens : ∀ s b, rules.inv s → Keeps rules G t s (s.setConnected t b)
  opened : ∀ s b, rules.rely t s (s.setConnected t b)
  rollback : ∀ s, rules.inv s → Keeps rules G t s (s.rollback t)
  close : ∀ s, rules.inv s → Keeps rules G t s ((s.rollback t).setConnected t false)
  idle : ∀ s, rules.inv s → rules.idle t ((s.rollback t).setConnected t false)

/-- Rules that a step of `t` keeps which commits nothing, holds its locks and spares what the
others have locked. -/
structure KeepsPrivate (rules : Rules T (Database T)) (G : Database T → Database T → Prop) (t : T) :
    Prop where
  locked : ∀ s, rules.inv s → s.accounts.Locked
  keeps : ∀ s s', rules.inv s → s'.accounts.Locked →
    s'.accounts.committed = s.accounts.committed →
    (∀ u, u ≠ t → s.accounts.Spares u s'.accounts) → Keeps rules G t s s'
  rely : ∀ s s', s.accounts.Spares t s'.accounts → rules.rely t s s'
  idle : ∀ s, (∀ k, s.accounts.owner k ≠ some t) → rules.idle t s

omit [DecidableEq T] in
theorem KeepsPrivate.same (h : KeepsPrivate rules G t) (hs : rules.inv s) : Keeps rules G t s s :=
  h.keeps s s hs (h.locked s hs) rfl fun u _ => .refl u s.accounts

omit [DecidableEq T] in
theorem KeepsPrivate.locking (h : KeepsPrivate rules G t) {ks : List ℤ} (hs : rules.inv s)
    (hfree : ∀ k ∈ ks, s.accounts.Free t k) : Keeps rules G t s (s.locking t ks) :=
  h.keeps s _ hs ((h.locked s hs).lock hfree) rfl fun _ hu => RowStore.spares_lock hu.symm hfree

theorem KeepsPrivate.writes (h : KeepsPrivate rules G t) {rows : List (ℤ × AccountRow)}
    (hs : rules.inv s) (hfree : ∀ r ∈ rows, s.accounts.Free t r.1) :
    Keeps rules G t s (s.writes t rows) :=
  h.keeps s _ hs ((h.locked s hs).writeAll hfree) RowStore.writeAll_committed
    fun _ hu => RowStore.spares_writeAll hu.symm hfree

theorem KeepsPrivate.harmless (h : KeepsPrivate rules G t) : Harmless rules G t where
  same _ hs := h.same hs
  opens s _ hs := h.keeps s _ hs (h.locked s hs) rfl fun u _ => .refl u s.accounts
  opened s _ := h.rely s _ (.refl t s.accounts)
  rollback s hs := h.keeps s _ hs (h.locked s hs).release rfl
    fun _ hu => RowStore.spares_release hu.symm
  close s hs := h.keeps s _ hs (h.locked s hs).release rfl
    fun _ hu => RowStore.spares_release hu.symm
  idle s _ := by
    refine h.idle _ fun k => ?_
    have howner : ((s.rollback t).setConnected t false).accounts.owner k =
        (s.accounts.release t).owner k := rfl
    rw [howner, RowStore.release_owner]
    split
    · exact fun h => Option.some_ne_none t h.symm
    · assumption

theorem Harmless.does_quiet (h : Harmless rules G t) {P : Database T → Prop}
    (hP : ∀ s s', P s → rules.rely t s s' → P s') (hs : P s) {q : Statement}
    (hq : Database.Quiet q) :
    Does (Database.system sql dbl) rules C G t (querySQL q) (fun _ s => P s) s := by
  refine Does.invoke fun s' ok a s'' hinv hrely _ _ hperform => ?_
  obtain rfl := Database.perform_quiet sql dbl hq hperform
  exact ⟨h.same _ hinv, fun _ _ => hP s _ hs hrely⟩

theorem Harmless.does_open (h : Harmless rules G t) {P : Database T → Prop}
    (hP : ∀ s s', P s → rules.rely t s s' → P s') (hs : P s) :
    Does (Database.system sql dbl) rules C G t (querySQL .open_) (fun _ s => P s) s := by
  refine Does.invoke fun s' ok a s'' hinv hrely _ _ hperform => ?_
  have hs' := hP s s' hs hrely
  rcases Database.perform_open sql dbl hperform with hsame | hopen
  · rw [hsame]
    exact ⟨h.same s' hinv, fun _ _ => hs'⟩
  · rw [hopen]
    exact ⟨h.opens s' true hinv, fun _ _ => hP s' _ hs' (h.opened s' true)⟩

theorem Harmless.does_startTransaction (h : Harmless rules G t) {P : Database T → Prop}
    (hP : ∀ s s', P s → rules.rely t s s' → P s') (hs : P s) :
    Does (Database.system sql dbl) rules C G t (querySQL .startTransaction) (fun _ s => P s) s :=
  h.does_quiet hP hs trivial

section Selects
variable {P : Database T → Prop} (post : D → Database T → Prop)

/-- What stays true while the others go on and while `t` locks rows that are free. -/
structure Lasting (rules : Rules T (Database T)) (G : Database T → Database T → Prop) (t : T)
    (P : Database T → Prop) : Prop where
  rely : ∀ s s', P s → rules.rely t s s' → P s'
  keeps : ∀ s ks, rules.inv s → (∀ k ∈ ks, s.accounts.Free t k) →
    Keeps rules G t s (s.locking t ks)
  locking : ∀ s ks, rules.inv s → P s → P (s.locking t ks)

/-- A select keeps what lasts, and `post` holds of the first balance that it reads. -/
theorem Harmless.does_selectBalance (h : Harmless rules G t) (hP : Lasting rules G t P) (hs : P s)
    {clause : AccountId} {forUpdate : Bool}
    (hpost : ∀ s sel x, P s → C s (.selectBalance clause forUpdate) →
      s.selectBalance sql dbl t clause forUpdate = some sel →
      sel.balances.head? = some x → post x (s.locking t sel.locks)) :
    Does (Database.system sql dbl) rules C G t (querySQL (.selectBalance clause forUpdate))
      (fun (rs : List D) s => P s ∧ ∀ x ∈ rs.head?, post x s) s := by
  refine Does.invoke fun s' ok a s'' hinv hrely hready hC hperform => ?_
  have hs' : P s' := hP.rely s s' hs hrely
  rcases Database.perform_selectBalance sql dbl hperform with
    ⟨rfl, rfl⟩ | ⟨rfl, sel, hsel, rfl, rfl⟩
  · exact ⟨h.same _ hinv, fun x hx => by cases hx⟩
  · have hfree : ∀ k ∈ sel.locks, s'.accounts.Free t k :=
      Database.ready_selectBalance sql dbl (hready rfl) hsel
    refine ⟨hP.keeps s' sel.locks hinv hfree, fun rs hrs => ?_⟩
    obtain rfl := Option.some.inj hrs
    exact ⟨hP.locking s' sel.locks hinv hs', fun x hx => hpost s' sel x hs' hC hsel hx⟩

theorem Harmless.does_selectPass (h : Harmless rules G t) (hP : Lasting rules G t P) (hs : P s)
    {account_id : ℤ} {pass : Text} {forUpdate : Bool}
    (hpost : ∀ s sel x, P s → C s (.selectBalancePass account_id pass forUpdate) →
      sql.selectPass account_id pass forUpdate (s.accounts.view t) = some sel →
      sel.balances.head? = some x → post x (s.locking t sel.locks)) :
    Does (Database.system sql dbl) rules C G t
      (querySQL (.selectBalancePass account_id pass forUpdate))
      (fun (rs : List D) s => P s ∧ ∀ x ∈ rs.head?, post x s) s := by
  refine Does.invoke fun s' ok a s'' hinv hrely hready hC hperform => ?_
  have hs' : P s' := hP.rely s s' hs hrely
  rcases Database.perform_selectBalancePass sql dbl hperform with
    ⟨rfl, rfl⟩ | ⟨rfl, sel, hsel, rfl, rfl⟩
  · exact ⟨h.same _ hinv, fun x hx => by cases hx⟩
  · have hfree : ∀ k ∈ sel.locks, s'.accounts.Free t k :=
      Database.ready_selectPass sql dbl (hready rfl) hsel
    refine ⟨hP.keeps s' sel.locks hinv hfree, fun rs hrs => ?_⟩
    obtain rfl := Option.some.inj hrs
    exact ⟨hP.locking s' sel.locks hinv hs', fun x hx => hpost s' sel x hs' hC hsel hx⟩

/-- The two tests of an account, after which `post` holds of the balance. -/
theorem Harmless.does_checkAccount (h : Harmless rules G t) (hP : Lasting rules G t P) (hs : P s)
    {account : Account D}
    (hpost : ∀ s sel x, P s → C s (.selectBalancePass account.account_id account.pass true) →
      sql.selectPass account.account_id account.pass true (s.accounts.view t) = some sel →
      sel.balances.head? = some x → post x (s.locking t sel.locks)) :
    Does (Database.system sql dbl) rules C G t (checkAccount account)
      (fun result s => P s ∧ ∀ x, result = .inr x → post x s) s := by
  refine (h.does_open hP.rely hs).bind fun _ s hs => ?_
  refine (h.does_startTransaction hP.rely hs).bind fun _ s hs => ?_
  refine (h.does_selectBalance (fun _ _ => True) hP hs fun _ _ _ _ _ _ _ => trivial).bind
    fun (rs : List D) s hrs => ?_
  cases rs with
  | nil =>
    refine Does.pure ⟨hrs.1, fun x hx => ?_⟩
    cases hx
  | cons x rest =>
    refine (h.does_selectPass post hP hrs.1 hpost).bind fun (rs : List D) s hrs => ?_
    cases rs with
    | nil =>
      refine Does.pure ⟨hrs.1, fun x hx => ?_⟩
      cases hx
    | cons balance rest =>
      refine Does.pure ⟨hrs.1, fun x hx => ?_⟩
      obtain rfl := Sum.inr.inj hx
      exact hrs.2 balance rfl

end Selects

theorem Harmless.runs_close (h : Harmless rules G t) (outcome : Outcome D) :
    Runs (Database.system sql dbl) rules C G t (.call .close fun _ => .ret outcome)
      (fun _ s => rules.idle t s) s := by
  intro s' ok a s'' hinv _ _ _ hperform
  obtain rfl : (s'.rollback t).setConnected t false = s'' :=
    (Prod.mk.inj (Except.ok.inj hperform)).2
  exact ⟨h.close s' hinv, h.idle s' hinv⟩

theorem Harmless.runs_rollbackHandler (h : Harmless rules G t) (account : Account D)
    {post : Outcome D → Database T → Prop} (hpost : ∀ outcome s, post outcome s) :
    Runs (Database.system sql dbl) rules C G t (rollbackHandler account).run post s := by
  intro s' ok a s'' hinv _ _ _ hperform
  refine ⟨?_, ?_⟩
  · rcases Database.perform_rollback sql dbl hperform with hsame | hback
    · rw [hsame]
      exact h.same s' hinv
    · rw [hback]
      exact h.rollback s' hinv
  · cases a with
    | none => exact hpost _ _
    | some _ => exact hpost _ _

/-- The whole operation runs well when its `try` block does. -/
theorem Harmless.runs_guarded (h : Harmless rules G t) {body handler : Sql D (ℤ × Account D)}
    (hbody : Does (Database.system sql dbl) rules C G t body (fun _ _ => True) s)
    (hhandler : ∀ s post, (∀ outcome s, post outcome s) →
      Runs (Database.system sql dbl) rules C G t handler.run post s) :
    Runs (Database.system sql dbl) rules C G t (guarded body handler)
      (fun _ s => rules.idle t s) s := by
  refine Runs.bind (Runs.bind (hbody.mono fun outcome s' _ => ?_))
  cases outcome with
  | ok x => exact h.runs_close (.ok x)
  | error e => exact hhandler s' _ fun outcome s => h.runs_close outcome

theorem runs_returnHandler (account : Account D) {post : Outcome D → Database T → Prop}
    (hpost : ∀ outcome s, post outcome s) :
    Runs (Database.system sql dbl) rules C G t (pure (-1, account) : Sql D (ℤ × Account D)).run
      post s :=
  hpost _ s

end Guarded

end MuduoServer.Bank
