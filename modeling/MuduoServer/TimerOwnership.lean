import MuduoServer.TimerQueue

/-!
The two indexes of a timer queue. Every live timer object either is scheduled,
with one entry under its expiration and one under its sequence number, or is
loose: created and not yet added, or taken out by `getExpired`. Each operation
gets one specification lemma about this ownership, which also says that no
assertion fails and that no deleted object is touched.
-/
namespace MuduoServer

open FaultMachine

@[simp] theorem entry_when (w : ℤ) (a : ℕ) : (entry w a).when = w := rfl

theorem entry_eta (e : Entry) : entry e.when e.timer = e := rfl

@[simp] theorem entry_inj {w w' : ℤ} {a a' : ℕ} : entry w a = entry w' a' ↔ w = w' ∧ a = a' := by
  simp [entry]

@[simp] theorem activeTimer_inj {a a' n n' : ℕ} :
    activeTimer a n = activeTimer a' n' ↔ a = a' ∧ n = n' := by
  simp [activeTimer]

theorem activeTimer_eta (i : ActiveTimer) : activeTimer i.timer i.sequence = i := rfl

theorem when_le_of_lt {e f : Entry} (h : e < f) : e.when ≤ f.when := by
  rcases Prod.Lex.lt_iff.mp h with hlt | ⟨heq, -⟩
  · exact le_of_lt hlt
  · exact le_of_eq heq

/-- The sentry stands behind everything that expires at `now`. -/
theorem lt_sentry {e : Entry} {now : ℤ} (ha : e.timer < TimerQueue.UINTPTR_MAX) :
    e < TimerQueue.sentry now ↔ e.when ≤ now := by
  unfold TimerQueue.sentry
  rw [Prod.Lex.lt_iff]
  constructor
  · intro h
    rcases h with hlt | ⟨heq, -⟩
    · exact le_of_lt hlt
    · exact le_of_eq heq
  · intro h
    rcases lt_or_eq_of_le h with hlt | heq
    · exact Or.inl hlt
    · exact Or.inr ⟨heq, ha⟩

namespace TimerQueue

variable {q : TimerQueue} {loose : List ℕ}

/-- Every live timer is scheduled or loose, and not both; the two sets hold the
scheduled ones under their current expiration and sequence number. -/
structure Owned (q : TimerQueue) (loose : List ℕ) : Prop where
  keyed : ∀ w a, entry w a ∈ q.timers_ →
    ∃ t, q.heap a = some t ∧ t.expiration_ = w ∧ activeTimer a t.sequence_ ∈ q.activeTimers_
  active : ∀ a n, activeTimer a n ∈ q.activeTimers_ →
    ∃ t, q.heap a = some t ∧ t.sequence_ = n ∧ entry t.expiration_ a ∈ q.timers_
  sizes : q.timers_.size = q.activeTimers_.size
  nodup : loose.Nodup
  alive : ∀ a ∈ loose, ∃ t, q.heap a = some t ∧ entry t.expiration_ a ∉ q.timers_
  noLeak : ∀ a t, q.heap a = some t → entry t.expiration_ a ∈ q.timers_ ∨ a ∈ loose
  bounded : ∀ a t, q.heap a = some t → a < UINTPTR_MAX

theorem empty_owned : empty.Owned [] where
  keyed w a h := absurd h (OrderedSet.not_mem_empty _)
  active a n h := absurd h (OrderedSet.not_mem_empty _)
  sizes := rfl
  nodup := List.nodup_nil
  alive a h := by cases h
  noLeak a t h := by cases h
  bounded a t h := by cases h

theorem Owned.perm (h : q.Owned loose) {loose' : List ℕ} (hp : loose.Perm loose') :
    q.Owned loose' :=
  ⟨h.keyed, h.active, h.sizes, hp.nodup_iff.mp h.nodup,
    fun a ha => h.alive a (hp.mem_iff.mpr ha),
    fun a t ht => (h.noLeak a t ht).imp_right hp.mem_iff.mp, h.bounded⟩

theorem Owned.entry_not_mem (h : q.Owned loose) {a : ℕ} (ha : a ∈ loose) (w : ℤ) :
    entry w a ∉ q.timers_ := by
  intro hmem
  obtain ⟨t, ht, hw, -⟩ := h.keyed w a hmem
  obtain ⟨t', ht', hout⟩ := h.alive a ha
  obtain rfl := Option.some.inj (ht.symm.trans ht')
  rw [hw] at hout
  exact hout hmem

theorem Owned.activeTimer_not_mem (h : q.Owned loose) {a : ℕ} (ha : a ∈ loose) (n : ℕ) :
    activeTimer a n ∉ q.activeTimers_ := by
  intro hmem
  obtain ⟨t, -, -, hin⟩ := h.active a n hmem
  exact h.entry_not_mem ha _ hin

/-- Only the heap at `a` changes, where no timer is or a loose one. -/
theorem Owned.storeAt (h : q.Owned loose) {a : ℕ} {o : Option Timer} {loose' : List ℕ}
    (hfree : a ∈ loose ∨ q.heap a = none) (hlt : a < UINTPTR_MAX) (hnodup : loose'.Nodup)
    (hloose : ∀ b, b ∈ loose' ↔ b = a ∧ o ≠ none ∨ b ≠ a ∧ b ∈ loose) :
    (q.store a o).Owned loose' := by
  have hout : ∀ w, entry w a ∉ q.timers_ := by
    intro w hmem
    rcases hfree with ha | hnone
    · exact h.entry_not_mem ha w hmem
    · obtain ⟨t, ht, -⟩ := h.keyed w a hmem
      rw [hnone] at ht
      cases ht
  have hkept : ∀ b, b ≠ a → (q.store a o).heap b = q.heap b := by
    intro b hb
    simp [TimerQueue.store, hb]
  have hself : (q.store a o).heap a = o := by simp [TimerQueue.store]
  constructor
  · intro w b hmem
    have hb : b ≠ a := fun heq => hout w (heq ▸ hmem)
    rw [hkept b hb]
    exact h.keyed w b hmem
  · intro b n hmem
    obtain ⟨t, ht, hn, hin⟩ := h.active b n hmem
    have hb : b ≠ a := fun heq => hout _ (heq ▸ hin)
    exact ⟨t, (hkept b hb).trans ht, hn, hin⟩
  · exact h.sizes
  · exact hnodup
  · intro b hb
    rcases (hloose b).mp hb with ⟨rfl, hset⟩ | ⟨hne, hb⟩
    · obtain ⟨t, rfl⟩ := Option.ne_none_iff_exists'.mp hset
      exact ⟨t, hself, hout _⟩
    · rw [hkept b hne]
      exact h.alive b hb
  · intro b t hb
    by_cases hba : b = a
    · subst hba
      rw [hself] at hb
      exact Or.inr ((hloose b).mpr (Or.inl ⟨rfl, by simp [hb]⟩))
    · rw [hkept b hba] at hb
      exact (h.noLeak b t hb).imp_right fun hm => (hloose b).mpr (Or.inr ⟨hba, hm⟩)
  · intro b t hb
    by_cases hba : b = a
    · exact hba ▸ hlt
    · rw [hkept b hba] at hb
      exact h.bounded b t hb

theorem Owned.lt_of_loose (h : q.Owned loose) {a : ℕ} (ha : a ∈ loose) : a < UINTPTR_MAX := by
  obtain ⟨t, ht, -⟩ := h.alive a ha
  exact h.bounded a t ht

/-- A loose timer may be changed at will. -/
theorem Owned.store (h : q.Owned loose) {a : ℕ} (ha : a ∈ loose) (t : Timer) :
    (q.store a (some t)).Owned loose := by
  refine h.storeAt (Or.inl ha) (h.lt_of_loose ha) h.nodup fun b => ?_
  by_cases hb : b = a
  · simp [hb, ha]
  · simp [hb]

/-- `new` at a free address makes a loose timer. -/
theorem Owned.create (h : q.Owned loose) {a : ℕ} (hfree : q.heap a = none)
    (hlt : a < UINTPTR_MAX) (t : Timer) : (q.store a (some t)).Owned (a :: loose) := by
  have hnew : a ∉ loose := by
    intro hmem
    obtain ⟨t', ht', -⟩ := h.alive a hmem
    rw [hfree] at ht'
    cases ht'
  refine h.storeAt (Or.inr hfree) hlt (List.nodup_cons.mpr ⟨hnew, h.nodup⟩) fun b => ?_
  by_cases hb : b = a
  · simp [hb]
  · simp [hb]

/-- Deleting a loose timer. -/
theorem Owned.delete (h : q.Owned loose) {a : ℕ} (ha : a ∈ loose) :
    q.delete a = .ok (q.store a none) ∧ (q.store a none).Owned (loose.erase a) := by
  obtain ⟨t, ht, -⟩ := h.alive a ha
  refine ⟨by simp [TimerQueue.delete, ht], ?_⟩
  refine h.storeAt (Or.inl ha) (h.lt_of_loose ha) (h.nodup.erase a) fun b => ?_
  rw [h.nodup.mem_erase_iff]
  simp

/-- The queue after `insert` of a timer that is in neither set. -/
def inserted (q : TimerQueue) (a : ℕ) (t : Timer) : TimerQueue :=
  { q with
    timers_ := (q.timers_.insert (entry t.expiration_ a)).1
    activeTimers_ := (q.activeTimers_.insert (activeTimer a t.sequence_)).1 }

def expiresFirst (q : TimerQueue) (t : Timer) : Bool :=
  match q.timers_.begin? with
  | none => true
  | some it => decide (t.expiration_ < it.when)

/-- `insert` schedules a loose timer; the flag says that it expires before all
others. -/
theorem Owned.insert (h : q.Owned loose) {a : ℕ} (ha : a ∈ loose) {t : Timer}
    (ht : q.heap a = some t) :
    ∃ earliest, q.insert a = .ok (earliest, q.inserted a t) ∧
      (q.inserted a t).Owned (loose.erase a) ∧
      (earliest = true → ∀ e ∈ q.timers_, t.expiration_ < e.when) ∧
      (earliest = false → ∃ e ∈ q.timers_, e.when ≤ t.expiration_) := by
  have hentry := h.entry_not_mem ha t.expiration_
  have hactive := h.activeTimer_not_mem ha t.sequence_
  have hsizes : (q.inserted a t).timers_.size = (q.inserted a t).activeTimers_.size := by
    simp only [inserted, OrderedSet.size_insert hentry, OrderedSet.size_insert hactive, h.sizes]
  have hderef : q.deref a = .ok t := deref_eq_ok.mpr ht
  refine ⟨q.expiresFirst t, ?_, ?_, ?_, ?_⟩
  · unfold TimerQueue.insert
    simp only [check_of h.sizes, ok_bind, hderef, check_of (OrderedSet.insert_of_not_mem hentry),
      check_of (OrderedSet.insert_of_not_mem hactive)]
    exact congrArg (fun x => x >>= _) (check_of hsizes)
  · constructor
    · intro w b hmem
      rcases OrderedSet.mem_insert.mp hmem with heq | hmem
      · obtain ⟨rfl, rfl⟩ := entry_inj.mp heq
        exact ⟨t, ht, rfl, OrderedSet.mem_insert.mpr (Or.inl rfl)⟩
      · obtain ⟨t', ht', hw, hact⟩ := h.keyed w b hmem
        exact ⟨t', ht', hw, OrderedSet.mem_insert.mpr (Or.inr hact)⟩
    · intro b n hmem
      rcases OrderedSet.mem_insert.mp hmem with heq | hmem
      · obtain ⟨rfl, rfl⟩ := activeTimer_inj.mp heq
        exact ⟨t, ht, rfl, OrderedSet.mem_insert.mpr (Or.inl rfl)⟩
      · obtain ⟨t', ht', hn, hin⟩ := h.active b n hmem
        exact ⟨t', ht', hn, OrderedSet.mem_insert.mpr (Or.inr hin)⟩
    · exact hsizes
    · exact h.nodup.erase a
    · intro b hb
      obtain ⟨hne, hb⟩ := h.nodup.mem_erase_iff.mp hb
      obtain ⟨t', ht', hout⟩ := h.alive b hb
      refine ⟨t', ht', ?_⟩
      intro hmem
      rcases OrderedSet.mem_insert.mp hmem with heq | hmem
      · exact hne (entry_inj.mp heq).2
      · exact hout hmem
    · intro b t' hb
      by_cases hba : b = a
      · subst hba
        obtain rfl := Option.some.inj (ht.symm.trans hb)
        exact Or.inl (OrderedSet.mem_insert.mpr (Or.inl rfl))
      · rcases h.noLeak b t' hb with hmem | hmem
        · exact Or.inl (OrderedSet.mem_insert.mpr (Or.inr hmem))
        · exact Or.inr (h.nodup.mem_erase_iff.mpr ⟨hba, hmem⟩)
    · exact h.bounded
  · intro hearliest e he
    obtain ⟨it, hit⟩ := OrderedSet.begin?_isSome_of_mem he
    simp only [expiresFirst, hit, decide_eq_true_eq] at hearliest
    rcases eq_or_lt_of_le (OrderedSet.begin?_le hit he) with heq | hlt
    · rwa [heq] at hearliest
    · exact lt_of_lt_of_le hearliest (when_le_of_lt hlt)
  · intro hlate
    cases hit : q.timers_.begin? with
    | none => simp [expiresFirst, hit] at hlate
    | some it =>
      simp only [expiresFirst, hit, decide_eq_false_iff_not, not_lt] at hlate
      exact ⟨it, OrderedSet.mem_of_begin? hit, hlate⟩

/-- The queue after `cancelInLoop` has found the timer. -/
def cancelled (q : TimerQueue) (i : ActiveTimer) (t : Timer) : TimerQueue :=
  { q.store i.timer none with
    timers_ := (q.timers_.erase (entry t.expiration_ i.timer)).1
    activeTimers_ := (q.activeTimers_.erase i).1 }

theorem Owned.cancelActive (h : q.Owned loose) {i : ActiveTimer} (hi : i ∈ q.activeTimers_) :
    ∃ t, q.heap i.timer = some t ∧ t.sequence_ = i.sequence ∧
      q.cancelActive i = .ok (q.cancelled i t) ∧ (q.cancelled i t).Owned loose := by
  obtain ⟨t, ht, hseq, hin⟩ := h.active i.timer i.sequence hi
  have hloose : i.timer ∉ loose := fun hmem => h.entry_not_mem hmem _ hin
  refine ⟨t, ht, hseq, ?_, ?_⟩
  · have hderef : q.deref i.timer = .ok t := deref_eq_ok.mpr ht
    simp only [TimerQueue.cancelActive, hderef, ok_bind,
      check_of (OrderedSet.erase_of_mem hin), TimerQueue.delete, ht,
      check_of (show some t ≠ none by simp)]
    rfl
  · have hkept : ∀ b t', q.heap b = some t' → b ≠ i.timer →
        (q.cancelled i t).heap b = some t' := by
      intro b t' hb hne
      simpa [cancelled, TimerQueue.store, hne] using hb
    have hback : ∀ b t', (q.cancelled i t).heap b = some t' → b ≠ i.timer ∧ q.heap b = some t' := by
      intro b t' hb
      by_cases hbi : b = i.timer
      · subst hbi
        simp [cancelled, TimerQueue.store] at hb
      · exact ⟨hbi, by simpa [cancelled, TimerQueue.store, hbi] using hb⟩
    constructor
    · intro w b hmem
      obtain ⟨hne, hmem⟩ := OrderedSet.mem_erase.mp hmem
      obtain ⟨t', ht', rfl, hact⟩ := h.keyed w b hmem
      have hbi : b ≠ i.timer := by
        intro heq
        rw [heq, ht] at ht'
        obtain rfl := Option.some.inj ht'
        exact hne (by rw [heq])
      refine ⟨t', hkept b t' ht' hbi, rfl, OrderedSet.mem_erase.mpr ⟨?_, hact⟩⟩
      intro heq
      exact hbi (activeTimer_inj.mp (heq.trans (activeTimer_eta i).symm)).1
    · intro b n hmem
      obtain ⟨hne, hmem⟩ := OrderedSet.mem_erase.mp hmem
      obtain ⟨t', ht', rfl, hin'⟩ := h.active b n hmem
      have hbi : b ≠ i.timer := by
        intro heq
        rw [heq, ht] at ht'
        obtain rfl := Option.some.inj ht'
        apply hne
        rw [heq, hseq]
        rfl
      refine ⟨t', hkept b t' ht' hbi, rfl, OrderedSet.mem_erase.mpr ⟨?_, hin'⟩⟩
      intro heq
      exact hbi (entry_inj.mp heq).2
    · have h₁ := OrderedSet.size_erase hin
      have h₂ := OrderedSet.size_erase hi
      have hsizes := h.sizes
      simp only [cancelled]
      omega
    · exact h.nodup
    · intro b hb
      have hbi : b ≠ i.timer := fun heq => hloose (heq ▸ hb)
      obtain ⟨t', ht', hout⟩ := h.alive b hb
      exact ⟨t', hkept b t' ht' hbi, fun hmem => hout (OrderedSet.mem_erase.mp hmem).2⟩
    · intro b t' hb
      obtain ⟨hbi, hb'⟩ := hback b t' hb
      refine (h.noLeak b t' hb').imp_left fun hmem => OrderedSet.mem_erase.mpr ⟨?_, hmem⟩
      exact fun heq => hbi (entry_inj.mp heq).2
    · intro b t' hb
      exact h.bounded b t' (hback b t' hb).2

/-- The loop over `activeTimers_` takes out just the timers of the list. -/
theorem eraseActive_spec {expired : List Entry} (hnodup : (expired.map Entry.timer).Nodup)
    (hin : ∀ e ∈ expired, ∃ t, q.heap e.timer = some t ∧
      activeTimer e.timer t.sequence_ ∈ q.activeTimers_)
    (hfun : ∀ a n n', activeTimer a n ∈ q.activeTimers_ → activeTimer a n' ∈ q.activeTimers_ →
      n = n') :
    ∃ A, q.eraseActive expired = .ok { q with activeTimers_ := A } ∧
      (∀ i, i ∈ A ↔ i ∈ q.activeTimers_ ∧ i.timer ∉ expired.map Entry.timer) ∧
      A.size + expired.length = q.activeTimers_.size := by
  induction expired generalizing q with
  | nil => exact ⟨q.activeTimers_, rfl, by simp, rfl⟩
  | cons it expired ih =>
    obtain ⟨t, ht, hact⟩ := hin it List.mem_cons_self
    rw [List.map_cons, List.nodup_cons] at hnodup
    have herase : ∀ i, i ∈ (q.activeTimers_.erase (activeTimer it.timer t.sequence_)).1 ↔
        i ∈ q.activeTimers_ ∧ i.timer ≠ it.timer := by
      intro i
      rw [OrderedSet.mem_erase]
      constructor
      · intro hi
        refine ⟨hi.2, fun heq => hi.1 ?_⟩
        have hmem : activeTimer it.timer i.sequence ∈ q.activeTimers_ := by
          rw [← heq]
          exact hi.2
        rw [hfun _ _ _ hact hmem, ← heq]
        rfl
      · intro hi
        exact ⟨fun heq => hi.2 (by rw [heq]; rfl), hi.1⟩
    obtain ⟨A, hok, hmem, hsize⟩ := ih
      (q := { q with activeTimers_ := (q.activeTimers_.erase (activeTimer it.timer t.sequence_)).1 })
      hnodup.2
      (by
        intro e he
        obtain ⟨t', ht', hact'⟩ := hin e (List.mem_cons_of_mem _ he)
        refine ⟨t', ht', (herase _).mpr ⟨hact', ?_⟩⟩
        intro heq
        exact hnodup.1 (heq ▸ List.mem_map_of_mem he))
      (by
        intro a n n' h₁ h₂
        exact hfun a n n' ((herase _).mp h₁).1 ((herase _).mp h₂).1)
    refine ⟨A, ?_, ?_, ?_⟩
    · have hderef : q.deref it.timer = .ok t := deref_eq_ok.mpr ht
      simp only [TimerQueue.eraseActive, hderef, ok_bind, check_of (OrderedSet.erase_of_mem hact)]
      exact hok
    · intro i
      rw [hmem, herase, List.map_cons, List.mem_cons, not_or, and_assoc]
    · have hdrop := OrderedSet.size_erase hact
      simp only [List.length_cons]
      simp only at hsize
      omega

/-- The ownership does not depend on the timerfd or on the cancellations. -/
theorem Owned.congr (h : q.Owned loose) {q' : TimerQueue} (ht : q'.timers_ = q.timers_)
    (ha : q'.activeTimers_ = q.activeTimers_) (hh : q'.heap = q.heap) : q'.Owned loose := by
  constructor
  · rw [ht, ha, hh]
    exact h.keyed
  · rw [ht, ha, hh]
    exact h.active
  · rw [ht, ha]
    exact h.sizes
  · exact h.nodup
  · rw [ht, hh]
    exact h.alive
  · rw [ht, hh]
    exact h.noLeak
  · rw [hh]
    exact h.bounded

theorem Owned.timer_lt (h : q.Owned loose) {e : Entry} (he : e ∈ q.timers_) :
    e.timer < UINTPTR_MAX := by
  obtain ⟨t, ht, -⟩ := h.keyed e.when e.timer he
  exact h.bounded _ t ht

theorem Owned.eq_of_timer_eq (h : q.Owned loose) {e f : Entry} (he : e ∈ q.timers_)
    (hf : f ∈ q.timers_) (heq : e.timer = f.timer) : e = f := by
  obtain ⟨t, ht, hw, -⟩ := h.keyed e.when e.timer he
  obtain ⟨t', ht', hw', -⟩ := h.keyed f.when f.timer hf
  rw [heq, ht'] at ht
  obtain rfl := Option.some.inj ht
  rw [← entry_eta e, ← entry_eta f, entry_inj]
  exact ⟨hw.symm.trans hw', heq⟩

end TimerQueue

end MuduoServer
