import Mathlib.Data.List.Nodup
import Mathlib.Logic.Function.Basic
import Mathlib.Tactic.Common

/-!
Circular lists whose elements point at their two neighbours. A ring is named by one of its
elements and the list of the others, in the order of the forward pointers. An element that is
taken out keeps its own pointers, so that it can be put back where it was. The rule for a loop
over a ring asks for what one round does to the rest of the list.
-/
namespace MuduoServer.Rings

universe u v

variable {N : Type u} {next next' prev prev' : N → N} {a b h k n x : N} {l l₁ l₂ : List N}

/-- `next` leads from `a` over the elements of the list to `b`. -/
def Path (next : N → N) : N → List N → N → Prop
  | a, [], b => next a = b
  | a, x :: l, b => next a = x ∧ Path next x l b

theorem path_append :
    Path next a (l₁ ++ x :: l₂) b ↔ Path next a l₁ x ∧ Path next x l₂ b := by
  induction l₁ generalizing a with
  | nil => exact Iff.rfl
  | cons y l₁ ih => simp only [List.cons_append, Path, ih, and_assoc]

theorem Path.congr (hp : Path next a l b) (heq : ∀ y ∈ a :: l, next' y = next y) :
    Path next' a l b := by
  induction l generalizing a with
  | nil => exact (heq a List.mem_cons_self).trans hp
  | cons y l ih =>
    have ha := heq a List.mem_cons_self
    exact ⟨ha.trans hp.1, ih hp.2 fun z hz => heq z (List.mem_cons_of_mem a hz)⟩

theorem Path.head (hp : Path next a l b) : next a = l.headD b := by
  cases l with
  | nil => exact hp
  | cons y l => exact hp.1

theorem Path.last (hp : Path next a l b) : next (l.getLastD a) = b := by
  induction l generalizing a with
  | nil => exact hp
  | cons y l ih =>
    rw [List.getLastD_cons]
    exact ih hp.2

theorem getLastD_mem (l : List N) (a : N) : l.getLastD a ∈ a :: l := by
  induction l generalizing a with
  | nil => exact List.mem_cons_self
  | cons y l ih =>
    rw [List.getLastD_cons]
    exact List.mem_cons_of_mem a (ih y)

theorem headD_mem (l : List N) (a : N) : l.headD a ∈ a :: l := by
  cases l with
  | nil => exact List.mem_cons_self
  | cons y l => exact List.mem_cons_of_mem a List.mem_cons_self

theorem headD_reverse (l : List N) (a : N) : l.reverse.headD a = l.getLastD a := by
  rw [List.headD_eq_head?_getD, List.head?_reverse, List.getLastD_eq_getLast?]

section Update

variable [DecidableEq N]

/-- The last element of a path is made to point elsewhere. -/
theorem Path.redirect (hp : Path next a l b) (hnodup : (a :: l).Nodup) (c : N) :
    Path (Function.update next (l.getLastD a) c) a l c := by
  induction l generalizing a with
  | nil => exact Function.update_self ..
  | cons y l ih =>
    rw [List.getLastD_cons]
    have hne : a ≠ l.getLastD y := fun heq =>
      (List.nodup_cons.1 hnodup).1 (heq ▸ getLastD_mem l y)
    exact ⟨(Function.update_of_ne hne ..).trans hp.1, ih hp.2 (List.nodup_cons.1 hnodup).2⟩

/-- A path without one of its elements. -/
theorem Path.unlink (hp : Path next a (l₁ ++ k :: l₂) b) (hnodup : (a :: (l₁ ++ k :: l₂)).Nodup) :
    Path (Function.update next (l₁.getLastD a) (next k)) a (l₁ ++ l₂) b := by
  obtain ⟨hfirst, hsecond⟩ := path_append.1 hp
  have hsplit : ((a :: l₁) ++ k :: l₂).Nodup := hnodup
  have hnodup₁ : (a :: l₁).Nodup := hsplit.of_append_left
  have hrest : ∀ y ∈ l₂, y ≠ l₁.getLastD a := fun y hy heq =>
    (List.disjoint_of_nodup_append hsplit) (getLastD_mem l₁ a) (heq ▸ List.mem_cons_of_mem k hy)
  have hpath := hfirst.redirect hnodup₁ (next k)
  cases l₂ with
  | nil =>
    rw [List.append_nil]
    have hend : next k = b := hsecond
    rw [hend] at hpath ⊢
    exact hpath
  | cons y l₂ =>
    obtain ⟨hy, htail⟩ := hsecond
    rw [path_append]
    refine ⟨hy ▸ hpath, htail.congr fun z hz => Function.update_of_ne (hrest z hz) ..⟩

/-- A path with a new element at its end. -/
theorem Path.insert (hp : Path next a l b) (hnodup : (a :: l).Nodup) (hn : n ∉ a :: l) :
    Path (Function.update (Function.update next n b) (l.getLastD a) n) a (l ++ [n]) b := by
  have hlast : n ≠ l.getLastD a := fun heq => hn (heq ▸ getLastD_mem l a)
  rw [path_append]
  constructor
  · rw [Function.update_comm hlast]
    apply (hp.redirect hnodup n).congr
    intro y hy
    have hne : y ≠ n := fun heq => hn (heq ▸ hy)
    exact Function.update_of_ne hne ..
  · exact (Function.update_of_ne hlast ..).trans (Function.update_self ..)

end Update

/-- A ring of `h` and the elements of the list. -/
structure Ring (next prev : N → N) (h : N) (l : List N) : Prop where
  next : Path next h l h
  prev : Path prev h l.reverse h
  nodup : (h :: l).Nodup

theorem Ring.symm (hr : Ring next prev h l) : Ring prev next h l.reverse := by
  refine ⟨hr.prev, ?_, ?_⟩
  · rw [List.reverse_reverse]
    exact hr.next
  · have hnodup := hr.nodup
    rw [List.nodup_cons] at hnodup ⊢
    exact ⟨fun hmem => hnodup.1 (List.mem_reverse.1 hmem), List.nodup_reverse.2 hnodup.2⟩

theorem Ring.congr (hr : Ring next prev h l) (hnext : ∀ y ∈ h :: l, next' y = next y)
    (hprev : ∀ y ∈ h :: l, prev' y = prev y) : Ring next' prev' h l := by
  refine ⟨hr.next.congr hnext, hr.prev.congr fun y hy => hprev y ?_, hr.nodup⟩
  rw [List.mem_cons, List.mem_reverse] at hy
  exact List.mem_cons.2 hy

/-- The same ring, named by another of its elements. -/
theorem Ring.rotate (hr : Ring next prev h (l₁ ++ n :: l₂)) : Ring next prev n (l₂ ++ h :: l₁) := by
  obtain ⟨hfirst, hsecond⟩ := path_append.1 hr.next
  have hprev := hr.prev
  rw [List.reverse_append, List.reverse_cons, List.append_assoc, List.singleton_append] at hprev
  obtain ⟨hback, hback'⟩ := path_append.1 hprev
  refine ⟨path_append.2 ⟨hsecond, hfirst⟩, ?_, ?_⟩
  · rw [List.reverse_append, List.reverse_cons, List.append_assoc, List.singleton_append]
    exact path_append.2 ⟨hback', hback⟩
  · have hperm : (n :: (l₂ ++ h :: l₁)).Perm (h :: (l₁ ++ n :: l₂)) :=
      (List.perm_append_comm : (n :: l₂ ++ h :: l₁).Perm (h :: l₁ ++ n :: l₂))
    exact hperm.nodup_iff.2 hr.nodup

theorem Ring.next_eq (hr : Ring next prev h (l₁ ++ k :: l₂)) : next k = l₂.headD h :=
  (path_append.1 hr.next).2.head

theorem Ring.prev_eq (hr : Ring next prev h (l₁ ++ k :: l₂)) : prev k = l₁.getLastD h := by
  have hprev := hr.prev
  rw [List.reverse_append, List.reverse_cons, List.append_assoc, List.singleton_append] at hprev
  rw [(path_append.1 hprev).2.head, headD_reverse]

theorem Ring.prev_head (hr : Ring next prev h l) : prev h = l.getLastD h := by
  rw [hr.prev.head, headD_reverse]

theorem Ring.next_mem (hr : Ring next prev h l) (hk : k ∈ l) : next k ∈ h :: l := by
  obtain ⟨l₁, l₂, rfl⟩ := List.append_of_mem hk
  rw [hr.next_eq]
  have hmem := headD_mem l₂ h
  rw [List.mem_cons] at hmem ⊢
  exact hmem.imp_right fun hin => List.mem_append_right l₁ (List.mem_cons_of_mem k hin)

theorem Ring.prev_mem (hr : Ring next prev h l) (hk : k ∈ l) : prev k ∈ h :: l := by
  have hmem := hr.symm.next_mem (List.mem_reverse.2 hk)
  rw [List.mem_cons, List.mem_reverse] at hmem
  exact List.mem_cons.2 hmem

theorem Ring.next_prev (hr : Ring next prev h l) (hk : k ∈ l) : next (prev k) = k := by
  obtain ⟨l₁, l₂, rfl⟩ := List.append_of_mem hk
  rw [hr.prev_eq]
  exact (path_append.1 hr.next).1.last

theorem Ring.prev_next (hr : Ring next prev h l) (hk : k ∈ l) : prev (next k) = k :=
  hr.symm.next_prev (List.mem_reverse.2 hk)

section Update

variable [DecidableEq N]

/-- An element is taken out. -/
theorem Ring.erase (hr : Ring next prev h l) (hk : k ∈ l) :
    Ring (Function.update next (prev k) (next k)) (Function.update prev (next k) (prev k)) h
      (l.erase k) := by
  obtain ⟨l₁, l₂, rfl⟩ := List.append_of_mem hk
  have hnodup := hr.nodup
  have hk₁ : k ∉ l₁ := fun hmem =>
    List.disjoint_of_nodup_append (List.nodup_cons.1 hnodup).2 hmem List.mem_cons_self
  have hsymm := hr.symm
  rw [List.reverse_append, List.reverse_cons, List.append_assoc, List.singleton_append] at hsymm
  rw [List.erase_append_right _ hk₁, List.erase_cons_head]
  refine ⟨?_, ?_, ?_⟩
  · rw [hr.prev_eq]
    exact hr.next.unlink hnodup
  · rw [hsymm.prev_eq, List.reverse_append]
    exact hsymm.next.unlink hsymm.nodup
  · exact List.Nodup.sublist (((List.sublist_cons_self k l₂).append_left l₁).cons_cons h) hnodup

/-- A new element before the one that names the ring. -/
theorem Ring.insert (hr : Ring next prev h l) (hn : n ∉ h :: l) :
    Ring (Function.update (Function.update next n h) (prev h) n)
      (Function.update (Function.update prev n (prev h)) h n) h (l ++ [n]) := by
  have hnh : n ≠ h := fun heq => hn (heq ▸ List.mem_cons_self)
  refine ⟨?_, ?_, ?_⟩
  · rw [hr.prev_head]
    exact hr.next.insert hr.nodup hn
  · have hrest : ∀ y ∈ l, Function.update (Function.update prev n (prev h)) h n y = prev y := by
      intro y hy
      have hyh : y ≠ h := fun heq => (List.nodup_cons.1 hr.nodup).1 (heq ▸ hy)
      have hyn : y ≠ n := fun heq => hn (heq ▸ List.mem_cons_of_mem h hy)
      rw [Function.update_of_ne hyh, Function.update_of_ne hyn]
    have hself : Function.update (Function.update prev n (prev h)) h n n = prev h := by
      rw [Function.update_of_ne hnh, Function.update_self]
    have hpath := hr.prev
    rw [List.reverse_append, List.reverse_singleton, List.singleton_append]
    refine ⟨Function.update_self .., ?_⟩
    cases hl : l.reverse with
    | nil =>
      rw [hl] at hpath
      exact hself.trans hpath
    | cons y m =>
      rw [hl] at hpath
      refine ⟨hself.trans hpath.1, hpath.2.congr fun z hz => hrest z ?_⟩
      rw [← List.mem_reverse, hl]
      exact hz
  · rw [← List.cons_append]
    apply List.nodup_append'.2
    exact ⟨hr.nodup, List.nodup_singleton n, by simpa using hn⟩

theorem update_keeps (f : N → N) (a b : N) : Function.update f a (f b) b = f b := by
  by_cases heq : b = a
  · rw [heq, Function.update_self]
  · rw [Function.update_of_ne heq]

/-- What was taken out is put back. -/
theorem update_erased (hk : next (prev k) = k) :
    Function.update (Function.update next (prev k) (next k)) (prev k) k = next := by
  rw [Function.update_idem]
  exact Function.update_eq_self_iff.2 hk.symm

end Update

section Walk

variable {σ : Type v} [DecidableEq N] {follow back : σ → N → N} {body undo : N → σ → Option σ}

/-- `for (x = start; x != stop; x = x->next)`, where `body` may change the pointers. -/
def walk (follow : σ → N → N) (stop : N) (body : N → σ → Option σ) : ℕ → N → σ → Option σ
  | 0, _, _ => none
  | fuel + 1, x, s =>
      if x = stop then some s
      else do
        let s ← body x s
        walk follow stop body fuel (follow s x) s

/-- What a loop over a ring and the loop that goes back do from the middle of the list on. -/
theorem walk_undo_from {S : List N → σ → Prop}
    (hring : ∀ done s, S done s → Ring (follow s) (back s) h l)
    (hstep : ∀ done x rest s, l = done ++ x :: rest → S done s →
      ∃ s', body x s = some s' ∧ undo x s' = some s ∧ S (done ++ [x]) s')
    {rest done : List N} {s : σ} (hl : l = done ++ rest) (hs : S done s) {fuel : ℕ}
    (hfuel : rest.length < fuel) :
    ∃ s', walk follow h body fuel (rest.headD h) s = some s' ∧ S l s' ∧
      ∀ k, walk back h undo (k + rest.length) (l.getLastD h) s' =
        walk back h undo k (done.getLastD h) s := by
  induction rest generalizing done s fuel with
  | nil =>
    obtain ⟨fuel, rfl⟩ : ∃ m, fuel = m + 1 := ⟨fuel - 1, by omega⟩
    rw [List.append_nil] at hl
    subst hl
    exact ⟨s, if_pos rfl, hs, fun k => rfl⟩
  | cons x rest ih =>
    obtain ⟨fuel, rfl⟩ : ∃ m, fuel = m + 1 := ⟨fuel - 1, by omega⟩
    obtain ⟨s₁, hbody, hundo, hs₁⟩ := hstep done x rest s hl hs
    have hl' : l = (done ++ [x]) ++ rest := by
      rw [hl, List.append_assoc, List.singleton_append]
    have hfuel' : rest.length < fuel := by
      rw [List.length_cons] at hfuel
      omega
    have hne : x ≠ h := by
      intro heq
      have hnodup := (hring done s hs).nodup
      rw [hl, heq] at hnodup
      exact (List.nodup_cons.1 hnodup).1 (List.mem_append_right done List.mem_cons_self)
    obtain ⟨s', hwalk, hs', hback⟩ := ih hl' hs₁ hfuel'
    have hnext : follow s₁ x = rest.headD h := (hl ▸ hring _ s₁ hs₁).next_eq
    have hprev : back s x = done.getLastD h := (hl ▸ hring _ s hs).prev_eq
    refine ⟨s', ?_, hs', fun k => ?_⟩
    · rw [List.headD_cons, walk, if_neg hne, hbody]
      exact (congrArg (fun y => walk follow h body fuel y s₁) hnext).trans hwalk
    · rw [List.length_cons, ← Nat.add_assoc, Nat.add_right_comm, hback (k + 1),
        List.getLastD_concat, walk, if_neg hne, hundo]
      exact congrArg (fun y => walk back h undo k y s) hprev

/-- A loop over a ring each round of which can be undone is undone by the loop that goes over
the ring the other way. `S` is what holds after the elements of a list. -/
theorem walk_undo {S : List N → σ → Prop}
    (hring : ∀ done s, S done s → Ring (follow s) (back s) h l)
    (hstep : ∀ done x rest s, l = done ++ x :: rest → S done s →
      ∃ s', body x s = some s' ∧ undo x s' = some s ∧ S (done ++ [x]) s')
    {s : σ} (hs : S [] s) {fuel : ℕ} (hfuel : l.length < fuel) :
    ∃ s', walk follow h body fuel (follow s h) s = some s' ∧ S l s' ∧
      walk back h undo fuel (back s' h) s' = some s := by
  obtain ⟨s', hwalk, hs', hback⟩ := walk_undo_from hring hstep (List.nil_append l).symm hs hfuel
  obtain ⟨k, rfl⟩ : ∃ k, fuel = k + 1 + l.length := ⟨fuel - 1 - l.length, by omega⟩
  refine ⟨s', ?_, hs', ?_⟩
  · rw [(hring [] s hs).next.head]
    exact hwalk
  · rw [(hring l s' hs').prev_head, hback (k + 1)]
    exact if_pos rfl

end Walk

end MuduoServer.Rings
