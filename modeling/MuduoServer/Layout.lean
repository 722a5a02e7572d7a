import MuduoServer.WireFormat

/-!
Texts that are put together from slots, one behind the other. A slot has a place
and a length, and may hold a field; a slot without a field is a gap. Filling a slot
changes just its own part of the text. A reader that goes through the slots, and
passes over some of them as long as something follows, finds the fields.
-/
namespace MuduoServer.Layout

open WireFormat

universe u v

variable {φ : Type u} {β : Type*}

structure Slot (φ : Type u) where
  pos : ℕ
  len : ℕ
  value : Option φ

/-- The number of elements that slots take. -/
def total : List (Slot φ) → ℕ
  | [] => 0
  | slot :: slots => slot.len + total slots

variable (text : φ → List β)

/-- The slots lie in `q`, which begins at the place `i`. -/
inductive Laid : ℕ → List (Slot φ) → List β → Prop
  | nil (i : ℕ) : Laid i [] []
  | cons {slot : Slot φ} {slots : List (Slot φ)} {part rest : List β}
      (len : part.length = slot.len) (value : ∀ f ∈ slot.value, text f = part)
      (laid : Laid (slot.pos + slot.len) slots rest) :
      Laid slot.pos (slot :: slots) (part ++ rest)

variable {text} {i : ℕ} {slots slots' : List (Slot φ)} {slot : Slot φ} {q q' part : List β}

theorem Laid.length (h : Laid text i slots q) : q.length = total slots := by
  induction h with
  | nil i => rfl
  | cons len value laid ih =>
    rw [List.length_append, ih, len]
    rfl

theorem Laid.append (h : Laid text i slots q) (h' : Laid text (i + q.length) slots' q') :
    Laid text i (slots ++ slots') (q ++ q') := by
  induction h with
  | nil i => exact h'
  | cons len value laid ih =>
    rw [List.append_assoc]
    refine .cons len value (ih ?_)
    rwa [List.length_append, len, ← Nat.add_assoc] at h'

theorem laid_singleton (hlen : part.length = slot.len) (hvalue : ∀ f ∈ slot.value, text f = part) :
    Laid text slot.pos [slot] part := by
  have h : Laid text slot.pos [slot] (part ++ []) :=
    .cons hlen hvalue (.nil (slot.pos + slot.len))
  rwa [List.append_nil] at h

/-- Slots behind others begin where these end. -/
theorem Laid.of_append (h : Laid text i (slots ++ slots') q) :
    ∃ front back, q = front ++ back ∧ Laid text i slots front ∧
      Laid text (i + total slots) slots' back := by
  induction slots generalizing i q with
  | nil => exact ⟨[], q, rfl, .nil i, h⟩
  | cons slot slots ih =>
    cases h with
    | cons len value laid =>
      obtain ⟨front, back, rfl, hfront, hback⟩ := ih laid
      refine ⟨_ ++ front, back, (List.append_assoc _ _ _).symm, .cons len value hfront, ?_⟩
      rwa [Nat.add_assoc] at hback

/-- The part of the text that the `n`-th slot takes, and what filling it does. -/
theorem Laid.fill {n : ℕ} (h : Laid text i slots q) (hslot : slots[n]? = some slot) :
    ∃ front gap rest, q = front ++ gap ++ rest ∧ i + front.length = slot.pos ∧
      gap.length = slot.len ∧ ∀ f, (text f).length = slot.len →
        Laid text i (slots.set n { slot with value := some f }) (front ++ text f ++ rest) := by
  induction h generalizing n with
  | nil i => simp at hslot
  | @cons first slots part rest len value laid ih =>
    cases n with
    | zero =>
      obtain rfl := Option.some.inj hslot
      refine ⟨[], part, rest, rfl, rfl, len, ?_⟩
      intro f hf
      have hfilled : ∀ f' ∈ some f, text f' = text f := by
        intro f' hf'
        rw [Option.mem_some.mp hf']
      let slot : Slot φ := { first with value := some f }
      have hslots : Laid text slot.pos (slot :: slots) (text f ++ rest) := .cons hf hfilled laid
      exact hslots
    | succ n =>
      obtain ⟨front, gap, behind, rfl, hpos, hgap, hfill⟩ := ih hslot
      refine ⟨part ++ front, gap, behind, by simp only [List.append_assoc], ?_, hgap, ?_⟩
      · rw [List.length_append, len, ← Nat.add_assoc]
        exact hpos
      · intro f hf
        have hrest := Laid.cons len value (hfill f hf)
        simp only [List.append_assoc] at hrest ⊢
        exact hrest

section Readers

variable {κ σ : Type u} {ε : Type v}

inductive ReadOp (κ : Type u)
  | read (kind : κ)
  | skip (len : ℕ)

variable (kind : φ → κ)

/-- The reading takes the slots one after the other, and returns the fields `fs`. Slots are
skipped if something comes behind them. -/
inductive Matches : List (Slot φ) → List (ReadOp κ) → List φ → Prop
  | stop (slots : List (Slot φ)) : Matches slots [] []
  | read {slot : Slot φ} {slots : List (Slot φ)} {ops : List (ReadOp κ)} {fs : List φ} {f : φ}
      (value : slot.value = some f) (rest : Matches slots ops fs) :
      Matches (slot :: slots) (.read (kind f) :: ops) (f :: fs)
  | skip {skipped slots : List (Slot φ)} {ops : List (ReadOp κ)} {fs : List φ}
      (behind : 0 < total slots) (rest : Matches slots ops fs) :
      Matches (skipped ++ slots) (.skip (total skipped) :: ops) fs

/-- Slots without a gap are read in the order in which they lie. -/
theorem matches_of_filled {kind : φ → κ} {slots : List (Slot φ)} {fs : List φ}
    (h : slots.map Slot.value = fs.map some) :
    Matches kind slots (fs.map fun f => .read (kind f)) fs := by
  induction fs generalizing slots with
  | nil =>
    rw [List.map_nil, List.map_eq_nil_iff] at h
    rw [h]
    exact .stop []
  | cons f fs ih =>
    cases slots with
    | nil => simp at h
    | cons slot slots =>
      simp only [List.map_cons, List.cons.injEq] at h
      exact .read h.1 (ih h.2)

variable (read : κ → StateT σ (Except ε) φ) (skip : ℕ → StateT σ (Except ε) PUnit)

def readAll : List (ReadOp κ) → StateT σ (Except ε) (List φ)
  | [] => pure []
  | .read kind :: ops => do
      let f ← read kind
      let fs ← readAll ops
      pure (f :: fs)
  | .skip len :: ops => do
      skip len
      readAll ops

variable {kind read skip} {left : σ → List β} {ops : List (ReadOp κ)} {fs : List φ}

/-- Whatever is read of the slots is what has been written to them. -/
theorem Laid.readAll_eq
    (hread : ∀ slot ∈ slots, ∀ f ∈ slot.value, Reads left (read (kind f)) (text f) f)
    (hskip : ∀ s part more, left s = part ++ more → more ≠ [] →
      ∃ s', skip part.length s = .ok (⟨⟩, s') ∧ left s' = more)
    (hmatches : Matches kind slots ops fs) (h : Laid text i slots q) {s : σ} (hs : left s = q) :
    ∃ s', readAll read skip ops s = .ok (fs, s') := by
  induction hmatches generalizing i q s with
  | stop slots => exact ⟨s, rfl⟩
  | @read slot slots ops fs f value rest ih =>
    cases h with
    | cons len hvalue laid =>
      obtain ⟨s₁, hrun, hleft⟩ :=
        hread slot List.mem_cons_self f value s _ (by rw [hs, hvalue f value])
      obtain ⟨s₂, hrun₂⟩ :=
        ih (fun slot hslot => hread slot (List.mem_cons_of_mem _ hslot)) laid hleft
      refine ⟨s₂, ?_⟩
      have hbind : readAll read skip (.read (kind f) :: ops) s = read (kind f) s >>= fun r =>
          readAll read skip ops r.2 >>= fun r' => .ok (r.1 :: r'.1, r'.2) := rfl
      rw [hbind, hrun]
      change (readAll read skip ops s₁ >>= fun r' => .ok (f :: r'.1, r'.2)) = _
      rw [hrun₂]
      rfl
  | @skip skipped slots ops fs behind rest ih =>
    obtain ⟨front, back, rfl, hfront, hback⟩ := h.of_append
    have hmore : back ≠ [] := by
      rw [← List.length_pos_iff, hback.length]
      exact behind
    obtain ⟨s₁, hrun, hleft⟩ := hskip s front back hs hmore
    obtain ⟨s₂, hrun₂⟩ :=
      ih (fun slot hslot => hread slot (List.mem_append_right _ hslot)) hback hleft
    refine ⟨s₂, ?_⟩
    have hbind : readAll read skip (.skip (total skipped) :: ops) s =
        skip (total skipped) s >>= fun r => readAll read skip ops r.2 := rfl
    rw [hbind, ← hfront.length, hrun]
    exact hrun₂

end Readers

end MuduoServer.Layout
