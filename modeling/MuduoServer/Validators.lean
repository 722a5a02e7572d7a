import MuduoServer.ByteText
import MuduoServer.Digits
import MuduoServer.EditedText
import MuduoServer.Segments

/-!
The validators of `BankClient/UI`, and the formats of the texts that they are for. Those
of names, passwords, account ids and dates bound the length and the characters, which every
edit keeps. An amount of money keeps its format only where the point stays between its digits,
and an id number only where an `x` stays behind its 17 digits.
-/
namespace MuduoServer.Validators

open Digits EditedText Segments

abbrev VALIDATOR := List UInt8 → UInt8 → Bool

/-- The characters as in the C locale. -/
def isdigit (ch : UInt8) : Bool := decide (IsDigit ch)
def isalpha (ch : UInt8) : Bool :=
  decide (65 ≤ ch.toNat ∧ ch.toNat ≤ 90 ∨ 97 ≤ ch.toNat ∧ ch.toNat ≤ 122)
def isalnum (ch : UInt8) : Bool := isalpha ch || isdigit ch

def dot : UInt8 := byte '.'

def isX (ch : UInt8) : Bool := ch == byte 'x' || ch == byte 'X'

def validateName : VALIDATOR := fun str ch => str.length < 10 && isalnum ch

def validatePass : VALIDATOR := fun str _ => str.length < 8

def validateId : VALIDATOR := fun str ch =>
  if 18 ≤ str.length then false
  else if !isdigit ch && !isX ch then false
  else if isX ch && str.length != 17 then false
  else true

def validateAccountId : VALIDATOR := fun str ch => str.length < 6 && isdigit ch

def validateMoney : VALIDATOR := fun str ch =>
  if 11 ≤ str.length || !isdigit ch && ch != dot then false
  else
    match str.idxOf? dot with
    | some dotPos =>
      if ch = dot then false
      else if dotPos + 2 ≤ str.length - 1 then false
      else true
    | none =>
      if ch ≠ dot ∧ 8 ≤ str.length then false
      else true

def validateDate : VALIDATOR := fun str ch => str.length < 10 && (isdigit ch || ch == minus)

def AllDigits (text : List UInt8) : Prop := ∀ ch ∈ text, isdigit ch

/-- `decimal(10,2)` as far as it is typed: at most 8 digits, a point and at most 2 more. -/
def MoneyText (text : List UInt8) : Prop :=
  (AllDigits text ∧ text.length ≤ 8) ∨
  ∃ whole cents, text = whole ++ dot :: cents ∧ AllDigits whole ∧ AllDigits cents ∧
    whole.length ≤ 8 ∧ cents.length ≤ 2

/-- At most 18 characters, digits but for the last of 18, which may be an `x`. -/
def IdText (text : List UInt8) : Prop :=
  (AllDigits text ∧ text.length ≤ 18) ∨
  ∃ front x, text = front ++ [x] ∧ AllDigits front ∧ front.length = 17 ∧ isX x

section Lemmas

variable {text front back whole cents : List UInt8} {ch : UInt8}

@[simp] theorem allDigits_append :
    AllDigits (front ++ back) ↔ AllDigits front ∧ AllDigits back := List.forall_mem_append

@[simp] theorem allDigits_cons : AllDigits (ch :: back) ↔ isdigit ch ∧ AllDigits back :=
  List.forall_mem_cons

theorem ne_dot_of_isdigit (h : isdigit ch) : ch ≠ dot := by
  rintro rfl
  exact absurd h (by decide)

theorem not_isX_of_isdigit (h : isdigit ch) : isX ch = false := by
  by_contra hx
  simp only [isX, Bool.not_eq_false, Bool.or_eq_true, beq_iff_eq] at hx
  rcases hx with rfl | rfl <;> exact absurd h (by decide)

theorem AllDigits.dot_notMem (h : AllDigits text) : dot ∉ text :=
  fun hmem => ne_dot_of_isdigit (h _ hmem) rfl

theorem moneyText_digits (h : dot ∉ text) :
    MoneyText text ↔ AllDigits text ∧ text.length ≤ 8 := by
  constructor
  · rintro (hdigits | ⟨whole, cents, rfl, -⟩)
    · exact hdigits
    · exact absurd (by simp) h
  · exact Or.inl

theorem moneyText_point (h : dot ∉ whole) :
    MoneyText (whole ++ dot :: cents) ↔
      AllDigits whole ∧ AllDigits cents ∧ whole.length ≤ 8 ∧ cents.length ≤ 2 := by
  constructor
  · rintro (⟨hdigits, -⟩ | ⟨whole', cents', heq, hwhole, hcents, hlen⟩)
    · exact absurd (by simp) hdigits.dot_notMem
    · have hfind := congrArg (List.idxOf? dot) heq
      rw [idxOf?_split h, idxOf?_split hwhole.dot_notMem, Option.some_inj] at hfind
      obtain ⟨rfl, htail⟩ := List.append_inj heq hfind
      obtain rfl := (List.cons.inj htail).2
      exact ⟨hwhole, hcents, hlen⟩
  · rintro ⟨hwhole, hcents, hlen⟩
    exact Or.inr ⟨whole, cents, rfl, hwhole, hcents, hlen⟩

theorem MoneyText.char (h : MoneyText text) (hch : ch ∈ text) : ch = dot ∨ isdigit ch := by
  rcases h with ⟨hdigits, -⟩ | ⟨whole, cents, rfl, hwhole, hcents, -⟩
  · exact Or.inr (hdigits ch hch)
  · rcases List.mem_append.mp hch with hch | hch
    · exact Or.inr (hwhole ch hch)
    · exact (List.mem_cons.mp hch).imp_right (hcents ch)

theorem validateMoney_digits (h : dot ∉ text) (hch : validateMoney text ch) :
    ch = dot ∨ isdigit ch ∧ text.length < 8 := by
  rw [validateMoney, List.idxOf?_eq_none_iff.mpr h] at hch
  by_cases hdot : ch = dot
  · exact Or.inl hdot
  · refine Or.inr ⟨?_, ?_⟩
    · by_contra hdigit
      simp [hdigit, hdot] at hch
    · by_contra hlen
      simp [hdot, Nat.le_of_not_lt hlen] at hch

theorem validateMoney_point (h : dot ∉ whole) (hch : validateMoney (whole ++ dot :: cents) ch) :
    isdigit ch ∧ cents.length < 2 := by
  rw [validateMoney, idxOf?_split h] at hch
  have hdot : ch ≠ dot := by
    rintro rfl
    simp at hch
  have hall : (whole.length + (cents.length + 1) < 11 ∧ isdigit ch) ∧ cents.length ≤ 1 := by
    simpa [hdot] using hch
  exact ⟨hall.1.2, by omega⟩

/-- A cut of a text with a point is in front of the point or behind it. -/
theorem cut_cases (h : front ++ back = whole ++ dot :: cents) :
    (∃ rest, whole = front ++ rest ∧ back = rest ++ dot :: cents) ∨
      ∃ first, front = whole ++ dot :: first ∧ cents = first ++ back := by
  rcases List.append_eq_append_iff.mp h with ⟨rest, hwhole, hback⟩ | ⟨rest, hfront, hcents⟩
  · exact Or.inl ⟨rest, hwhole, hback⟩
  · cases rest with
    | nil =>
      rw [List.append_nil] at hfront
      exact Or.inl ⟨[], by rw [hfront, List.append_nil], hcents.symm⟩
    | cons d first =>
      obtain ⟨rfl, hrest⟩ := List.cons.inj hcents
      exact Or.inr ⟨first, hfront, hrest⟩

/-- A new point may have at most two digits behind it, and a digit in front of a point is at most
the eighth. -/
def MoneyInsert (text : List UInt8) (i : ℕ) (ch : UInt8) : Prop :=
  (ch = dot → text.length ≤ i + 2) ∧
  (ch ≠ dot → ∀ dotPos ∈ text.idxOf? dot, i ≤ dotPos → dotPos < 8)

/-- A point that goes leaves at most eight digits. -/
def MoneyErase (text : List UInt8) (i : ℕ) : Prop := text[i]? = some dot → text.length ≤ 9

/-- Into digits alone a point or one more digit is inserted. -/
theorem moneyText_insert_digits (hdigits : AllDigits (front ++ back))
    (hlen : (front ++ back).length ≤ 8) (hch : validateMoney (front ++ back) ch) :
    MoneyText (front ++ ch :: back) ↔ MoneyInsert (front ++ back) front.length ch := by
  rw [MoneyInsert, List.idxOf?_eq_none_iff.mpr hdigits.dot_notMem]
  rw [List.length_append] at hlen
  rcases validateMoney_digits hdigits.dot_notMem hch with rfl | ⟨hdigit, hroom⟩
  · rw [allDigits_append] at hdigits
    rw [moneyText_point hdigits.1.dot_notMem, List.length_append]
    simp only [hdigits, true_and, forall_const, ne_eq, not_true_eq_false, false_imp_iff, and_true]
    omega
  · rw [List.length_append] at hroom
    rw [allDigits_append] at hdigits
    have hall : AllDigits (front ++ ch :: back) := by simp [hdigits, hdigit]
    rw [moneyText_digits hall.dot_notMem, List.length_append, List.length_cons]
    simp [hall, ne_dot_of_isdigit hdigit]
    omega

/-- Next to a point a digit is inserted, in front of it or behind it. -/
theorem moneyText_insert_point (heq : front ++ back = whole ++ dot :: cents)
    (hwhole : AllDigits whole) (hcents : AllDigits cents) (hlong : whole.length ≤ 8)
    (hshort : cents.length ≤ 2) (hch : validateMoney (front ++ back) ch) :
    MoneyText (front ++ ch :: back) ↔ MoneyInsert (front ++ back) front.length ch := by
  rw [heq] at hch
  obtain ⟨hdigit, hroom⟩ := validateMoney_point hwhole.dot_notMem hch
  rw [MoneyInsert, heq, idxOf?_split hwhole.dot_notMem]
  simp only [ne_dot_of_isdigit hdigit, false_imp_iff, true_and, ne_eq, not_false_eq_true,
    forall_const, Option.mem_def, Option.some.injEq, forall_eq']
  rcases cut_cases heq with ⟨rest, rfl, rfl⟩ | ⟨first, rfl, rfl⟩
  · rw [allDigits_append] at hwhole
    have hall : AllDigits (front ++ ch :: rest) := by simp [hwhole, hdigit]
    rw [← List.cons_append, ← List.append_assoc, moneyText_point hall.dot_notMem]
    simp only [List.length_append, List.length_cons] at hlong ⊢
    simp only [hall, hcents, hshort, true_and, and_true]
    omega
  · rw [allDigits_append] at hcents
    rw [List.append_assoc, List.cons_append, moneyText_point hwhole.dot_notMem]
    simp only [List.length_append, List.length_cons] at hroom ⊢
    simp only [allDigits_append, allDigits_cons, hwhole, hcents, hdigit, hlong, true_and]
    omega

theorem moneyText_insert_iff (h : MoneyText (front ++ back))
    (hch : validateMoney (front ++ back) ch) :
    MoneyText (front ++ ch :: back) ↔ MoneyInsert (front ++ back) front.length ch := by
  rcases h with ⟨hdigits, hlen⟩ | ⟨whole, cents, heq, hwhole, hcents, hlong, hshort⟩
  · exact moneyText_insert_digits hdigits hlen hch
  · exact moneyText_insert_point heq hwhole hcents hlong hshort hch

/-- Behind the text every character may come, and the last one may go. -/
theorem moneyInsert_end (text : List UInt8) (ch : UInt8) : MoneyInsert text text.length ch := by
  refine ⟨fun _ => Nat.le_add_right .., fun _ dotPos hmem hle => ?_⟩
  obtain ⟨hlt, -⟩ := List.idxOf?_eq_some_iff.mp hmem
  exact absurd hle (Nat.not_le_of_lt hlt)

theorem moneyErase_end (h : MoneyText (front ++ [ch])) :
    MoneyErase (front ++ [ch]) front.length := by
  intro hdot
  have hat : (front ++ [ch])[front.length]? = some ch := by simp
  obtain rfl := Option.some_inj.mp (hat.symm.trans hdot)
  rcases h with ⟨hdigits, hlen⟩ | ⟨whole, cents, heq, hwhole, hcents, hlong, -⟩
  · omega
  · rcases cut_cases heq with ⟨rest, rfl, hrest⟩ | ⟨first, rfl, rfl⟩
    · rw [List.length_append, List.length_singleton]
      simp only [List.length_append] at hlong
      omega
    · exact absurd (by simp) hcents.dot_notMem

/-- A digit that goes leaves an amount, on whichever side of the point it was. -/
theorem moneyText_erase_digit (h : MoneyText (front ++ ch :: back)) (hdigit : isdigit ch) :
    MoneyText (front ++ back) := by
  rcases h with ⟨hdigits, hlen⟩ | ⟨whole, cents, heq, hwhole, hcents, hlong, hshort⟩
  · simp only [allDigits_append, allDigits_cons] at hdigits
    simp only [List.length_append, List.length_cons] at hlen
    refine Or.inl ⟨by simp [hdigits], ?_⟩
    rw [List.length_append]
    omega
  · rcases cut_cases heq with ⟨rest, rfl, hrest⟩ | ⟨first, rfl, rfl⟩
    · rw [allDigits_append] at hwhole
      cases rest with
      | nil => exact absurd (List.cons.inj hrest).1 (ne_dot_of_isdigit hdigit)
      | cons d rest =>
        rw [List.cons_append] at hrest
        obtain ⟨rfl, rfl⟩ := List.cons.inj hrest
        rw [allDigits_cons] at hwhole
        simp only [List.length_append, List.length_cons] at hlong
        refine Or.inr ⟨front ++ rest, cents, (List.append_assoc ..).symm, by simp [hwhole], hcents,
          ?_, hshort⟩
        rw [List.length_append]
        omega
    · simp only [allDigits_append, allDigits_cons] at hcents
      simp only [List.length_append, List.length_cons] at hshort
      refine Or.inr ⟨whole, first ++ back, List.append_assoc .., hwhole, by simp [hcents], hlong, ?_⟩
      rw [List.length_append]
      omega

/-- A point that goes leaves the digits of both its sides. -/
theorem moneyText_erase_point (h : MoneyText (front ++ dot :: back)) :
    MoneyText (front ++ back) ↔ (front ++ dot :: back).length ≤ 9 := by
  have hsides : AllDigits (front ++ back) := by
    rcases h with ⟨hdigits, -⟩ | ⟨whole, cents, heq, hwhole, hcents, -⟩
    · exact absurd (by simp) hdigits.dot_notMem
    · rcases cut_cases heq with ⟨rest, rfl, hrest⟩ | ⟨first, rfl, rfl⟩
      · rw [allDigits_append] at hwhole
        cases rest with
        | nil =>
          obtain rfl := (List.cons.inj hrest).2
          simp [hwhole, hcents]
        | cons d rest =>
          obtain rfl := (List.cons.inj hrest).1
          exact absurd List.mem_cons_self hwhole.2.dot_notMem
      · exact absurd (by simp) hcents.dot_notMem
  rw [moneyText_digits hsides.dot_notMem]
  simp only [hsides, List.length_append, List.length_cons, true_and]
  omega

theorem moneyText_erase_iff (h : MoneyText (front ++ ch :: back)) :
    MoneyText (front ++ back) ↔ MoneyErase (front ++ ch :: back) front.length := by
  have hat : (front ++ ch :: back)[front.length]? = some ch := by simp
  rw [MoneyErase, hat, Option.some_inj]
  rcases h.char (List.mem_append_right front List.mem_cons_self) with rfl | hdigit
  · rw [moneyText_erase_point h]
    simp
  · exact iff_of_true (moneyText_erase_digit h hdigit) fun heq =>
      absurd heq (ne_dot_of_isdigit hdigit)

theorem validateId_cases (hch : validateId text ch) :
    text.length < 18 ∧ (isdigit ch ∨ isX ch ∧ text.length = 17) := by
  rw [validateId] at hch
  have hlen : text.length < 18 := by
    by_contra hfull
    simp [Nat.le_of_not_lt hfull] at hch
  refine ⟨hlen, ?_⟩
  by_cases hdigit : isdigit ch
  · exact Or.inl hdigit
  · right
    have hx : isX ch ∧ (isX ch = false ∨ text.length = 17) := by
      simpa [Nat.not_le_of_lt hlen, hdigit] using hch
    exact ⟨hx.1, hx.2.resolve_left (by simp [hx.1])⟩

theorem idText_snoc : IdText (front ++ [ch]) ↔
    AllDigits front ∧ (isdigit ch ∧ front.length ≤ 17 ∨ isX ch ∧ front.length = 17) := by
  constructor
  · rintro (⟨hdigits, hlen⟩ | ⟨front', x, heq, hfront, hlen, hx⟩)
    · simp only [allDigits_append, allDigits_cons] at hdigits
      rw [List.length_append, List.length_singleton] at hlen
      exact ⟨hdigits.1, Or.inl ⟨hdigits.2.1, by omega⟩⟩
    · obtain ⟨rfl, hlast⟩ := List.append_inj' heq rfl
      obtain rfl := (List.cons.inj hlast).1
      exact ⟨hfront, Or.inr ⟨hx, hlen⟩⟩
  · rintro ⟨hfront, ⟨hdigit, hlen⟩ | ⟨hx, hlen⟩⟩
    · left
      simp only [allDigits_append, allDigits_cons, List.length_append, List.length_singleton]
      exact ⟨⟨hfront, hdigit, by simp [AllDigits]⟩, by omega⟩
    · exact Or.inr ⟨front, ch, rfl, hfront, hlen, hx⟩

/-- An `x` comes behind everything else. -/
def IdInsert (text : List UInt8) (i : ℕ) (ch : UInt8) : Prop := isX ch → i = text.length

/-- An `x` goes before any other character does. -/
def IdErase (text : List UInt8) (i : ℕ) : Prop :=
  ∀ x ∈ text.getLast?, isX x → i + 1 = text.length

theorem idText_insert_iff (h : IdText (front ++ back)) (hch : validateId (front ++ back) ch) :
    IdText (front ++ ch :: back) ↔ IdInsert (front ++ back) front.length ch := by
  obtain ⟨hlen, hkind⟩ := validateId_cases hch
  rcases h with ⟨hdigits, -⟩ | ⟨front', x, heq, -, hfull, -⟩
  · rw [allDigits_append] at hdigits
    rw [List.length_append] at hlen
    rw [IdInsert, List.length_append]
    rcases hkind with hdigit | ⟨hx, hlast⟩
    · simp only [not_isX_of_isdigit hdigit, Bool.false_eq_true, false_imp_iff, iff_true]
      refine Or.inl ⟨by simp [hdigits, hdigit], ?_⟩
      rw [List.length_append, List.length_cons]
      omega
    · rw [List.length_append] at hlast
      simp only [hx, forall_const]
      rcases List.eq_nil_or_concat' back with rfl | ⟨between, y, rfl⟩
      · rw [idText_snoc]
        simp only [hdigits, hx, true_and, List.length_nil, Nat.add_zero] at hlast ⊢
        simp [hlast]
      · rw [← List.cons_append, ← List.append_assoc, idText_snoc, allDigits_append, allDigits_cons]
        have hdigit : ¬ isdigit ch := fun hdigit => by simp [not_isX_of_isdigit hdigit] at hx
        simp [hdigit]
  · rw [heq, List.length_append, List.length_singleton] at hlen
    omega

theorem idInsert_end (text : List UInt8) (ch : UInt8) : IdInsert text text.length ch := fun _ => rfl

theorem idErase_end : IdErase (front ++ [ch]) front.length := by
  intro x _ _
  rw [List.length_append, List.length_singleton]

theorem idText_erase_iff (h : IdText (front ++ ch :: back)) :
    IdText (front ++ back) ↔ IdErase (front ++ ch :: back) front.length := by
  rw [IdErase]
  rcases h with ⟨hdigits, hlen⟩ | ⟨front', x, heq, hfront, hlen, hx⟩
  · have hlast : ∀ x ∈ (front ++ ch :: back).getLast?, isX x = false :=
      fun x hmem => not_isX_of_isdigit (hdigits x (List.mem_of_getLast? hmem))
    rw [allDigits_append, allDigits_cons] at hdigits
    rw [List.length_append, List.length_cons] at hlen
    refine iff_of_true (Or.inl ⟨by simp [hdigits], ?_⟩) fun x hmem hx => ?_
    · rw [List.length_append]
      omega
    · simp [hlast x hmem] at hx
  · rw [heq, List.getLast?_append_cons, List.getLast?_singleton]
    simp only [Option.mem_def, Option.some.injEq, forall_eq', hx, forall_const,
      List.length_append, List.length_singleton]
    rcases List.eq_nil_or_concat' back with rfl | ⟨between, y, rfl⟩
    · obtain ⟨rfl, -⟩ := List.append_inj' heq rfl
      refine iff_of_true (Or.inl ⟨by simpa using hfront, ?_⟩) rfl
      rw [List.append_nil]
      omega
    · rw [← List.cons_append, ← List.append_assoc] at heq
      obtain ⟨rfl, hlast⟩ := List.append_inj' heq rfl
      obtain rfl := (List.cons.inj hlast).1
      have hdigit : ¬ isdigit y := fun hdigit => by simp [not_isX_of_isdigit hdigit] at hx
      rw [← List.append_assoc, idText_snoc]
      simp only [List.length_append, List.length_cons] at hlen ⊢
      simp only [hdigit, Bool.false_eq_true, false_and, false_or, hx, true_and]
      omega

end Lemmas

/-- The format of each validator; what a window checks on its own has the format of no check. -/
def nameFormat : Format UInt8 := .bounded isalnum 10
def passFormat : Format UInt8 := .bounded (fun _ => true) 8
def accountIdFormat : Format UInt8 := .bounded isdigit 6
def dateFormat : Format UInt8 := .bounded (fun ch => isdigit ch || ch == minus) 10

def moneyFormat : Format UInt8 where
  Text := MoneyText
  admits := validateMoney
  insertOk := MoneyInsert
  eraseOk := MoneyErase
  insert_iff := moneyText_insert_iff
  erase_iff := moneyText_erase_iff

def idFormat : Format UInt8 where
  Text := IdText
  admits := validateId
  insertOk := IdInsert
  eraseOk := IdErase
  insert_iff := idText_insert_iff
  erase_iff := idText_erase_iff

end MuduoServer.Validators
