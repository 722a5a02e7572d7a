import Mathlib.Data.Nat.Digits.Lemmas

/-!
Numbers as rows of digits, the highest first. A row is canonical when it has no needless
zero in front; every number has such a row, and its length says how large the number can
be. The decimal text of a number is read back as the number.
-/
namespace MuduoServer.Digits

/-- The digits of `n`; zero has one. -/
def digits (b n : ℕ) : List ℕ := if n = 0 then [0] else (Nat.digits b n).reverse

/-- The number that a row of digits stands for. -/
def value (b : ℕ) (ds : List ℕ) : ℕ := ds.foldl (fun n d => b * n + d) 0

/-- A row of digits in base `b` without a needless zero in front. -/
structure Canonical (b : ℕ) (ds : List ℕ) : Prop where
  nonempty : ds ≠ []
  lt : ∀ d ∈ ds, d < b
  head : ds.head? = some 0 → ds = [0]

section Base

variable {b n : ℕ} {ds : List ℕ}

theorem value_snoc (b : ℕ) (ds : List ℕ) (d : ℕ) : value b (ds ++ [d]) = b * value b ds + d := by
  simp [value]

theorem value_replicate_zero (b k : ℕ) (ds : List ℕ) :
    value b (List.replicate k 0 ++ ds) = value b ds := by
  induction k with
  | zero => rfl
  | succ k ih =>
    rw [List.replicate_succ, List.cons_append, value, List.foldl_cons, Nat.mul_zero]
    exact ih

theorem value_eq_ofDigits (b : ℕ) (ds : List ℕ) : value b ds = Nat.ofDigits b ds.reverse := by
  induction ds using List.reverseRecOn with
  | nil => rfl
  | append_singleton ds d ih =>
    rw [value_snoc, ih, List.reverse_append, List.reverse_singleton, List.singleton_append,
      Nat.ofDigits_cons, Nat.add_comm]

theorem value_digits (b n : ℕ) : value b (digits b n) = n := by
  unfold digits
  split
  · rename_i hn
    rw [hn]
    rfl
  · rw [value_eq_ofDigits, List.reverse_reverse, Nat.ofDigits_digits]

/-- The last digit is the remainder. -/
theorem digits_step (hb : 1 < b) (n : ℕ) :
    digits b n = if n < b then [n] else digits b (n / b) ++ [n % b] := by
  split
  · rename_i hlt
    unfold digits
    split
    · rename_i hn
      rw [hn]
    · rename_i hn
      rw [Nat.digits_of_lt b n hn hlt, List.reverse_singleton]
  · rename_i hle
    have hn : n ≠ 0 := by omega
    have hdiv : n / b ≠ 0 := Nat.div_ne_zero_iff.mpr ⟨by omega, by omega⟩
    unfold digits
    rw [if_neg hn, if_neg hdiv, Nat.digits_eq_cons_digits_div hb hn, List.reverse_cons]

theorem digits_canonical (hb : 1 < b) (n : ℕ) : Canonical b (digits b n) := by
  unfold digits
  split
  · exact ⟨by simp, by simp; omega, by simp⟩
  · rename_i hn
    refine ⟨by simpa [Nat.digits_ne_nil_iff_ne_zero] using hn, ?_, ?_⟩
    · intro d hd
      exact Nat.digits_lt_base hb (List.mem_reverse.mp hd)
    · intro hhead
      have hlast := Nat.getLast_digit_ne_zero b hn
      rw [List.head?_reverse, List.getLast?_eq_some_getLast
        (Nat.digits_ne_nil_iff_ne_zero.mpr hn), Option.some.injEq] at hhead
      exact absurd hhead hlast

theorem length_digits_le_iff (hb : 1 < b) {k : ℕ} (hk : 0 < k) :
    (digits b n).length ≤ k ↔ n < b ^ k := by
  unfold digits
  split
  · rename_i hn
    have hpos : 0 < b ^ k := Nat.pow_pos (by omega)
    simp only [List.length_singleton, hn]
    omega
  · rw [List.length_reverse]
    exact Nat.digits_length_le_iff hb n

theorem value_lt (hb : 1 < b) (hlt : ∀ d ∈ ds, d < b) : value b ds < b ^ ds.length := by
  rw [value_eq_ofDigits, ← List.length_reverse]
  exact Nat.ofDigits_lt_base_pow_length hb fun d hd => hlt d (List.mem_reverse.mp hd)

end Base

section Decimal

variable {n : ℕ} {text : List UInt8}

/-- The byte of a decimal digit. -/
def digitByte (d : ℕ) : UInt8 := UInt8.ofNat (48 + d)

/-- The decimal text of `n`. -/
def decimal (n : ℕ) : List UInt8 := (digits 10 n).map digitByte

def IsDigit (c : UInt8) : Prop := 48 ≤ c.toNat ∧ c.toNat ≤ 57

instance (c : UInt8) : Decidable (IsDigit c) := inferInstanceAs (Decidable (_ ∧ _))

/-- The number with the decimal text `text`. -/
def readDecimal (text : List UInt8) : Option ℕ :=
  if text ≠ [] ∧ text.all (IsDigit ·) then
    some (value 10 (text.map fun c => c.toNat - 48))
  else none

theorem toNat_digitByte {d : ℕ} (h : d < 10) : (digitByte d).toNat = 48 + d := by
  rw [digitByte, UInt8.toNat_ofNat']
  omega

theorem isDigit_of_mem {c : UInt8} (h : c ∈ decimal n) : IsDigit c := by
  obtain ⟨d, hd, rfl⟩ := List.mem_map.mp h
  have hlt := (digits_canonical (by omega) n).lt d hd
  rw [IsDigit, toNat_digitByte hlt]
  omega

theorem length_decimal (n : ℕ) : (decimal n).length = (digits 10 n).length := List.length_map ..

theorem length_decimal_le {k : ℕ} (hk : 0 < k) (h : n < 10 ^ k) : (decimal n).length ≤ k := by
  rw [length_decimal]
  exact (length_digits_le_iff (by omega) hk).mpr h

theorem map_decimal (n : ℕ) : (decimal n).map (fun c => c.toNat - 48) = digits 10 n := by
  rw [decimal, List.map_map]
  refine (List.map_congr_left fun d hd => ?_).trans (List.map_id _)
  have hlt := (digits_canonical (b := 10) (by omega) n).lt d hd
  simp [toNat_digitByte hlt]

theorem readDecimal_eq_some : readDecimal text = some n ↔
    text ≠ [] ∧ (∀ c ∈ text, IsDigit c) ∧ value 10 (text.map fun c => c.toNat - 48) = n := by
  have hall : text.all (IsDigit ·) ↔ ∀ c ∈ text, IsDigit c := by simp [List.all_eq_true]
  by_cases h : text ≠ [] ∧ text.all (IsDigit ·)
  · rw [readDecimal, if_pos h, Option.some_inj]
    exact ⟨fun hvalue => ⟨h.1, hall.mp h.2, hvalue⟩, fun hvalue => hvalue.2.2⟩
  · rw [readDecimal, if_neg h]
    exact iff_of_false (by simp) fun hvalue => h ⟨hvalue.1, hall.mpr hvalue.2.1⟩

theorem readDecimal_decimal (n : ℕ) : readDecimal (decimal n) = some n := by
  have hcanonical := digits_canonical (b := 10) (by omega) n
  have hne : decimal n ≠ [] := by simpa [decimal] using hcanonical.nonempty
  refine readDecimal_eq_some.mpr ⟨hne, fun c hc => isDigit_of_mem hc, ?_⟩
  rw [map_decimal, value_digits]

/-- No text of a number is shorter than its decimal text. -/
theorem length_decimal_le_of_read (h : readDecimal text = some n) :
    (decimal n).length ≤ text.length := by
  obtain ⟨hne, hall, hread⟩ := readDecimal_eq_some.mp h
  have hlt : ∀ d ∈ text.map (fun c => c.toNat - 48), d < 10 := by
    intro d hd
    obtain ⟨c, hc, rfl⟩ := List.mem_map.mp hd
    have hc := hall c hc
    unfold IsDigit at hc
    omega
  have hvalue := value_lt (by omega) hlt
  rw [hread, List.length_map] at hvalue
  exact length_decimal_le (List.length_pos_iff.mpr hne) hvalue

theorem ofNat_digitChar {d : ℕ} (h : d < 10) : UInt8.ofNat (Nat.digitChar d).toNat = digitByte d := by
  rw [Nat.toNat_digitChar_of_lt_ten h]
  rfl

/-- What `toString` and the `%d` of `printf` write. -/
theorem toDigits_eq_decimal (n : ℕ) :
    (Nat.toDigits 10 n).map (fun c => UInt8.ofNat c.toNat) = decimal n := by
  induction n using Nat.strongRecOn with
  | _ n ih =>
    rw [Nat.toDigits_eq_if (by omega), decimal, digits_step (by omega)]
    split
    · rename_i hlt
      simp [ofNat_digitChar hlt]
    · have hmod : n % 10 < 10 := by omega
      rw [List.map_append, List.map_append, ih (n / 10) (by omega), decimal]
      simp [ofNat_digitChar hmod]

/-- The lowest digit first: the remainder, then the text of the quotient. -/
theorem reverse_decimal (n : ℕ) : (decimal n).reverse =
    if n < 10 then [digitByte n] else digitByte (n % 10) :: (decimal (n / 10)).reverse := by
  rw [decimal, digits_step (by omega)]
  split
  · rfl
  · rw [List.map_append, List.reverse_append]
    rfl

/-- The decimal text filled up in front to `w` places, as `%wd` and `%0wd` of `printf` do. -/
def padded (fill : UInt8) (w n : ℕ) : List UInt8 :=
  List.replicate (w - (decimal n).length) fill ++ decimal n

theorem le_length_padded (fill : UInt8) (w n : ℕ) :
    (decimal n).length ≤ (padded fill w n).length := by
  rw [padded, List.length_append]
  exact Nat.le_add_left _ _

theorem length_padded (fill : UInt8) {w : ℕ} (hw : 0 < w) (h : n < 10 ^ w) :
    (padded fill w n).length = w := by
  have hlen := length_decimal_le hw h
  rw [padded, List.length_append, List.length_replicate]
  omega

theorem zero_notMem_padded {fill : UInt8} (hfill : fill ≠ 0) (w : ℕ) : 0 ∉ padded fill w n := by
  rw [padded, List.mem_append]
  rintro (hin | hin)
  · exact hfill (List.eq_of_mem_replicate hin).symm
  · have hdigit := isDigit_of_mem hin
    unfold IsDigit at hdigit
    simp at hdigit

theorem decimal_injective {m n : ℕ} (h : decimal m = decimal n) : m = n := by
  have hread := readDecimal_decimal m
  rw [h, readDecimal_decimal] at hread
  exact (Option.some.inj hread).symm

theorem readDecimal_of_digits (hne : text ≠ []) (hdigits : ∀ c ∈ text, IsDigit c) :
    readDecimal text = some (value 10 (text.map fun c => c.toNat - 48)) :=
  readDecimal_eq_some.mpr ⟨hne, hdigits, rfl⟩

theorem isDigit_of_mem_padded {c : UInt8} {w : ℕ} (h : c ∈ padded (digitByte 0) w n) :
    IsDigit c := by
  rcases List.mem_append.mp h with hpad | hdigit
  · rw [List.eq_of_mem_replicate hpad]
    decide
  · exact isDigit_of_mem hdigit

/-- Zeros in front do not change the number. -/
theorem readDecimal_padded (w n : ℕ) : readDecimal (padded (digitByte 0) w n) = some n := by
  have hne : padded (digitByte 0) w n ≠ [] := by
    have hcanonical := digits_canonical (b := 10) (by omega) n
    simpa [padded, decimal] using fun _ => hcanonical.nonempty
  rw [readDecimal_of_digits hne fun c hc => isDigit_of_mem_padded hc, padded, List.map_append,
    map_decimal, List.map_replicate]
  change some (value 10 (List.replicate _ 0 ++ _)) = _
  rw [value_replicate_zero, value_digits]

theorem padded_zero_injective {w m n : ℕ}
    (h : padded (digitByte 0) w m = padded (digitByte 0) w n) : m = n := by
  have hread := readDecimal_padded w m
  rw [h, readDecimal_padded] at hread
  exact (Option.some.inj hread).symm

end Decimal

section Integer

variable {v : ℤ}

/-- The minus sign. -/
def minus : UInt8 := 45

def sign (v : ℤ) : List UInt8 := if v < 0 then [minus] else []

/-- The decimal text of an integer. -/
def decimalInt (v : ℤ) : List UInt8 := sign v ++ decimal v.natAbs

/-- The integer with the decimal text `text`. -/
def readInt (text : List UInt8) : Option ℤ :=
  if text.head? = some minus then (readDecimal text.tail).map fun n : ℕ => -(n : ℤ)
  else (readDecimal text).map fun n : ℕ => (n : ℤ)

theorem minus_notMem_decimal (n : ℕ) : minus ∉ decimal n := by
  intro hin
  have hdigit := isDigit_of_mem hin
  unfold IsDigit at hdigit
  simp [minus] at hdigit

theorem minus_mem_decimalInt : minus ∈ decimalInt v ↔ v < 0 := by
  rw [decimalInt, List.mem_append, sign]
  split
  · rename_i hneg
    simp [hneg]
  · rename_i hpos
    simp [hpos, minus_notMem_decimal]

theorem readInt_decimalInt (v : ℤ) : readInt (decimalInt v) = some v := by
  unfold readInt decimalInt sign
  by_cases hneg : v < 0
  · rw [if_pos hneg, if_pos (by rfl), List.singleton_append, List.tail_cons, readDecimal_decimal,
      Option.map_some]
    congr 1
    omega
  · rw [if_neg hneg, List.nil_append, if_neg, readDecimal_decimal, Option.map_some]
    · congr 1
      omega
    · intro hhead
      exact minus_notMem_decimal v.natAbs (List.mem_of_mem_head? hhead)

theorem length_decimalInt_le {k : ℕ} (hk : 0 < k) (hlow : -(10 ^ k : ℕ) < v)
    (hhigh : v < (10 ^ (k + 1) : ℕ)) : (decimalInt v).length ≤ k + 1 := by
  rw [decimalInt, List.length_append, sign]
  split
  · have hlen := length_decimal_le (n := v.natAbs) hk (by omega)
    rw [List.length_singleton]
    omega
  · have hlen := length_decimal_le (n := v.natAbs) (k := k + 1) (by omega) (by omega)
    rw [List.length_nil]
    omega

end Integer

section Hexadecimal

/-- The byte of an upper-case hexadecimal digit. -/
def hexByte (d : ℕ) : UInt8 := if d < 10 then digitByte d else UInt8.ofNat (55 + d)

/-- The hexadecimal text of `n`. -/
def hexadecimal (n : ℕ) : List UInt8 := (digits 16 n).map hexByte

theorem reverse_hexadecimal (n : ℕ) : (hexadecimal n).reverse =
    if n < 16 then [hexByte n] else hexByte (n % 16) :: (hexadecimal (n / 16)).reverse := by
  rw [hexadecimal, digits_step (by omega)]
  split
  · rfl
  · rw [List.map_append, List.reverse_append]
    rfl

theorem length_hexadecimal_le {n k : ℕ} (hk : 0 < k) (h : n < 16 ^ k) :
    (hexadecimal n).length ≤ k := by
  rw [hexadecimal, List.length_map]
  exact (length_digits_le_iff (by omega) hk).mpr h

end Hexadecimal

end MuduoServer.Digits
