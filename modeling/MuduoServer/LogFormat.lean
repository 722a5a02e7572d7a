import MuduoServer.Block
import MuduoServer.ByteText
import MuduoServer.Digits
import MuduoServer.FaultMachine

/-!
The number formatting of `muduo/base/LogStream.cc`. `convert` and `convertHex` store one
character after the other at a pointer into an array, the lowest digit first, and turn the
text around at the end; a store outside the array and an index outside a table are faults.
What they leave is the text of the number with a NUL behind it.
-/
namespace MuduoServer

open Block FaultMachine

namespace LogFormat

inductive Fault
  | outsideArray
  | outsideTable
  deriving DecidableEq

def kMaxNumericSize : ℕ := 32

/-- `memcpy` to the index `p`, and `*p = c` for one character. -/
def store (mem : Bytes) (p : ℕ) (data : Bytes) : Except Fault Bytes := do
  check (p + data.length ≤ mem.length) .outsideArray
  pure (overwrite mem p data)

/-- `std::reverse(buf, p)`. -/
def reverse (mem : Bytes) (buf p : ℕ) : Bytes := overwrite mem buf (slice mem buf p).reverse

def digits : Bytes := bytes "9876543210123456789" ++ [0]

def digitsHex : Bytes := bytes "0123456789ABCDEF" ++ [0]

/-- `zero[lsd]`, where `zero = digits + 9`. -/
def zero (lsd : ℤ) : Except Fault UInt8 :=
  if lsd + 9 < 0 then .error .outsideTable
  else
    match digits[(lsd + 9).toNat]? with
    | some c => .ok c
    | none => .error .outsideTable

def hexDigit (lsd : ℕ) : Except Fault UInt8 :=
  match digitsHex[lsd]? with
  | some c => .ok c
  | none => .error .outsideTable

/-- The loop of `convert`; `%` and `/` truncate towards zero. -/
def convertLoop (mem : Bytes) (p : ℕ) (i : ℤ) : Except Fault (Bytes × ℕ) := do
  let c ← zero (i.tmod 10)
  let mem ← store mem p [c]
  if _ : i.tdiv 10 ≠ 0 then convertLoop mem (p + 1) (i.tdiv 10)
  else pure (mem, p + 1)
termination_by i.natAbs
decreasing_by
  have hne : (i.tdiv 10).natAbs ≠ 0 := by omega
  rw [Int.natAbs_tdiv] at hne ⊢
  change i.natAbs / 10 ≠ 0 at hne
  change i.natAbs / 10 < i.natAbs
  omega

def storeSign (mem : Bytes) (p : ℕ) (value : ℤ) : Except Fault (Bytes × ℕ) := do
  if value < 0 then
    let mem ← store mem p [byte '-']
    pure (mem, p + 1)
  else
    pure (mem, p)

/-- The NUL at `p`, and the text before it turned around. -/
def terminate (mem : Bytes) (buf p : ℕ) : Except Fault (ℕ × Bytes) := do
  let mem ← store mem p [0]
  pure (p - buf, reverse mem buf p)

/-- The length of the text, and the array with the text at `buf`. -/
def convert (mem : Bytes) (buf : ℕ) (value : ℤ) : Except Fault (ℕ × Bytes) := do
  let (mem, p) ← convertLoop mem buf value
  let (mem, p) ← storeSign mem p value
  terminate mem buf p

def convertHexLoop (mem : Bytes) (p i : ℕ) : Except Fault (Bytes × ℕ) := do
  let c ← hexDigit (i % 16)
  let mem ← store mem p [c]
  if _ : i / 16 ≠ 0 then convertHexLoop mem (p + 1) (i / 16)
  else pure (mem, p + 1)

def convertHex (mem : Bytes) (buf value : ℕ) : Except Fault (ℕ × Bytes) := do
  let (mem, p) ← convertHexLoop mem buf value
  terminate mem buf p

/-- The integer types that `LogStream` has an `operator<<` for. -/
inductive IntegerType
  | short
  | unsignedShort
  | int
  | unsignedInt
  | long
  | unsignedLong
  | longLong
  | unsignedLongLong
  deriving DecidableEq

namespace IntegerType

def bits : IntegerType → ℕ
  | short | unsignedShort => 16
  | int | unsignedInt => 32
  | long | unsignedLong | longLong | unsignedLongLong => 64

def signed : IntegerType → Bool
  | short | int | long | longLong => true
  | unsignedShort | unsignedInt | unsignedLong | unsignedLongLong => false

def lowest (t : IntegerType) : ℤ := if t.signed then -2 ^ (t.bits - 1) else 0

def highest (t : IntegerType) : ℤ := if t.signed then 2 ^ (t.bits - 1) - 1 else 2 ^ t.bits - 1

/-- The values of a type. -/
def Value (t : IntegerType) : Type := {v : ℤ // t.lowest ≤ v ∧ v ≤ t.highest}

end IntegerType

section Loops

variable {mem : Bytes} {p : ℕ} {text : Bytes}

theorem store_of (h : p + text.length ≤ mem.length) : store mem p text = .ok (overwrite mem p text) := by
  rw [store, check_of h]
  rfl

theorem zero_eq {lsd : ℤ} (hlow : -10 < lsd) (hhigh : lsd < 10) :
    zero lsd = .ok (Digits.digitByte lsd.natAbs) := by
  have hlt : lsd.natAbs < 10 := by omega
  rcases Int.natAbs_eq lsd with heq | heq <;> rw [heq] <;>
    generalize lsd.natAbs = n at hlt <;> interval_cases n <;> rfl

theorem hexDigit_eq {lsd : ℕ} (h : lsd < 16) : hexDigit lsd = .ok (Digits.hexByte lsd) := by
  interval_cases lsd <;> rfl

/-- One character, and the rest of the text behind it. -/
theorem store_cons {c : UInt8} (h : p + (c :: text).length ≤ mem.length) :
    ∃ mem', store mem p [c] = .ok mem' ∧ mem'.length = mem.length ∧
      overwrite mem' (p + 1) text = overwrite mem p (c :: text) := by
  have hin : p + [c].length ≤ mem.length := by
    rw [List.length_cons] at h
    rw [List.length_singleton]
    omega
  exact ⟨_, store_of hin, length_overwrite _ _ _ hin, overwrite_append (by omega)⟩

/-- The loop writes the digits with the lowest first. -/
theorem convertLoop_eq {i : ℤ} {n : ℕ} (hn : i.natAbs = n)
    (h : p + (Digits.decimal n).reverse.length ≤ mem.length) :
    convertLoop mem p i = .ok (overwrite mem p (Digits.decimal n).reverse,
      p + (Digits.decimal n).reverse.length) := by
  induction n using Nat.strongRecOn generalizing mem p i with
  | _ n ih =>
    have hmod : (i.tmod 10).natAbs = n % 10 := by rw [Int.natAbs_tmod, hn]; rfl
    have hdiv : (i.tdiv 10).natAbs = n / 10 := by rw [Int.natAbs_tdiv, hn]; rfl
    rw [Digits.reverse_decimal] at h ⊢
    rw [convertLoop, zero_eq (by omega) (by omega), hmod, ok_bind]
    by_cases hlt : n < 10
    · have hzero : ¬ i.tdiv 10 ≠ 0 := by omega
      rw [if_pos hlt] at h ⊢
      rw [Nat.mod_eq_of_lt hlt, store_of h, ok_bind, dif_neg hzero]
      rfl
    · have hzero : i.tdiv 10 ≠ 0 := by omega
      rw [if_neg hlt] at h ⊢
      obtain ⟨mem', hstore, hlen, hrest⟩ := store_cons h
      rw [List.length_cons] at h ⊢
      rw [hstore, ok_bind, dif_pos hzero, ih (n / 10) (by omega) hdiv (by omega), hrest,
        Nat.add_right_comm, Nat.add_assoc]

theorem convertHexLoop_eq {n : ℕ}
    (h : p + (Digits.hexadecimal n).reverse.length ≤ mem.length) :
    convertHexLoop mem p n = .ok (overwrite mem p (Digits.hexadecimal n).reverse,
      p + (Digits.hexadecimal n).reverse.length) := by
  induction n using Nat.strongRecOn generalizing mem p with
  | _ n ih =>
    rw [Digits.reverse_hexadecimal] at h ⊢
    rw [convertHexLoop, hexDigit_eq (Nat.mod_lt n (by omega)), ok_bind]
    by_cases hlt : n < 16
    · have hzero : ¬ n / 16 ≠ 0 := by omega
      rw [if_pos hlt] at h ⊢
      rw [Nat.mod_eq_of_lt hlt, store_of h, ok_bind, dif_neg hzero]
      rfl
    · have hzero : n / 16 ≠ 0 := by omega
      rw [if_neg hlt] at h ⊢
      obtain ⟨mem', hstore, hlen, hrest⟩ := store_cons h
      rw [List.length_cons] at h ⊢
      rw [hstore, ok_bind, dif_pos hzero, ih (n / 16) (by omega) (by omega), hrest,
        Nat.add_right_comm, Nat.add_assoc]

theorem storeSign_eq {v : ℤ} {buf : ℕ} (h : buf + text.length + (Digits.sign v).length ≤ mem.length) :
    storeSign (overwrite mem buf text) (buf + text.length) v =
      .ok (overwrite mem buf (text ++ Digits.sign v),
        buf + (text ++ Digits.sign v).length) := by
  unfold storeSign
  unfold Digits.sign at h ⊢
  split at h
  · rename_i hneg
    rw [List.length_singleton] at h
    rw [if_pos hneg, if_pos hneg, store_of, ok_bind, overwrite_append (by omega),
      List.length_append]
    · rfl
    · rw [length_overwrite _ _ _ (by omega), List.length_singleton]
      exact h
  · rename_i hpos
    rw [if_neg hpos, if_neg hpos, List.append_nil]
    rfl

theorem terminate_eq {buf : ℕ} (h : buf + text.length + 1 ≤ mem.length) :
    terminate (overwrite mem buf text) buf (buf + text.length) =
      .ok (text.length, overwrite mem buf (text.reverse ++ [0])) := by
  have hstore : buf + text.length + [(0 : UInt8)].length ≤ (overwrite mem buf text).length := by
    rw [length_overwrite _ _ _ (by omega), List.length_singleton]
    exact h
  rw [terminate, store_of hstore, ok_bind, overwrite_append (by omega), reverse,
    slice_overwrite (by omega), overwrite_again (by omega) (List.length_reverse ..),
    Nat.add_sub_cancel_left]
  rfl

/-- The text is stored with a NUL behind it and nothing else is touched. -/
theorem convert_eq {v : ℤ} {buf : ℕ} (h : buf + (Digits.decimalInt v).length + 1 ≤ mem.length) :
    convert mem buf v = .ok ((Digits.decimalInt v).length,
      overwrite mem buf (Digits.decimalInt v ++ [0])) := by
  have hreverse : (Digits.decimal v.natAbs).reverse ++ Digits.sign v =
      (Digits.decimalInt v).reverse := by
    rw [Digits.decimalInt, List.reverse_append, Digits.sign]
    split <;> rfl
  have hlen : (Digits.decimalInt v).length =
      (Digits.decimal v.natAbs).reverse.length + (Digits.sign v).length := by
    rw [← List.length_reverse, ← hreverse, List.length_append]
  rw [convert, convertLoop_eq rfl (by omega), ok_bind]
  dsimp only
  rw [storeSign_eq (by omega), ok_bind, hreverse]
  dsimp only
  rw [terminate_eq (by rw [List.length_reverse]; exact h), List.reverse_reverse,
    List.length_reverse]

theorem convertHex_eq {n buf : ℕ} (h : buf + (Digits.hexadecimal n).length + 1 ≤ mem.length) :
    convertHex mem buf n = .ok ((Digits.hexadecimal n).length,
      overwrite mem buf (Digits.hexadecimal n ++ [0])) := by
  have hlen : (Digits.hexadecimal n).reverse.length = (Digits.hexadecimal n).length :=
    List.length_reverse ..
  rw [convertHex, convertHexLoop_eq (by omega), ok_bind]
  dsimp only
  rw [terminate_eq (by omega), List.reverse_reverse, hlen]

end Loops

section Values

variable {t : IntegerType}

theorem length_decimalInt_lt (v : t.Value) : (Digits.decimalInt v.1).length ≤ 20 := by
  obtain ⟨v, hlow, hhigh⟩ := v
  apply Digits.length_decimalInt_le (k := 19) (by omega)
  · cases t <;> simp only [IntegerType.lowest, IntegerType.signed, IntegerType.bits] at hlow <;>
      norm_num at hlow ⊢ <;> omega
  · cases t <;> simp only [IntegerType.highest, IntegerType.signed, IntegerType.bits] at hhigh <;>
      norm_num at hhigh ⊢ <;> omega

theorem length_hexadecimal_lt (p : BitVec 64) : (Digits.hexadecimal p.toNat).length ≤ 16 := by
  apply Digits.length_hexadecimal_le (by omega)
  have hlt := p.isLt
  norm_num at hlt ⊢
  exact hlt

/-- Where `kMaxNumericSize` bytes are free, every integer and every pointer is written as its
canonical text with a NUL behind it, and nothing else changes. -/
theorem integer_formatting_exact (v : t.Value) (address : BitVec 64) {mem : Bytes} {buf : ℕ}
    (h : buf + kMaxNumericSize ≤ mem.length) :
    (∃ text row, convert mem buf v.1 = .ok (text.length, overwrite mem buf (text ++ [0])) ∧
      Digits.readInt text = some v.1 ∧ text = Digits.sign v.1 ++ row.map Digits.digitByte ∧
      Digits.Canonical 10 row ∧ (Digits.minus ∈ text ↔ v.1 < 0) ∧
      text.length + 1 ≤ kMaxNumericSize) ∧
    ∃ text row, convertHex mem buf address.toNat =
        .ok (text.length, overwrite mem buf (text ++ [0])) ∧
      text = row.map Digits.hexByte ∧ Digits.Canonical 16 row ∧
      Digits.value 16 row = address.toNat ∧ text.length + 3 ≤ kMaxNumericSize := by
  have hint := length_decimalInt_lt v
  have hhex := length_hexadecimal_lt address
  unfold kMaxNumericSize at h ⊢
  refine ⟨⟨_, Digits.digits 10 v.1.natAbs, convert_eq (by omega), Digits.readInt_decimalInt v.1,
    rfl, Digits.digits_canonical (by omega) _, Digits.minus_mem_decimalInt, by omega⟩, ?_⟩
  exact ⟨_, Digits.digits 16 address.toNat, convertHex_eq (by omega), rfl,
    Digits.digits_canonical (by omega) _, Digits.value_digits 16 _, by omega⟩

theorem integer_formatting_exact_sample : ∃ text,
    convert (List.replicate 40 0) 3 (-2147483648) =
      .ok (text.length, overwrite (List.replicate 40 0) 3 (text ++ [0])) ∧
    Digits.readInt text = some (-2147483648) ∧ Digits.minus ∈ text := by
  have hroom : 3 + kMaxNumericSize ≤ (List.replicate 40 (0 : UInt8)).length := by decide
  obtain ⟨⟨text, row, hconvert, hread, -, -, hminus, -⟩, -⟩ :=
    integer_formatting_exact (t := .int) ⟨-2147483648, by decide⟩ 0 hroom
  exact ⟨text, hconvert, hread, hminus.mpr (by decide)⟩

end Values

end LogFormat

end MuduoServer
