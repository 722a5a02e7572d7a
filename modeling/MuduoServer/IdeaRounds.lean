import MuduoServer.Endian
import MuduoServer.Euclid
import Mathlib.Tactic.NormNum.Prime
import Mathlib.Data.Nat.Prime.Basic
import Mathlib.Data.Finite.Prod

/-!
The block cipher of `ABCBank/Public/Idea.cpp`. Words of 16 bits are added, combined by
exclusive or, and multiplied modulo 65537, where 0 stands for 65536. Each of the 8 rounds is
a key transformation, a mixing that is its own inverse, and an exchange of the two words in
the middle. With the inverted key the cipher runs through its own rounds backwards.
-/
namespace MuduoServer.IdeaRounds

open Endian Euclid

/-- The macro `MUL`, as the value that it leaves in `x`. -/
def mul (x y : UInt16) : UInt16 :=
  if y ≠ 0 then
    if x ≠ 0 then
      let t32 := x.toUInt32 * y.toUInt32
      let x := t32.toUInt16
      let t16 := (t32 >>> 16).toUInt16
      (x - t16) + (if x < t16 then 1 else 0)
    else 1 - y
  else 1 - x

/-- `q * t` is computed in the type `int`, before it is cut to 16 bits. -/
def product (q t : UInt16) : Option UInt16 :=
  if q.toNat * t.toNat < 2 ^ 31 then some (q * t) else none

/-- The loop of `MulInv`; nothing for a division by 0 or a product that is no `int`. -/
def mulInvLoop (x y t0 t1 : UInt16) : Option UInt16 :=
  if _hy : y = 0 then none
  else do
    let p ← product (x / y) t1
    let t0 := t0 + p
    if x % y = 1 then some t0
    else if _hx : x % y = 0 then none
    else do
      let p ← product (y / (x % y)) t0
      let t1 := t1 + p
      if y % (x % y) = 1 then some (1 - t1)
      else mulInvLoop (x % y) (y % (x % y)) t0 t1
termination_by y.toNat
decreasing_by
  have hxpos : 0 < (x % y).toNat := by
    apply Nat.pos_of_ne_zero
    intro h
    exact _hx (UInt16.toNat_inj.1 h)
  have hypos : 0 < y.toNat := by
    apply Nat.pos_of_ne_zero
    intro h
    exact _hy (UInt16.toNat_inj.1 h)
  have hlt : y.toNat % (x % y).toNat < (x % y).toNat := Nat.mod_lt _ hxpos
  have hle : x.toNat % y.toNat < y.toNat := Nat.mod_lt _ hypos
  rw [← UInt16.toNat_mod] at hlt hle
  omega

def mulInv (x : UInt16) : Option UInt16 :=
  if x ≤ 1 then some x
  else
    let t1 := UInt16.ofNat (0x10001 / x.toNat)
    let y := UInt16.ofNat (0x10001 % x.toNat)
    if y = 1 then some (1 - t1) else mulInvLoop x y 1 t1

/-- The modulus of the multiplication. -/
def modulus : ℕ := 0x10001

theorem prime_modulus : Nat.Prime modulus := by
  unfold modulus
  norm_num

/-- The residue modulo 65537 that a word stands for. -/
def value (x : UInt16) : ℕ := residue 65536 x.toNat

theorem value_injective {x y : UInt16} (h : value x ≡ value y [MOD modulus]) : x = y :=
  UInt16.toNat_inj.1 (residue_injective x.toNat_lt y.toNat_lt h)

theorem value_zero : value 0 = 65536 := rfl

theorem value_of_ne_zero {x : UInt16} (hx : x ≠ 0) : value x = x.toNat := by
  apply residue_of_pos
  intro h
  exact hx (UInt16.toNat_inj.1 h)

/-- A word that is 1 minus another one stands for the negative of its residue. -/
theorem value_one_sub (x : UInt16) (hx : x ≠ 0) : value (1 - x) + value x = modulus := by
  have hlt := x.toNat_lt
  have hpos : x.toNat ≠ 0 := by
    intro h
    exact hx (UInt16.toNat_inj.1 h)
  rw [value_of_ne_zero hx, value, UInt16.toNat_sub, residue, modulus]
  have hone : (1 : UInt16).toNat = 1 := rfl
  rw [hone]
  split <;> omega

theorem value_one_sub_modEq (x : UInt16) : value (1 - x) ≡ 65536 * value x [MOD modulus] := by
  by_cases hx : x = 0
  · subst x
    decide
  · apply Nat.ModEq.add_right_cancel' (value x)
    have hone : 65536 * value x + value x = modulus * value x := by
      unfold modulus
      omega
    rw [value_one_sub x hx, hone]
    exact ((Nat.modEq_zero_iff_dvd).2 dvd_rfl).trans
      ((Nat.modEq_zero_iff_dvd).2 (dvd_mul_right modulus (value x))).symm

/-- Two words that are not 0 have no product divisible by the modulus. -/
theorem not_dvd_mul {x y : UInt16} (hx : x ≠ 0) (hy : y ≠ 0) :
    ¬ modulus ∣ x.toNat * y.toNat := by
  intro hdvd
  have hxlt := x.toNat_lt
  have hylt := y.toNat_lt
  rcases prime_modulus.dvd_mul.1 hdvd with h | h
  · have hzero := Nat.eq_zero_of_dvd_of_lt h (by unfold modulus; omega)
    exact hx (UInt16.toNat_inj.1 hzero)
  · have hzero := Nat.eq_zero_of_dvd_of_lt h (by unfold modulus; omega)
    exact hy (UInt16.toNat_inj.1 hzero)

theorem toNat_mul {x y : UInt16} (hx : x ≠ 0) (hy : y ≠ 0) :
    (mul x y).toNat =
      (x.toNat * y.toNat % 65536 +
          (if x.toNat * y.toNat % 65536 < x.toNat * y.toNat / 65536 then 65537 else 0) -
        x.toNat * y.toNat / 65536) % 65536 := by
  have hxlt := x.toNat_lt
  have hylt := y.toNat_lt
  have hlt : x.toNat * y.toNat < 65536 * 65536 :=
    Nat.mul_lt_mul_of_lt_of_lt hxlt hylt
  have h32 : (x.toUInt32 * y.toUInt32).toNat = x.toNat * y.toNat := by
    rw [UInt32.toNat_mul, UInt16.toNat_toUInt32, UInt16.toNat_toUInt32]
    exact Nat.mod_eq_of_lt hlt
  have hlo : (x.toUInt32 * y.toUInt32).toUInt16.toNat = x.toNat * y.toNat % 65536 := by
    rw [UInt32.toNat_toUInt16, h32]
  have hhi : ((x.toUInt32 * y.toUInt32) >>> 16).toUInt16.toNat = x.toNat * y.toNat / 65536 := by
    rw [UInt32.toNat_toUInt16, UInt32.toNat_shiftRight, h32]
    have hshift : (16 : UInt32).toNat % 32 = 16 := rfl
    rw [hshift, Nat.shiftRight_eq_div_pow]
    omega
  rw [mul, if_pos hy, if_pos hx]
  simp only [UInt16.toNat_add, UInt16.toNat_sub, UInt16.lt_iff_toNat_lt, hlo, hhi]
  have hdiv : x.toNat * y.toNat / 65536 < 65536 := Nat.div_lt_of_lt_mul hlt
  have hmod := Nat.mod_lt (x.toNat * y.toNat) (show 0 < 65536 by omega)
  split
  · have hone : (1 : UInt16).toNat = 1 := rfl
    rw [hone]
    omega
  · have hzero : (0 : UInt16).toNat = 0 := rfl
    rw [hzero]
    omega

/-- `MUL` multiplies the residues that the words stand for. -/
theorem value_mul (x y : UInt16) : value (mul x y) ≡ value x * value y [MOD modulus] := by
  by_cases hy : y = 0
  · subst y
    have hmul : mul x 0 = 1 - x := by rw [mul, if_neg (not_not.2 rfl)]
    rw [hmul, value_zero, Nat.mul_comm]
    exact value_one_sub_modEq x
  by_cases hx : x = 0
  · subst x
    have hmul : mul 0 y = 1 - y := by rw [mul, if_pos hy, if_neg (not_not.2 rfl)]
    rw [hmul, value_zero]
    exact value_one_sub_modEq y
  have hlt : x.toNat * y.toNat < 65536 * 65536 :=
    Nat.mul_lt_mul_of_lt_of_lt x.toNat_lt y.toNat_lt
  have hne : x.toNat * y.toNat % 65536 ≠ x.toNat * y.toNat / 65536 := by
    intro h
    apply not_dvd_mul hx hy
    refine ⟨x.toNat * y.toNat / 65536, ?_⟩
    unfold modulus
    omega
  have hdigits := residue_digits (Nat.mod_lt (x.toNat * y.toNat) (show 0 < 65536 by omega))
    (Nat.div_lt_of_lt_mul hlt) hne
  rw [← toNat_mul hx hy, Nat.mod_add_div] at hdigits
  rw [value_of_ne_zero hx, value_of_ne_zero hy]
  exact hdigits

/-- A coefficient that stays a word is computed without an overflow. -/
theorem add_product {q t u : UInt16} (h : u.toNat + q.toNat * t.toNat < 65536) :
    product q t = some (q * t) ∧ (u + q * t).toNat = u.toNat + q.toNat * t.toNat := by
  constructor
  · rw [product, if_pos (by omega)]
  · rw [UInt16.toNat_add, UInt16.toNat_mul]
    have hprod : q.toNat * t.toNat % 2 ^ 16 = q.toNat * t.toNat := Nat.mod_eq_of_lt (by omega)
    rw [hprod]
    exact Nat.mod_eq_of_lt h

/-- A word is the inverse when its number is. -/
theorem value_inverse {t : UInt16} {a : ℕ} (h : t.toNat * a ≡ 1 [MOD modulus]) :
    value t * a ≡ 1 [MOD modulus] := by
  have ht : t ≠ 0 := by
    intro ht
    rw [ht] at h
    have hzero : (0 : UInt16).toNat * a = 0 := Nat.zero_mul a
    rw [hzero] at h
    exact absurd h (by decide)
  rwa [value_of_ne_zero ht]

/-- The negative of a word's number is the inverse when the right remainder is 1. -/
theorem value_one_sub_inverse {a x t₀ : ℕ} {t1 : UInt16}
    (h : Bezout modulus a x 1 t₀ t1.toNat) (hlt : t₀ < modulus) :
    value (1 - t1) * a ≡ 1 [MOD modulus] := by
  have hle : t1.toNat ≤ modulus := Nat.le_of_lt (Nat.lt_trans t1.toNat_lt (by decide))
  have hne : t1 ≠ 0 := by
    intro hzero
    have htotal := h.total
    rw [hzero] at htotal
    have h0 : (0 : UInt16).toNat = 0 := rfl
    rw [h0, Nat.mul_zero, Nat.zero_add, Nat.one_mul] at htotal
    omega
  have hvalue : value (1 - t1) = modulus - t1.toNat := by
    have hsum := value_one_sub t1 hne
    rw [value_of_ne_zero hne] at hsum
    omega
  rw [hvalue]
  exact h.inverse_right hle

theorem mulInvLoop_spec {a : ℕ} (x y t0 t1 : UInt16)
    (h : Bezout modulus a x.toNat y.toNat t0.toNat t1.toNat) (hy : 2 ≤ y.toNat) :
    ∃ r, mulInvLoop x y t0 t1 = some r ∧ value r * a ≡ 1 [MOD modulus] := by
  have hy0 : y ≠ 0 := by
    intro hzero
    rw [hzero] at hy
    exact absurd hy (by decide)
  have hleft := h.divLeft
  rw [← UInt16.toNat_mod, ← UInt16.toNat_div] at hleft
  -- the right remainder is at least 2, so the new coefficient is half of the modulus at most
  have hle : 2 * (t0.toNat + (x / y).toNat * t1.toNat) ≤ modulus :=
    (Nat.mul_le_mul_right _ hy).trans hleft.mul_right_le
  have hmod : modulus = 65537 := rfl
  obtain ⟨hp, ht0⟩ := add_product (q := x / y) (t := t1) (u := t0) (by omega)
  rw [← ht0] at hleft hle
  rw [mulInvLoop, dif_neg hy0, hp]
  simp only [Option.bind_eq_bind, Option.bind_some]
  by_cases hx1 : x % y = 1
  · rw [if_pos hx1]
    rw [hx1] at hleft
    exact ⟨_, rfl, value_inverse hleft.inverse_left⟩
  have hxne : (x % y).toNat ≠ 1 := by
    intro hone
    exact hx1 (UInt16.toNat_inj.1 hone)
  have hxpos := hleft.left_pos (by omega)
  have hx0 : x % y ≠ 0 := by
    intro hzero
    rw [hzero] at hxpos
    exact absurd hxpos (by decide)
  rw [if_neg hx1, dif_neg hx0]
  have hright := hleft.divRight
  rw [← UInt16.toNat_mod, ← UInt16.toNat_div] at hright
  have hle1 : 2 * (t1.toNat + (y / (x % y)).toNat * (t0 + x / y * t1).toNat) ≤ modulus :=
    (Nat.mul_le_mul_right _ (by omega)).trans hright.mul_left_le
  obtain ⟨hp1, ht1⟩ := add_product (q := y / (x % y)) (t := t0 + x / y * t1) (u := t1) (by omega)
  rw [← ht1] at hright
  rw [hp1]
  simp only [Option.bind_some]
  by_cases hy1 : y % (x % y) = 1
  · rw [if_pos hy1]
    rw [hy1] at hright
    exact ⟨_, rfl, value_one_sub_inverse hright (by omega)⟩
  rw [if_neg hy1]
  have hyne : (y % (x % y)).toNat ≠ 1 := by
    intro hone
    exact hy1 (UInt16.toNat_inj.1 hone)
  have hypos := hright.right_pos hxne
  exact mulInvLoop_spec _ _ _ _ hright (by omega)
termination_by y.toNat
decreasing_by
  rw [UInt16.toNat_mod, UInt16.toNat_mod]
  have hlt := Nat.mod_lt y.toNat (show 0 < x.toNat % y.toNat by rwa [← UInt16.toNat_mod])
  have hlt' := Nat.mod_lt x.toNat (show 0 < y.toNat by omega)
  omega

/-- The two divisions before the loop fit into words. -/
theorem start_toNat {x : UInt16} (hx : 2 ≤ x.toNat) :
    (UInt16.ofNat (0x10001 / x.toNat)).toNat = modulus / x.toNat ∧
      (UInt16.ofNat (0x10001 % x.toNat)).toNat = modulus % x.toNat := by
  have hlt := x.toNat_lt
  have hdiv : 0x10001 / x.toNat ≤ 0x10001 / 2 := Nat.div_le_div_left hx (by omega)
  have hmod : 0x10001 % x.toNat < x.toNat := Nat.mod_lt _ (by omega)
  have hsize : UInt16.size = 65536 := rfl
  constructor
  · rw [UInt16.toNat_ofNat_of_lt' (by omega)]
    rfl
  · rw [UInt16.toNat_ofNat_of_lt' (by omega)]
    rfl

theorem coprime_modulus {x : UInt16} (hx : 2 ≤ x.toNat) : Nat.Coprime x.toNat modulus := by
  rw [Nat.coprime_comm, prime_modulus.coprime_iff_not_dvd]
  intro hdvd
  have hle := Nat.le_of_dvd (by omega) hdvd
  have hlt := x.toNat_lt
  unfold modulus at hle
  omega

/-- `MulInv` divides by 0 nowhere and no product of it leaves the type `int`; what it returns
stands for the inverse of the residue that its argument stands for. -/
theorem mulInv_spec (x : UInt16) :
    ∃ r, mulInv x = some r ∧ value r * value x ≡ 1 [MOD modulus] := by
  by_cases hx : x ≤ 1
  · have hle : x.toNat ≤ 1 := UInt16.le_iff_toNat_le.1 hx
    have hcases : x = 0 ∨ x = 1 := by
      rcases Nat.le_one_iff_eq_zero_or_eq_one.1 hle with h | h
      · exact Or.inl (UInt16.toNat_inj.1 h)
      · exact Or.inr (UInt16.toNat_inj.1 h)
    refine ⟨x, by rw [mulInv, if_pos hx], ?_⟩
    rcases hcases with rfl | rfl <;> decide
  have hx2 : 2 ≤ x.toNat := by
    have hlt : ¬ x.toNat ≤ 1 := fun hle => hx (UInt16.le_iff_toNat_le.2 hle)
    omega
  obtain ⟨ht1, hy⟩ := start_toNat hx2
  have hcop := coprime_modulus hx2
  have hstart := Bezout.start hcop
  rw [← ht1, ← hy] at hstart
  have hvalue : value x = x.toNat := by
    apply value_of_ne_zero
    intro hzero
    rw [hzero] at hx2
    exact absurd hx2 (by decide)
  rw [mulInv, if_neg hx, hvalue]
  simp only []
  by_cases hy1 : UInt16.ofNat (0x10001 % x.toNat) = 1
  · rw [if_pos hy1]
    rw [hy1] at hstart
    exact ⟨_, rfl, value_one_sub_inverse hstart (by decide)⟩
  rw [if_neg hy1]
  have hyne : (UInt16.ofNat (0x10001 % x.toNat)).toNat ≠ 1 := by
    intro hone
    exact hy1 (UInt16.toNat_inj.1 hone)
  have hypos := hstart.right_pos (by omega)
  exact mulInvLoop_spec x _ 1 _ hstart (by omega)

/-- The product with an inverse undoes a product. -/
theorem mul_cancel {k r : UInt16} (h : value r * value k ≡ 1 [MOD modulus]) (x : UInt16) :
    mul (mul x k) r = x := by
  apply value_injective
  calc value (mul (mul x k) r)
      ≡ value (mul x k) * value r [MOD modulus] := value_mul _ _
    _ ≡ value x * value k * value r [MOD modulus] := (value_mul x k).mul_right _
    _ = value x * (value r * value k) := by ring
    _ ≡ value x * 1 [MOD modulus] := h.mul_left _
    _ = value x := Nat.mul_one _

/-- Words with `MUL` are the units modulo 65537, and `MulInv`, which is defined on every one
of them, gives the word that takes a multiplication back. -/
theorem mul_mulInv (x y : UInt16) :
    value (mul x y) ≡ value x * value y [MOD modulus] ∧
      ∃ r, mulInv y = some r ∧ mul (mul x y) r = x ∧ mul y r = 1 := by
  obtain ⟨r, hr, hinv⟩ := mulInv_spec y
  refine ⟨value_mul x y, r, hr, mul_cancel hinv x, ?_⟩
  apply value_injective
  calc value (mul y r)
      ≡ value y * value r [MOD modulus] := value_mul y r
    _ = value r * value y := Nat.mul_comm _ _
    _ ≡ 1 [MOD modulus] := hinv

/-- `x1` to `x4`. -/
structure Words where
  x1 : UInt16
  x2 : UInt16
  x3 : UInt16
  x4 : UInt16
  deriving DecidableEq

instance finiteWord : Finite UInt16 :=
  Finite.of_injective UInt16.toFin fun _ _ h => UInt16.toFin_inj.1 h

instance finiteWords : Finite Words := by
  apply Finite.of_injective fun s : Words => (s.x1, s.x2, s.x3, s.x4)
  intro s s' h
  cases s
  cases s'
  simpa using h

/-- The body of the loop of `IdeaCipher`; `key` is what the pointer has before it. -/
def round (key : List UInt16) (s : Words) : Words :=
  let x1 := mul s.x1 (key.getD 0 0)
  let x2 := s.x2 + key.getD 1 0
  let x3 := s.x3 + key.getD 2 0
  let x4 := mul s.x4 (key.getD 3 0)
  let s3 := x3
  let x3 := mul (x3 ^^^ x1) (key.getD 4 0)
  let s2 := x2
  let x2 := mul ((x2 ^^^ x4) + x3) (key.getD 5 0)
  let x3 := x3 + x2
  ⟨x1 ^^^ x2, x2 ^^^ s3, x3 ^^^ s2, x4 ^^^ x3⟩

/-- After the loop, with the words in the order in which they are written to `outbuf`. -/
def output (key : List UInt16) (s : Words) : Words :=
  ⟨mul s.x1 (key.getD 0 0), s.x3 + key.getD 1 0, s.x2 + key.getD 2 0, mul s.x4 (key.getD 3 0)⟩

def rounds : ℕ → List UInt16 → Words → Words
  | 0, key, s => output key s
  | r + 1, key, s => rounds r (key.drop 6) (round key s)

/-- `(x >> 8) | (x << 8)`. -/
def swapBytes (x : UInt16) : UInt16 := (x >>> 8) ||| (x <<< 8)

section Blocks

variable (order : HostOrder)

def loadWord (bytes : List UInt8) : UInt16 :=
  swapBytes (UInt16.ofBitVec (load order 2 (bytes.take 2)))

def storeWord (x : UInt16) : List UInt8 := memory order 2 (swapBytes x).toBitVec

def loadWords (inbuf : List UInt8) : Words :=
  ⟨loadWord order inbuf, loadWord order (inbuf.drop 2), loadWord order (inbuf.drop 4),
    loadWord order (inbuf.drop 6)⟩

def storeWords (s : Words) : List UInt8 :=
  storeWord order s.x1 ++ storeWord order s.x2 ++ storeWord order s.x3 ++ storeWord order s.x4

/-- `IdeaCipher`, with what it writes to `outbuf`. -/
def ideaCipher (inbuf : List UInt8) (key : List UInt16) : List UInt8 :=
  storeWords order (rounds 8 key (loadWords order inbuf))

end Blocks

/-- The next four words of the key inverted, in front of what is written already. -/
def pushOuter (EK p : List UInt16) : Option (List UInt16) := do
  let t1 ← mulInv (EK.getD 0 0)
  let t4 ← mulInv (EK.getD 3 0)
  pure (t1 :: -EK.getD 1 0 :: -EK.getD 2 0 :: t4 :: p)

/-- Inside the rounds the two words in the middle change places. -/
def pushInner (EK p : List UInt16) : Option (List UInt16) := do
  let t1 ← mulInv (EK.getD 0 0)
  let t4 ← mulInv (EK.getD 3 0)
  pure (t1 :: -EK.getD 2 0 :: -EK.getD 1 0 :: t4 :: p)

/-- The two words of the mixing are copied. -/
def pushMix (EK p : List UInt16) : List UInt16 := EK.getD 0 0 :: EK.getD 1 0 :: p

/-- The loop of `IdeaInvertKey` and what follows it. -/
def invertRounds : ℕ → List UInt16 → List UInt16 → Option (List UInt16)
  | 0, EK, p => pushOuter (EK.drop 2) (pushMix EK p)
  | i + 1, EK, p => do
      let p ← pushInner (EK.drop 2) (pushMix EK p)
      invertRounds i (EK.drop 6) p

def ideaInvertKey (EK : List UInt16) : Option (List UInt16) := do
  let p ← pushOuter EK []
  invertRounds 7 (EK.drop 4) p

/-- The first four steps of a round. -/
def transform (key : List UInt16) (s : Words) : Words :=
  ⟨mul s.x1 (key.getD 0 0), s.x2 + key.getD 1 0, s.x3 + key.getD 2 0, mul s.x4 (key.getD 3 0)⟩

/-- The words that the mixing adds to `x1` and `x3`, and to `x2` and `x4`. -/
def sums (key : List UInt16) (x y : UInt16) : UInt16 × UInt16 :=
  let p := mul x (key.getD 0 0)
  let q := mul (y + p) (key.getD 1 0)
  (q, p + q)

def mix (key : List UInt16) (s : Words) : Words :=
  let r := sums key (s.x3 ^^^ s.x1) (s.x2 ^^^ s.x4)
  ⟨s.x1 ^^^ r.1, s.x2 ^^^ r.2, s.x3 ^^^ r.1, s.x4 ^^^ r.2⟩

def exchange (s : Words) : Words := ⟨s.x1, s.x3, s.x2, s.x4⟩

theorem exchange_exchange (s : Words) : exchange (exchange s) = s := rfl

theorem round_eq (key : List UInt16) (s : Words) :
    round key s = exchange (mix (key.drop 4) (transform key s)) := by
  simp only [round, exchange, mix, sums, transform, List.getD_eq_getElem?_getD,
    List.getElem?_drop, UInt16.xor_comm]

theorem output_eq (key : List UInt16) (s : Words) :
    output key s = transform key (exchange s) := rfl

theorem xor_xor_cancel (x y z : UInt16) : (x ^^^ z) ^^^ (y ^^^ z) = x ^^^ y := by
  calc (x ^^^ z) ^^^ (y ^^^ z) = x ^^^ y ^^^ (z ^^^ z) := by ac_rfl
    _ = x ^^^ y := by rw [UInt16.xor_self, UInt16.xor_zero]

/-- The mixing is its own inverse: the sums that it adds are the same the second time. -/
theorem mix_mix (key : List UInt16) (s : Words) : mix key (mix key s) = s := by
  have hsums : sums key ((mix key s).x3 ^^^ (mix key s).x1) ((mix key s).x2 ^^^ (mix key s).x4) =
      sums key (s.x3 ^^^ s.x1) (s.x2 ^^^ s.x4) := by
    simp only [mix, xor_xor_cancel]
  rw [mix, hsums]
  simp only [mix, UInt16.xor_assoc, UInt16.xor_self, UInt16.xor_zero]

theorem add_neg_cancel (x k : UInt16) : x + k + -k = x := by
  rw [UInt16.add_neg_eq_sub, UInt16.add_sub_cancel]

/-- What `pushOuter` writes takes the key transformation back. -/
theorem pushOuter_spec (EK p : List UInt16) :
    ∃ DK, pushOuter EK p = some DK ∧ DK.drop 4 = p ∧
      ∀ s, transform DK (transform EK s) = s := by
  obtain ⟨t1, h1, hinv1⟩ := mulInv_spec (EK.getD 0 0)
  obtain ⟨t4, h4, hinv4⟩ := mulInv_spec (EK.getD 3 0)
  refine ⟨_, by rw [pushOuter, h1, h4]; rfl, rfl, ?_⟩
  intro s
  change Words.mk (mul (mul s.x1 (EK.getD 0 0)) t1) (s.x2 + EK.getD 1 0 + -EK.getD 1 0)
    (s.x3 + EK.getD 2 0 + -EK.getD 2 0) (mul (mul s.x4 (EK.getD 3 0)) t4) = s
  rw [mul_cancel hinv1, mul_cancel hinv4, add_neg_cancel, add_neg_cancel]

/-- What `pushInner` writes does so with the words in the middle exchanged. -/
theorem pushInner_spec (EK p : List UInt16) :
    ∃ DK, pushInner EK p = some DK ∧ DK.drop 4 = p ∧
      ∀ s, transform DK (exchange (transform EK s)) = exchange s := by
  obtain ⟨t1, h1, hinv1⟩ := mulInv_spec (EK.getD 0 0)
  obtain ⟨t4, h4, hinv4⟩ := mulInv_spec (EK.getD 3 0)
  refine ⟨_, by rw [pushInner, h1, h4]; rfl, rfl, ?_⟩
  intro s
  change Words.mk (mul (mul s.x1 (EK.getD 0 0)) t1) (s.x3 + EK.getD 2 0 + -EK.getD 2 0)
    (s.x2 + EK.getD 1 0 + -EK.getD 1 0) (mul (mul s.x4 (EK.getD 3 0)) t4) = exchange s
  rw [mul_cancel hinv1, mul_cancel hinv4, add_neg_cancel, add_neg_cancel]
  rfl

/-- The mixing of a round reads the first two words of what follows its transformation. -/
theorem mix_pushMix (EK p : List UInt16) : mix (pushMix EK p) = mix EK := rfl

/-- What is written of the inverted key, from `p` on, runs through `n` rounds back: from the
state after the transformation that follows `f`, to the one from which `f` has come. -/
def Undoes (n : ℕ) (p EK : List UInt16) (f : Words → Words) : Prop :=
  ∀ s, rounds n p (exchange (transform EK (f s))) = s

/-- A key that takes the transformation back to `mix` of a known state goes on with the
mixing, which is its own inverse, and with the round before it. -/
theorem Undoes.before {n : ℕ} {p EK DK : List UInt16} {f : Words → Words}
    (h : Undoes n p EK f) (hdrop : DK.drop 4 = pushMix (EK.drop 4) p) {s x : Words}
    (hx : transform DK x = mix (EK.drop 4) (transform EK (f s))) :
    rounds (n + 1) DK x = s := by
  have hp : DK.drop 6 = p := by
    calc DK.drop 6 = (DK.drop 4).drop 2 := by rw [List.drop_drop]
      _ = p := by rw [hdrop]; rfl
  rw [rounds, hp, round_eq, hdrop, mix_pushMix, hx, mix_mix]
  exact h s

theorem Undoes.inner {n : ℕ} {p EK : List UInt16} {f : Words → Words} (h : Undoes n p EK f) :
    ∃ DK, pushInner (EK.drop 6) (pushMix (EK.drop 4) p) = some DK ∧
      Undoes (n + 1) DK (EK.drop 6) (fun s => round EK (f s)) := by
  obtain ⟨DK, hDK, hdrop, hinv⟩ := pushInner_spec (EK.drop 6) (pushMix (EK.drop 4) p)
  refine ⟨DK, hDK, fun s => h.before hdrop ?_⟩
  change transform DK (exchange (transform (EK.drop 6) (round EK (f s)))) = _
  rw [hinv, round_eq, exchange_exchange]

theorem Undoes.outer {n : ℕ} {p EK : List UInt16} {f : Words → Words} (h : Undoes n p EK f) :
    ∃ DK, pushOuter (EK.drop 6) (pushMix (EK.drop 4) p) = some DK ∧
      ∀ s, rounds (n + 1) DK (rounds 1 EK (f s)) = s := by
  obtain ⟨DK, hDK, hdrop, hinv⟩ := pushOuter_spec (EK.drop 6) (pushMix (EK.drop 4) p)
  refine ⟨DK, hDK, fun s => h.before hdrop ?_⟩
  rw [rounds, rounds, output_eq, hinv, round_eq, exchange_exchange]

/-- The loop of `IdeaInvertKey`, round by round. -/
theorem invertRounds_spec (i : ℕ) {n : ℕ} {p EK : List UInt16} {f : Words → Words}
    (h : Undoes n p EK f) :
    ∃ DK, invertRounds i (EK.drop 4) p = some DK ∧
      ∀ s, rounds (n + i + 1) DK (rounds (i + 1) EK (f s)) = s := by
  induction i generalizing n p EK f with
  | zero =>
    obtain ⟨DK, hDK, hinv⟩ := h.outer
    refine ⟨DK, ?_, hinv⟩
    rw [invertRounds, List.drop_drop]
    exact hDK
  | succ i ih =>
    obtain ⟨p', hp', hundoes⟩ := h.inner
    obtain ⟨DK, hDK, hinv⟩ := ih hundoes
    refine ⟨DK, ?_, ?_⟩
    · rw [invertRounds, List.drop_drop, hp']
      simp only [Option.bind_eq_bind, Option.bind_some]
      rw [List.drop_drop] at hDK ⊢
      exact hDK
    · intro s
      have hn : n + (i + 1) + 1 = n + 1 + i + 1 := by omega
      rw [hn, rounds]
      exact hinv s

/-- `IdeaInvertKey` never fails, and the rounds with the inverted key undo those with the key. -/
theorem ideaInvertKey_spec (EK : List UInt16) :
    ∃ DK, ideaInvertKey EK = some DK ∧ ∀ s, rounds 8 DK (rounds 8 EK s) = s := by
  obtain ⟨p, hp, -, hinv⟩ := pushOuter_spec EK []
  have hstart : Undoes 0 p EK id := by
    intro s
    rw [rounds, output_eq, exchange_exchange]
    exact hinv s
  obtain ⟨DK, hDK, hall⟩ := invertRounds_spec 7 hstart
  refine ⟨DK, ?_, hall⟩
  rw [ideaInvertKey, hp]
  exact hDK

theorem toBitVec_swapBytes (x : UInt16) :
    (swapBytes x).toBitVec = x.toBitVec >>> 8 ||| x.toBitVec <<< 8 := rfl

theorem swapBytes_swapBytes (x : UInt16) : swapBytes (swapBytes x) = x := by
  apply UInt16.toBitVec_inj.1
  rw [toBitVec_swapBytes, toBitVec_swapBytes]
  apply BitVec.eq_of_getLsbD_eq
  intro i hi
  simp only [BitVec.getLsbD_or, BitVec.getLsbD_ushiftRight, BitVec.getLsbD_shiftLeft]
  have hout : x.toBitVec.getLsbD (8 + (8 + i)) = false := BitVec.getLsbD_of_ge _ _ (by omega)
  by_cases hlow : i < 8
  · have hback : 8 + i - 8 = i := by omega
    have hfits : 8 + i < 16 := by omega
    simp [hout, hback, hlow, hfits]
  · have hback : 8 + (i - 8) = i := by omega
    have hlost : ¬ 8 + i < 16 := by omega
    have hsecond : i - 8 < 8 := by omega
    simp [hout, hback, hlow, hlost, hi, hsecond]

section Blocks

variable (order : HostOrder)

theorem length_storeWord (x : UInt16) : (storeWord order x).length = 2 := length_memory _ _ _

theorem loadWord_storeWord (x : UInt16) (rest : List UInt8) :
    loadWord order (storeWord order x ++ rest) = x := by
  have htake : (storeWord order x ++ rest).take 2 = storeWord order x := by
    rw [← length_storeWord order x, List.take_left]
  rw [loadWord, htake, storeWord, load_memory]
  exact swapBytes_swapBytes x

theorem storeWord_loadWord {bytes : List UInt8} (h : 2 ≤ bytes.length) :
    storeWord order (loadWord order bytes) = bytes.take 2 := by
  have hlen : (bytes.take 2).length = 2 := by
    rw [List.length_take]
    omega
  rw [storeWord, loadWord, swapBytes_swapBytes]
  exact memory_load order hlen

theorem loadWords_storeWords (s : Words) : loadWords order (storeWords order s) = s := by
  have hdrop : ∀ (x : UInt16) (rest : List UInt8),
      (storeWord order x ++ rest).drop 2 = rest := by
    intro x rest
    rw [← length_storeWord order x, List.drop_left]
  have h4 : ∀ l : List UInt8, l.drop 4 = (l.drop 2).drop 2 := by
    intro l
    rw [List.drop_drop]
  have h6 : ∀ l : List UInt8, l.drop 6 = ((l.drop 2).drop 2).drop 2 := by
    intro l
    rw [List.drop_drop, List.drop_drop]
  have hlast : loadWord order (storeWord order s.x4) = s.x4 := by
    simpa only [List.append_nil] using loadWord_storeWord order s.x4 []
  rw [storeWords, loadWords, List.append_assoc, List.append_assoc, h4, h6]
  simp only [hdrop, loadWord_storeWord, hlast]

theorem storeWords_loadWords {block : List UInt8} (h : block.length = 8) :
    storeWords order (loadWords order block) = block := by
  have h2 : ∀ i, i ≤ 6 → storeWord order (loadWord order (block.drop i)) =
      (block.drop i).take 2 := by
    intro i hi
    apply storeWord_loadWord
    rw [List.length_drop]
    omega
  have h0 := h2 0 (by omega)
  rw [List.drop_zero] at h0
  have hlast : (block.drop 6).take 2 = block.drop 6 := by
    apply List.take_of_length_le
    rw [List.length_drop]
    omega
  have hjoin : ∀ i, (block.drop i).take 2 ++ block.drop (i + 2) = block.drop i := by
    intro i
    rw [← List.drop_drop, List.take_append_drop]
  rw [storeWords, loadWords, h0, h2 2 (by omega), h2 4 (by omega), h2 6 (by omega), hlast,
    List.append_assoc, hjoin 4, List.append_assoc, hjoin 2, List.take_append_drop]

/-- The cipher on words, for the two keys in either order. -/
theorem rounds_inverse {EK DK : List UInt16} (h : ∀ s, rounds 8 DK (rounds 8 EK s) = s)
    (s : Words) : rounds 8 EK (rounds 8 DK s) = s := by
  have hleft : Function.LeftInverse (rounds 8 DK) (rounds 8 EK) := h
  have hbij := Finite.injective_iff_bijective.1 hleft.injective
  exact (hleft.rightInverse_of_surjective hbij.surjective) s

theorem ideaCipher_ideaCipher {key key' : List UInt16}
    (h : ∀ s, rounds 8 key' (rounds 8 key s) = s) {block : List UInt8} (hlen : block.length = 8) :
    ideaCipher order (ideaCipher order block key) key' = block := by
  rw [ideaCipher, ideaCipher, loadWords_storeWords, h, storeWords_loadWords order hlen]

/-- The inverted key exists for every expanded key, and the cipher with one of them undoes the
cipher with the other on every block, in both directions and whatever the host's byte order. -/
theorem ideaCipher_ideaInvertKey (EK : List UInt16) :
    ∃ DK, ideaInvertKey EK = some DK ∧ ∀ block : List UInt8, block.length = 8 →
      ideaCipher order (ideaCipher order block EK) DK = block ∧
        ideaCipher order (ideaCipher order block DK) EK = block := by
  obtain ⟨DK, hDK, hinv⟩ := ideaInvertKey_spec EK
  refine ⟨DK, hDK, fun block hlen => ⟨?_, ?_⟩⟩
  · exact ideaCipher_ideaCipher order hinv hlen
  · exact ideaCipher_ideaCipher order (rounds_inverse hinv) hlen

end Blocks

end MuduoServer.IdeaRounds
