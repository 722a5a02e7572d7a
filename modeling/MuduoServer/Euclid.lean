import Mathlib.Data.Nat.ModEq
import Mathlib.Tactic.Ring

/-!
The extended Euclidean algorithm on natural numbers, where both remainders carry a
coefficient without a sign: the left one is `t₀` times the number to be inverted, the right
one is minus `t₁` times this number. The coefficients never outgrow the modulus. A
nonzero residue that is written below `n` with 0 for `n` itself is the one of its class.
-/
namespace MuduoServer.Euclid

/-- The remainders `x` and `y` of `m` and `a`, with the coefficients of `a` in them. -/
structure Bezout (m a x y t₀ t₁ : ℕ) : Prop where
  total : x * t₁ + y * t₀ = m
  left : t₀ * a ≡ x [MOD m]
  right : y + t₁ * a ≡ 0 [MOD m]
  coprime : Nat.Coprime x y

variable {m a x y t₀ t₁ : ℕ}

theorem Bezout.start (hcop : Nat.Coprime a m) : Bezout m a a (m % a) 1 (m / a) where
  total := by
    rw [Nat.mul_one]
    exact Nat.div_add_mod m a
  left := by rw [Nat.one_mul]
  right := by
    have hm : m % a + m / a * a = m := by
      rw [Nat.mul_comm]
      exact Nat.mod_add_div m a
    rw [hm]
    exact (Nat.modEq_zero_iff_dvd).2 dvd_rfl
  coprime := by
    rw [Nat.coprime_comm, Nat.Coprime, ← Nat.gcd_rec]
    exact hcop

/-- The left remainder is divided by the right one. -/
theorem Bezout.divLeft (h : Bezout m a x y t₀ t₁) :
    Bezout m a (x % y) y (t₀ + x / y * t₁) t₁ where
  total := by
    have hx : x % y + y * (x / y) = x := Nat.mod_add_div x y
    calc x % y * t₁ + y * (t₀ + x / y * t₁)
        = (x % y + y * (x / y)) * t₁ + y * t₀ := by ring
      _ = x * t₁ + y * t₀ := by rw [hx]
      _ = m := h.total
  left := by
    have hx : x % y + y * (x / y) = x := Nat.mod_add_div x y
    have hy : x / y * (y + t₁ * a) ≡ x / y * 0 [MOD m] := h.right.mul_left _
    -- both sides with `x / y` times the right remainder added
    apply Nat.ModEq.add_right_cancel' (y * (x / y))
    calc (t₀ + x / y * t₁) * a + y * (x / y)
        = t₀ * a + x / y * (y + t₁ * a) := by ring
      _ ≡ x + x / y * 0 [MOD m] := h.left.add hy
      _ = x % y + y * (x / y) := by rw [Nat.mul_zero, Nat.add_zero, hx]
  right := h.right
  coprime := by
    rw [Nat.Coprime, ← Nat.gcd_rec, Nat.gcd_comm]
    exact h.coprime

/-- The right remainder is divided by the left one. -/
theorem Bezout.divRight (h : Bezout m a x y t₀ t₁) :
    Bezout m a x (y % x) t₀ (t₁ + y / x * t₀) where
  total := by
    have hy : y % x + x * (y / x) = y := Nat.mod_add_div y x
    calc x * (t₁ + y / x * t₀) + y % x * t₀
        = x * t₁ + (y % x + x * (y / x)) * t₀ := by ring
      _ = x * t₁ + y * t₀ := by rw [hy]
      _ = m := h.total
  left := h.left
  right := by
    have hy : y % x + x * (y / x) = y := Nat.mod_add_div y x
    have hx : y / x * (t₀ * a) ≡ y / x * x [MOD m] := h.left.mul_left _
    calc y % x + (t₁ + y / x * t₀) * a
        = y % x + t₁ * a + y / x * (t₀ * a) := by ring
      _ ≡ y % x + t₁ * a + y / x * x [MOD m] := hx.add_left _
      _ = y % x + x * (y / x) + t₁ * a := by ring
      _ = y + t₁ * a := by rw [hy]
      _ ≡ 0 [MOD m] := h.right
  coprime := by
    rw [Nat.coprime_comm, Nat.Coprime, ← Nat.gcd_rec]
    exact h.coprime

/-- A left remainder of 1 has the inverse for its coefficient. -/
theorem Bezout.inverse_left (h : Bezout m a 1 y t₀ t₁) : t₀ * a ≡ 1 [MOD m] := h.left

/-- A right remainder of 1 has the negative of the inverse. -/
theorem Bezout.inverse_right (h : Bezout m a x 1 t₀ t₁) (ht : t₁ ≤ m) :
    (m - t₁) * a ≡ 1 [MOD m] := by
  apply Nat.ModEq.add_right_cancel' (t₁ * a)
  calc (m - t₁) * a + t₁ * a
      = m * a := by rw [← Nat.add_mul, Nat.sub_add_cancel ht]
    _ ≡ 0 [MOD m] := (Nat.modEq_zero_iff_dvd).2 (dvd_mul_right m a)
    _ ≡ 1 + t₁ * a [MOD m] := h.right.symm

theorem Bezout.left_pos (h : Bezout m a x y t₀ t₁) (hy : y ≠ 1) : 0 < x := by
  apply Nat.pos_of_ne_zero
  intro hx
  apply hy
  have hcop := h.coprime
  rwa [hx, Nat.coprime_zero_left] at hcop

theorem Bezout.right_pos (h : Bezout m a x y t₀ t₁) (hx : x ≠ 1) : 0 < y := by
  apply Nat.pos_of_ne_zero
  intro hy
  apply hx
  have hcop := h.coprime
  rwa [hy, Nat.coprime_zero_right] at hcop

theorem Bezout.mul_left_le (h : Bezout m a x y t₀ t₁) : x * t₁ ≤ m := by
  have ht := h.total
  omega

theorem Bezout.mul_right_le (h : Bezout m a x y t₀ t₁) : y * t₀ ≤ m := by
  have ht := h.total
  omega

/-- The residue a word stands for: the word itself, and `n` for 0. -/
def residue (n x : ℕ) : ℕ := if x = 0 then n else x

theorem residue_of_pos (n : ℕ) (hx : x ≠ 0) : residue n x = x := by
  rw [residue, if_neg hx]

theorem residue_le (n : ℕ) (hx : x < n) : residue n x ≤ n := by
  unfold residue
  split <;> omega

/-- Words below `n` that stand for one class modulo `n + 1` are equal. -/
theorem residue_injective {n : ℕ} (hx : x < n) (hy : y < n)
    (h : residue n x ≡ residue n y [MOD n + 1]) : x = y := by
  have heq : residue n x = residue n y :=
    Nat.ModEq.eq_of_lt_of_lt h (Nat.lt_succ_of_le (residue_le n hx))
      (Nat.lt_succ_of_le (residue_le n hy))
  unfold residue at heq
  split at heq <;> split at heq <;> omega

/-- A number with the digits `lo` and `hi` to the base `n` stands for their difference. -/
theorem residue_digits {n lo hi : ℕ} (hlo : lo < n) (hhi : hi < n) (hne : lo ≠ hi) :
    residue n ((lo + (if lo < hi then n + 1 else 0) - hi) % n) ≡ lo + n * hi [MOD n + 1] := by
  apply Nat.ModEq.add_right_cancel' ((n + 1) * hi)
  have hsplit : residue n ((lo + (if lo < hi then n + 1 else 0) - hi) % n) + hi =
      lo + (if lo < hi then n + 1 else 0) := by
    unfold residue
    by_cases hlt : lo < hi
    · rw [if_pos hlt]
      by_cases hlast : lo + 1 = hi
      · have hval : lo + (n + 1) - hi = n := by omega
        rw [hval, Nat.mod_self, if_pos rfl]
        omega
      · have hval : (lo + (n + 1) - hi) % n = lo + (n + 1) - hi := Nat.mod_eq_of_lt (by omega)
        rw [hval, if_neg (by omega)]
        omega
    · rw [if_neg hlt]
      have hval : (lo + 0 - hi) % n = lo - hi := Nat.mod_eq_of_lt (by omega)
      rw [hval, if_neg (by omega)]
      omega
  have hcarry : (if lo < hi then n + 1 else 0) ≡ 0 [MOD n + 1] := by
    split
    · exact (Nat.modEq_zero_iff_dvd).2 dvd_rfl
    · rfl
  calc residue n ((lo + (if lo < hi then n + 1 else 0) - hi) % n) + (n + 1) * hi
      = residue n ((lo + (if lo < hi then n + 1 else 0) - hi) % n) + hi + n * hi := by ring
    _ = lo + (if lo < hi then n + 1 else 0) + n * hi := by rw [hsplit]
    _ ≡ lo + 0 + n * hi [MOD n + 1] := (hcarry.add_left lo).add_right _
    _ ≡ lo + n * hi + (n + 1) * hi [MOD n + 1] := by
        rw [Nat.add_zero]
        exact (Nat.modEq_zero_iff_dvd.2 (dvd_mul_right (n + 1) hi)).symm.add_left _

end MuduoServer.Euclid
