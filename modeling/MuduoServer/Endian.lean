import Mathlib.Data.List.Basic
import Mathlib.Tactic.Ring

/-!
Integers of `k` bytes in memory, on hosts of either byte order. The conversion
`hostToNetwork` is the identity on a big-endian host and a byte swap on a
little-endian one; what it leaves in memory is the big-endian text of the value
on both.
-/
namespace MuduoServer.Endian

inductive HostOrder
  | little
  | big
  deriving DecidableEq

/-- The `k` low bytes of `x`, least significant first. -/
def leBytes : ℕ → ℕ → List UInt8
  | 0, _ => []
  | k + 1, x => UInt8.ofNat (x % 256) :: leBytes k (x / 256)

def ofLeBytes : List UInt8 → ℕ
  | [] => 0
  | b :: rest => b.toNat + 256 * ofLeBytes rest

/-- The bytes of an integer at increasing addresses. -/
def memory (order : HostOrder) (k : ℕ) (x : BitVec (8 * k)) : List UInt8 :=
  match order with
  | .little => leBytes k x.toNat
  | .big => (leBytes k x.toNat).reverse

def beBytes (k : ℕ) (x : BitVec (8 * k)) : List UInt8 := (leBytes k x.toNat).reverse

/-- `htobe16`, `htobe32` and `htobe64`. -/
def hostToNetwork (order : HostOrder) (k : ℕ) (x : BitVec (8 * k)) : BitVec (8 * k) :=
  match order with
  | .little => BitVec.ofNat (8 * k) (ofLeBytes (leBytes k x.toNat).reverse)
  | .big => x

/-- `be16toh`, `be32toh` and `be64toh`: the same bytes change places. -/
def networkToHost (order : HostOrder) (k : ℕ) (x : BitVec (8 * k)) : BitVec (8 * k) :=
  hostToNetwork order k x

/-- The integer at increasing addresses. -/
def load (order : HostOrder) (k : ℕ) (bytes : List UInt8) : BitVec (8 * k) :=
  match order with
  | .little => BitVec.ofNat (8 * k) (ofLeBytes bytes)
  | .big => BitVec.ofNat (8 * k) (ofLeBytes bytes.reverse)

theorem length_leBytes (k x : ℕ) : (leBytes k x).length = k := by
  induction k generalizing x with
  | zero => rfl
  | succ k ih => simp [leBytes, ih]

theorem length_beBytes (k : ℕ) (x : BitVec (8 * k)) : (beBytes k x).length = k := by
  simp [beBytes, length_leBytes]

theorem ofLeBytes_lt (bytes : List UInt8) : ofLeBytes bytes < 2 ^ (8 * bytes.length) := by
  induction bytes with
  | nil => simp [ofLeBytes]
  | cons b rest ih =>
    have hb : b.toNat < 256 := b.toNat_lt
    have hpow : 2 ^ (8 * (b :: rest).length) = 256 * 2 ^ (8 * rest.length) := by
      rw [List.length_cons, Nat.mul_add, Nat.pow_add]
      ring
    rw [hpow, ofLeBytes]
    omega

theorem leBytes_ofLeBytes (bytes : List UInt8) :
    leBytes bytes.length (ofLeBytes bytes) = bytes := by
  induction bytes with
  | nil => rfl
  | cons b rest ih =>
    have hb : b.toNat < 256 := b.toNat_lt
    have hmod : (b.toNat + 256 * ofLeBytes rest) % 256 = b.toNat := by omega
    have hdiv : (b.toNat + 256 * ofLeBytes rest) / 256 = ofLeBytes rest := by omega
    simp only [List.length_cons, leBytes, ofLeBytes, hmod, hdiv, ih, UInt8.ofNat_toNat]

theorem ofLeBytes_leBytes (k x : ℕ) : ofLeBytes (leBytes k x) = x % 2 ^ (8 * k) := by
  induction k generalizing x with
  | zero => simp [leBytes, ofLeBytes, Nat.mod_one]
  | succ k ih =>
    have hbyte : (UInt8.ofNat (x % 256)).toNat = x % 256 := by simp
    have hpow : 2 ^ (8 * (k + 1)) = 256 * 2 ^ (8 * k) := by
      rw [Nat.mul_add, Nat.pow_add]
      ring
    rw [leBytes, ofLeBytes, ih, hbyte, hpow, Nat.mod_mul]

theorem ofNat_ofLeBytes_leBytes (k : ℕ) (x : BitVec (8 * k)) :
    BitVec.ofNat (8 * k) (ofLeBytes (leBytes k x.toNat)) = x := by
  rw [ofLeBytes_leBytes, Nat.mod_eq_of_lt x.isLt, BitVec.ofNat_toNat, BitVec.setWidth_eq]

/-- Bytes that are taken for an integer of their width are the bytes of this integer. -/
theorem leBytes_ofNat_ofLeBytes {k : ℕ} {bytes : List UInt8} (h : bytes.length = k) :
    leBytes k (BitVec.ofNat (8 * k) (ofLeBytes bytes)).toNat = bytes := by
  subst h
  rw [BitVec.toNat_ofNat, Nat.mod_eq_of_lt (ofLeBytes_lt bytes), leBytes_ofLeBytes]

theorem length_memory (order : HostOrder) (k : ℕ) (x : BitVec (8 * k)) :
    (memory order k x).length = k := by
  cases order <;> simp [memory, length_leBytes]

theorem memory_one (order : HostOrder) (x : BitVec 8) : memory order 1 x = beBytes 1 x := by
  cases order <;> simp [memory, beBytes, leBytes]

theorem load_memory (order : HostOrder) (k : ℕ) (x : BitVec (8 * k)) :
    load order k (memory order k x) = x := by
  cases order with
  | little => exact ofNat_ofLeBytes_leBytes k x
  | big =>
    rw [memory, load, List.reverse_reverse]
    exact ofNat_ofLeBytes_leBytes k x

/-- Storing what has been loaded leaves the bytes as they are. -/
theorem memory_load (order : HostOrder) {k : ℕ} {bytes : List UInt8} (h : bytes.length = k) :
    memory order k (load order k bytes) = bytes := by
  cases order with
  | little => exact leBytes_ofNat_ofLeBytes h
  | big =>
    rw [load, memory, leBytes_ofNat_ofLeBytes (by rw [List.length_reverse, h]),
      List.reverse_reverse]

/-- Network order in memory is big-endian, whatever the order of the host. -/
theorem memory_hostToNetwork (order : HostOrder) (k : ℕ) (x : BitVec (8 * k)) :
    memory order k (hostToNetwork order k x) = beBytes k x := by
  cases order with
  | big => rfl
  | little =>
    have hlen : ((leBytes k x.toNat).reverse).length = k := by
      rw [List.length_reverse, length_leBytes]
    simp only [memory, hostToNetwork, beBytes, leBytes_ofNat_ofLeBytes hlen]

/-- A big-endian integer is read back by a host of either order. -/
theorem networkToHost_load (order : HostOrder) (k : ℕ) (x : BitVec (8 * k)) :
    networkToHost order k (load order k (beBytes k x)) = x := by
  cases order with
  | big =>
    rw [networkToHost, hostToNetwork, load, beBytes, List.reverse_reverse]
    exact ofNat_ofLeBytes_leBytes k x
  | little =>
    have hlen : ((leBytes k x.toNat).reverse).length = k := by
      rw [List.length_reverse, length_leBytes]
    simp only [networkToHost, hostToNetwork, load, beBytes, leBytes_ofNat_ofLeBytes hlen,
      List.reverse_reverse]
    exact ofNat_ofLeBytes_leBytes k x

/-- What is loaded is the big-endian value of the bytes. -/
theorem networkToHost_load_eq (order : HostOrder) (k : ℕ) (bytes : List UInt8)
    (h : bytes.length = k) :
    networkToHost order k (load order k bytes) = BitVec.ofNat (8 * k) (ofLeBytes bytes.reverse) := by
  have hbytes : bytes = beBytes k (BitVec.ofNat (8 * k) (ofLeBytes bytes.reverse)) := by
    rw [beBytes, leBytes_ofNat_ofLeBytes (List.length_reverse.trans h), List.reverse_reverse]
  conv_lhs => rw [hbytes]
  exact networkToHost_load order k _

end MuduoServer.Endian
