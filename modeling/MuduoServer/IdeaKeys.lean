import MuduoServer.Idea
import MuduoServer.IdeaRounds
import Mathlib.Data.List.GetD

/-!
The key schedule of `ABCBank/Public/Idea.cpp`. The loop moves a pointer through the expanded
key while it writes; every word that it writes is made of two earlier ones. Bit for bit the
eight words of each row are those of the user's key, rotated to the left by 25 bits once
more than the row before.
-/
namespace MuduoServer.IdeaKeys

open Endian IdeaRounds

/-- `IDEAKEYLEN`. -/
def ideaKeyLen : ℕ := 52

/-- The array, the number of words that `EK` has been moved by, and `i`. -/
structure Expansion where
  words : List UInt16
  EK : ℕ
  i : ℕ

/-- `(userkey[0] << 8) + userkey[1]`. -/
def userWord (userkey : List UInt8) : UInt16 :=
  ((userkey.getD 0 0).toUInt16 <<< 8) + (userkey.getD 1 0).toUInt16

/-- The first loop, for the words from `j` on. -/
def expandUser : ℕ → ℕ → List UInt8 → List UInt16 → List UInt16
  | 0, _, _, words => words
  | n + 1, j, userkey, words =>
      expandUser n (j + 1) (userkey.drop 2) (words.set j (userWord userkey))

/-- One turn of the second loop. -/
def expandStep (s : Expansion) : Expansion :=
  let i := s.i + 1
  let word := s.words.getD (s.EK + (i &&& 7)) 0 <<< 9 |||
    s.words.getD (s.EK + ((i + 1) &&& 7)) 0 >>> 7
  { words := s.words.set (s.EK + (i + 7)) word
    EK := s.EK + (i &&& 8)
    i := i &&& 7 }

def expandRest : ℕ → Expansion → Expansion
  | 0, s => s
  | n + 1, s => expandStep (expandRest n s)

/-- `IdeaExpandKey` on an array that holds anything. -/
def ideaExpandKey (userkey : List UInt8) (words : List UInt16) : List UInt16 :=
  (expandRest (ideaKeyLen - 8) ⟨expandUser 8 0 userkey words, 0, 0⟩).words

/-- The bit at position `p` of the user's key, from the most significant one on. -/
def keyBit (userkey : List UInt8) (p : ℕ) : Bool :=
  (userkey.getD (p / 8) 0).toNat.testBit (7 - p % 8)

/-- The bit at position `b` of a word, from the most significant one on. -/
def wordBit (x : UInt16) (b : ℕ) : Bool := x.toBitVec.getLsbD (15 - b)

/-- Where the word with the index `j` starts in the key: row by row 25 bits further. -/
def start (j : ℕ) : ℕ := 25 * (j / 8) + 16 * (j % 8)

theorem start_row (r : ℕ) {c : ℕ} (hc : c < 8) : start (8 * r + c) = 25 * r + 16 * c := by
  unfold start
  omega

/-- The bits of a word are those of the key from `start j` on, around its end. -/
def Holds (userkey : List UInt8) (j : ℕ) (x : UInt16) : Prop :=
  ∀ b, b < 16 → wordBit x b = keyBit userkey ((start j + b) % 128)

/-- The word that a turn of the loop writes holds the bits that are due at its index. -/
theorem Holds.next {userkey : List UInt8} {r c : ℕ} {x y : UInt16} (hc : c < 8)
    (hx : Holds userkey (8 * r + (c + 1) % 8) x) (hy : Holds userkey (8 * r + (c + 2) % 8) y) :
    Holds userkey (8 * (r + 1) + c) (x <<< 9 ||| y >>> 7) := by
  intro b hb
  have hbits : (x <<< 9 ||| y >>> 7).toBitVec = x.toBitVec <<< 9 ||| y.toBitVec >>> 7 := rfl
  rw [wordBit, hbits]
  simp only [BitVec.getLsbD_or, BitVec.getLsbD_ushiftRight, BitVec.getLsbD_shiftLeft]
  by_cases hlow : b < 7
  · have hpos : (start (8 * r + (c + 1) % 8) + (b + 9)) % 128 =
        (start (8 * (r + 1) + c) + b) % 128 := by
      rw [start_row r (Nat.mod_lt _ (by omega)), start_row (r + 1) hc]
      omega
    have hbit := hx (b + 9) (by omega)
    rw [hpos, wordBit] at hbit
    have hfrom : 15 - (b + 9) = 15 - b - 9 := by omega
    have hout : y.toBitVec.getLsbD (7 + (15 - b)) = false := BitVec.getLsbD_of_ge _ _ (by omega)
    have hhigh : ¬ 15 - b < 9 := by omega
    have hfits : 15 - b < 16 := by omega
    rw [← hbit, hout, hfrom]
    simp [hhigh, hfits]
  · have hpos : (start (8 * r + (c + 2) % 8) + (b - 7)) % 128 =
        (start (8 * (r + 1) + c) + b) % 128 := by
      rw [start_row r (Nat.mod_lt _ (by omega)), start_row (r + 1) hc]
      omega
    have hbit := hy (b - 7) (by omega)
    rw [hpos, wordBit] at hbit
    have hfrom : 15 - (b - 7) = 7 + (15 - b) := by omega
    have hhigh : 15 - b < 9 := by omega
    rw [← hbit, hfrom]
    simp [hhigh]

theorem toNat_userWord (userkey : List UInt8) :
    (userWord userkey).toNat =
      2 ^ 8 * (userkey.getD 0 0).toNat + (userkey.getD 1 0).toNat := by
  have h0 := (userkey.getD 0 0).toNat_lt
  have h1 := (userkey.getD 1 0).toNat_lt
  have h8 : (8 : UInt16).toNat % 16 = 8 := rfl
  rw [userWord, UInt16.toNat_add, UInt16.toNat_shiftLeft, UInt8.toNat_toUInt16,
    UInt8.toNat_toUInt16, h8, Nat.shiftLeft_eq]
  omega

/-- The first row is the key itself. -/
theorem userWord_holds (userkey : List UInt8) {j : ℕ} (hj : j < 8) :
    Holds userkey j (userWord (userkey.drop (2 * j))) := by
  intro b hb
  have hstart : start j = 16 * j := by
    unfold start
    omega
  have hlt : ((userkey.drop (2 * j)).getD 1 0).toNat < 2 ^ 8 := UInt8.toNat_lt _
  have hmod : (start j + b) % 128 = 16 * j + b := by
    rw [hstart]
    omega
  have hget : ∀ k, (userkey.drop (2 * j)).getD k 0 = userkey.getD (2 * j + k) 0 := by
    intro k
    rw [List.getD_eq_getElem?_getD, List.getD_eq_getElem?_getD, List.getElem?_drop]
  rw [wordBit, ← BitVec.testBit_toNat, UInt16.toNat_toBitVec, toNat_userWord,
    Nat.testBit_two_pow_mul_add _ hlt, hmod, keyBit, hget, hget]
  by_cases hb8 : b < 8
  · have hidx : (16 * j + b) / 8 = 2 * j + 0 := by omega
    have hbit : 7 - (16 * j + b) % 8 = 15 - b - 8 := by omega
    rw [if_neg (by omega), hidx, hbit]
  · have hidx : (16 * j + b) / 8 = 2 * j + 1 := by omega
    have hbit : 7 - (16 * j + b) % 8 = 15 - b := by omega
    rw [if_pos (by omega), hidx, hbit]

/-- The words below `n` hold their bits, in an array of the length of an expanded key. -/
structure Filled (userkey : List UInt8) (n : ℕ) (words : List UInt16) : Prop where
  size : words.length = ideaKeyLen
  holds : ∀ j, j < n → Holds userkey j (words.getD j 0)

theorem Filled.set {userkey : List UInt8} {n : ℕ} {words : List UInt16}
    (h : Filled userkey n words) (hn : n < ideaKeyLen) {x : UInt16} (hx : Holds userkey n x) :
    Filled userkey (n + 1) (words.set n x) where
  size := by rw [List.length_set, h.size]
  holds := by
    intro j hj
    rw [List.getD_eq_getElem?_getD, List.getElem?_set]
    by_cases hjn : n = j
    · subst hjn
      rw [if_pos rfl, if_pos (by rw [h.size]; exact hn)]
      exact hx
    · rw [if_neg hjn, ← List.getD_eq_getElem?_getD]
      exact h.holds j (by omega)

theorem expandUser_filled {userkey : List UInt8} (n j : ℕ) {words : List UInt16}
    (h : Filled userkey j words) (hj : j + n ≤ 8) :
    Filled userkey (j + n) (expandUser n j (userkey.drop (2 * j)) words) := by
  induction n generalizing j words with
  | zero => exact h
  | succ n ih =>
    have hset := h.set (by unfold ideaKeyLen; omega) (userWord_holds userkey (by omega))
    have hnext := ih (j + 1) hset (by omega)
    have hsum : j + (n + 1) = j + 1 + n := by omega
    rw [expandUser, List.drop_drop, hsum]
    exact hnext

/-- After `n` turns of the second loop the pointer stands at the row before the one that is
being written. -/
structure Expanded (userkey : List UInt8) (n : ℕ) (s : Expansion) : Prop where
  filled : Filled userkey (n + 8) s.words
  pointer : s.EK = 8 * (n / 8)
  index : s.i = n % 8

theorem Expanded.step {userkey : List UInt8} {n : ℕ} {s : Expansion}
    (h : Expanded userkey n s) (hn : n + 8 < ideaKeyLen) :
    Expanded userkey (n + 1) (expandStep s) := by
  have hc : n % 8 < 8 := Nat.mod_lt _ (by omega)
  have hmask : ∀ k, k &&& 7 = k % 8 := fun k => Nat.and_two_pow_sub_one_eq_mod k 3
  have hindex : 8 * (n / 8 + 1) + n % 8 = n + 8 := by omega
  have hword := Holds.next hc
    (h.filled.holds (8 * (n / 8) + (n % 8 + 1) % 8) (by omega))
    (h.filled.holds (8 * (n / 8) + (n % 8 + 2) % 8) (by omega))
  rw [hindex] at hword
  have hwrite : 8 * (n / 8) + (n % 8 + 1 + 7) = n + 8 := by omega
  have hcarry : ∀ c, c < 8 → (c + 1) &&& 8 = 8 * ((c + 1) / 8) := by decide
  constructor
  · simp only [expandStep, h.pointer, h.index, hmask, hwrite]
    have hnext := h.filled.set hn hword
    rwa [show n + 8 + 1 = n + 1 + 8 by omega] at hnext
  · simp only [expandStep, h.pointer, h.index, hcarry _ hc]
    omega
  · simp only [expandStep, h.index, hmask]
    omega

theorem expandRest_expanded {userkey : List UInt8} {s : Expansion}
    (h : Expanded userkey 0 s) (n : ℕ) (hn : n + 8 ≤ ideaKeyLen) :
    Expanded userkey n (expandRest n s) := by
  induction n with
  | zero => exact h
  | succ n ih => exact (ih (by omega)).step (by omega)

theorem ideaExpandKey_filled (userkey : List UInt8) {words : List UInt16}
    (hwords : words.length = ideaKeyLen) :
    Filled userkey ideaKeyLen (ideaExpandKey userkey words) := by
  have hempty : Filled userkey 0 words := ⟨hwords, fun j hj => absurd hj (Nat.not_lt_zero j)⟩
  have huser := expandUser_filled 8 0 hempty (by omega)
  exact (expandRest_expanded (s := ⟨expandUser 8 0 userkey words, 0, 0⟩)
    ⟨huser, rfl, rfl⟩ (ideaKeyLen - 8) (by decide)).filled

/-- Bit `b` of word `j` of the expanded key is the bit of the user's key at the position
`25 * (j / 8) + 16 * (j % 8) + b`, around the end of the key, whatever the array held. -/
theorem ideaExpandKey_bits (userkey : List UInt8) (words : List UInt16)
    (hwords : words.length = ideaKeyLen) :
    (ideaExpandKey userkey words).length = ideaKeyLen ∧
      ∀ j, j < ideaKeyLen → ∀ b, b < 16 →
        wordBit ((ideaExpandKey userkey words).getD j 0) b =
          keyBit userkey ((25 * (j / 8) + 16 * (j % 8) + b) % 128) :=
  ⟨(ideaExpandKey_filled userkey hwords).size, (ideaExpandKey_filled userkey hwords).holds⟩

def blankKey : List UInt16 := List.replicate ideaKeyLen 0

/-- Word 8 starts at bit 25 of the key. -/
theorem ideaExpandKey_word_eight :
    wordBit ((ideaExpandKey [1, 2, 3, 4] blankKey).getD 8 0) 7 = keyBit [1, 2, 3, 4] 32 :=
  (ideaExpandKey_bits [1, 2, 3, 4] blankKey List.length_replicate).2 8 (by decide) 7 (by decide)

theorem Holds.unique {userkey : List UInt8} {j : ℕ} {x y : UInt16} (hx : Holds userkey j x)
    (hy : Holds userkey j y) : x = y := by
  apply UInt16.toBitVec_inj.1
  apply BitVec.eq_of_getLsbD_eq
  intro i hi
  have hbit := (hx (15 - i) (by omega)).trans (hy (15 - i) (by omega)).symm
  rwa [wordBit, wordBit, show 15 - (15 - i) = i by omega] at hbit

/-- What the array of a context held before does not matter. -/
theorem ideaExpandKey_words (userkey : List UInt8) {words words' : List UInt16}
    (h : words.length = ideaKeyLen) (h' : words'.length = ideaKeyLen) :
    ideaExpandKey userkey words = ideaExpandKey userkey words' := by
  have hf := ideaExpandKey_filled userkey h
  have hf' := ideaExpandKey_filled userkey h'
  apply List.ext_getElem (hf.size.trans hf'.size.symm)
  intro j hj hj'
  have hlt : j < ideaKeyLen := Nat.lt_of_lt_of_eq hj hf.size
  have heq := (hf.holds j hlt).unique (hf'.holds j hlt)
  rw [List.getD_eq_getElem _ _ hj, List.getD_eq_getElem _ _ hj'] at heq
  exact heq

/-- `Idea::Crypt` with its own key schedule and cipher. -/
def crypt (order : HostOrder) (cfb : IdeaCfbContext (List UInt16)) (key src : List UInt8)
    (encrypt : Bool) : List UInt8 :=
  Idea.crypt (fun key => ideaExpandKey key blankKey) (ideaCipher order) cfb
    key src encrypt

example : ideaCipher .little [0, 0, 0, 1, 0, 2, 0, 3]
    (ideaExpandKey [0, 1, 0, 2, 0, 3, 0, 4, 0, 5, 0, 6, 0, 7, 0, 8] blankKey) =
      [0x11, 0xfb, 0xed, 0x2b, 0x01, 0x98, 0x6d, 0xe5] := by
  decide +kernel

end MuduoServer.IdeaKeys
