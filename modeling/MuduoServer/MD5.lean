import MuduoServer.Absorb
import MuduoServer.BankPackets
import MuduoServer.Block
import MuduoServer.Endian

/-!
`MD5` of `ABCBank/Public`. A context holds the chaining words, the bytes that do not fill a
block yet, and the number of bits in two words. However a message is cut into updates, the
digest is that of the padded message: a bit, zeros up to 8 bytes before the end of a block,
and the number of bits modulo 2 to the 64th.
-/
namespace MuduoServer.MD5

open Absorb Block Endian

/-- `buf` of the context. -/
structure Chain where
  a : UInt32
  b : UInt32
  c : UInt32
  d : UInt32
  deriving DecidableEq

def f1 (x y z : UInt32) : UInt32 := z ^^^ (x &&& (y ^^^ z))

def f2 (x y z : UInt32) : UInt32 := f1 z x y

def f3 (x y z : UInt32) : UInt32 := x ^^^ y ^^^ z

def f4 (x y z : UInt32) : UInt32 := y ^^^ (x ||| ~~~z)

/-- `MD5STEP`, as the value that it leaves in `w`. -/
def md5Step (f : UInt32 → UInt32 → UInt32 → UInt32) (w x y z data s : UInt32) : UInt32 :=
  let w := w + (f x y z + data)
  let w := w <<< s ||| w >>> (32 - s)
  w + x

/-- The arguments of one step: the function, the index into `in`, what is added, the shift. -/
structure StepArgs where
  f : UInt32 → UInt32 → UInt32 → UInt32
  k : ℕ
  data : UInt32
  s : UInt32

def steps : List StepArgs :=
  [
    ⟨f1, 0, 0xd76aa478, 7⟩, ⟨f1, 1, 0xe8c7b756, 12⟩,
    ⟨f1, 2, 0x242070db, 17⟩, ⟨f1, 3, 0xc1bdceee, 22⟩,
    ⟨f1, 4, 0xf57c0faf, 7⟩, ⟨f1, 5, 0x4787c62a, 12⟩,
    ⟨f1, 6, 0xa8304613, 17⟩, ⟨f1, 7, 0xfd469501, 22⟩,
    ⟨f1, 8, 0x698098d8, 7⟩, ⟨f1, 9, 0x8b44f7af, 12⟩,
    ⟨f1, 10, 0xffff5bb1, 17⟩, ⟨f1, 11, 0x895cd7be, 22⟩,
    ⟨f1, 12, 0x6b901122, 7⟩, ⟨f1, 13, 0xfd987193, 12⟩,
    ⟨f1, 14, 0xa679438e, 17⟩, ⟨f1, 15, 0x49b40821, 22⟩,
    ⟨f2, 1, 0xf61e2562, 5⟩, ⟨f2, 6, 0xc040b340, 9⟩,
    ⟨f2, 11, 0x265e5a51, 14⟩, ⟨f2, 0, 0xe9b6c7aa, 20⟩,
    ⟨f2, 5, 0xd62f105d, 5⟩, ⟨f2, 10, 0x02441453, 9⟩,
    ⟨f2, 15, 0xd8a1e681, 14⟩, ⟨f2, 4, 0xe7d3fbc8, 20⟩,
    ⟨f2, 9, 0x21e1cde6, 5⟩, ⟨f2, 14, 0xc33707d6, 9⟩,
    ⟨f2, 3, 0xf4d50d87, 14⟩, ⟨f2, 8, 0x455a14ed, 20⟩,
    ⟨f2, 13, 0xa9e3e905, 5⟩, ⟨f2, 2, 0xfcefa3f8, 9⟩,
    ⟨f2, 7, 0x676f02d9, 14⟩, ⟨f2, 12, 0x8d2a4c8a, 20⟩,
    ⟨f3, 5, 0xfffa3942, 4⟩, ⟨f3, 8, 0x8771f681, 11⟩,
    ⟨f3, 11, 0x6d9d6122, 16⟩, ⟨f3, 14, 0xfde5380c, 23⟩,
    ⟨f3, 1, 0xa4beea44, 4⟩, ⟨f3, 4, 0x4bdecfa9, 11⟩,
    ⟨f3, 7, 0xf6bb4b60, 16⟩, ⟨f3, 10, 0xbebfbc70, 23⟩,
    ⟨f3, 13, 0x289b7ec6, 4⟩, ⟨f3, 0, 0xeaa127fa, 11⟩,
    ⟨f3, 3, 0xd4ef3085, 16⟩, ⟨f3, 6, 0x04881d05, 23⟩,
    ⟨f3, 9, 0xd9d4d039, 4⟩, ⟨f3, 12, 0xe6db99e5, 11⟩,
    ⟨f3, 15, 0x1fa27cf8, 16⟩, ⟨f3, 2, 0xc4ac5665, 23⟩,
    ⟨f4, 0, 0xf4292244, 6⟩, ⟨f4, 7, 0x432aff97, 10⟩,
    ⟨f4, 14, 0xab9423a7, 15⟩, ⟨f4, 5, 0xfc93a039, 21⟩,
    ⟨f4, 12, 0x655b59c3, 6⟩, ⟨f4, 3, 0x8f0ccc92, 10⟩,
    ⟨f4, 10, 0xffeff47d, 15⟩, ⟨f4, 1, 0x85845dd1, 21⟩,
    ⟨f4, 8, 0x6fa87e4f, 6⟩, ⟨f4, 15, 0xfe2ce6e0, 10⟩,
    ⟨f4, 6, 0xa3014314, 15⟩, ⟨f4, 13, 0x4e0811a1, 21⟩,
    ⟨f4, 4, 0xf7537e82, 6⟩, ⟨f4, 11, 0xbd3af235, 10⟩,
    ⟨f4, 2, 0x2ad7d2bb, 15⟩, ⟨f4, 9, 0xeb86d391, 21⟩]

section Order

variable (order : HostOrder)

/-- `in[k]` of the block. -/
def word (block : List UInt8) (k : ℕ) : UInt32 :=
  UInt32.ofBitVec (load order 4 (slice block (4 * k) (4 * k + 4)))

/-- The variable that is set is the next one each time: `a`, `d`, `c`, `b` and again `a`. -/
def stepWith (block : List UInt8) (v : Chain) (st : StepArgs) : Chain :=
  ⟨v.d, md5Step st.f v.a v.b v.c v.d (word order block st.k + st.data) st.s, v.b, v.c⟩

def md5Transform (buf : Chain) (block : List UInt8) : Chain :=
  let v := steps.foldl (stepWith order block) buf
  ⟨buf.a + v.a, buf.b + v.b, buf.c + v.c, buf.d + v.d⟩

structure MD5Context where
  buf : Chain
  bits0 : UInt32
  bits1 : UInt32
  block : List UInt8

def initial : Chain := ⟨0x67452301, 0xefcdab89, 0x98badcfe, 0x10325476⟩

/-- The block of a context is not initialized. -/
def md5Init (ctx : MD5Context) : MD5Context :=
  { ctx with buf := initial, bits0 := 0, bits1 := 0 }

/-- The loop over whole blocks, and the copy of what remains. -/
def updateBlocks (buf : Chain) (block data : List UInt8) : Chain × List UInt8 :=
  if 64 ≤ data.length then
    let block := overwrite block 0 (data.take 64)
    updateBlocks (md5Transform order buf block) block (data.drop 64)
  else (buf, overwrite block 0 data)
termination_by data.length
decreasing_by
  rw [List.length_drop]
  omega

def md5Update (ctx : MD5Context) (data : List UInt8) : MD5Context :=
  let len := UInt32.ofNat data.length
  let t := ctx.bits0
  let bits0 := t + len <<< 3
  let bits1 := (if bits0 < t then ctx.bits1 + 1 else ctx.bits1) + len >>> 29
  let t := ((t >>> 3) &&& 0x3f).toNat
  if t ≠ 0 then
    if data.length < 64 - t then ⟨ctx.buf, bits0, bits1, overwrite ctx.block t data⟩
    else
      let block := overwrite ctx.block t (data.take (64 - t))
      let r := updateBlocks order (md5Transform order ctx.buf block) block (data.drop (64 - t))
      ⟨r.1, bits0, bits1, r.2⟩
  else
    let r := updateBlocks order ctx.buf ctx.block data
    ⟨r.1, bits0, bits1, r.2⟩

/-- A word as it stands in memory. -/
def wordBytes (x : UInt32) : List UInt8 := memory order 4 x.toBitVec

def chainBytes (v : Chain) : List UInt8 :=
  wordBytes order v.a ++ wordBytes order v.b ++ wordBytes order v.c ++ wordBytes order v.d

/-- `memset` to 0. -/
def clear (block : List UInt8) (i n : ℕ) : List UInt8 := overwrite block i (List.replicate n 0)

/-- What is written to `digest`. -/
def md5Final (ctx : MD5Context) : List UInt8 :=
  let count := ((ctx.bits0 >>> 3) &&& 0x3F).toNat
  let block := overwrite ctx.block count [0x80]
  let p := count + 1
  let count := 64 - 1 - count
  let r :=
    if count < 8 then
      let block := clear block p count
      (md5Transform order ctx.buf block, clear block 0 56)
    else (ctx.buf, clear block p (count - 8))
  let block := overwrite r.2 56 (wordBytes order ctx.bits0)
  let block := overwrite block 60 (wordBytes order ctx.bits1)
  chainBytes order (md5Transform order r.1 block)

def md5Make (ctx : MD5Context) (data : List UInt8) : List UInt8 :=
  md5Final order (md5Update order (md5Init ctx) data)

/-- The bits of a message, in the two words in which a context counts them. -/
def lengthBytes (m : List UInt8) : List UInt8 :=
  wordBytes order (UInt32.ofNat (8 * m.length)) ++
    wordBytes order (UInt32.ofNat (8 * m.length / 2 ^ 32))

/-- A bit, zeros up to 8 bytes before the end of a block, and the number of bits. -/
def padding (m : List UInt8) : List UInt8 :=
  [0x80] ++ List.replicate ((119 - m.length % 64) % 64) 0 ++ lengthBytes order m

/-- The whole blocks of the padded message folded, with nothing that is left of it. -/
def digest (m : List UInt8) : List UInt8 :=
  chainBytes order (absorb 64 (md5Transform order) initial (m ++ padding order m)).1

end Order

/-- A block that starts with `pre`; its other bytes may be anything. -/
structure Starts (block pre : List UInt8) : Prop where
  size : block.length = 64
  start : block.take pre.length = pre

theorem Starts.nil {block : List UInt8} (h : block.length = 64) : Starts block [] :=
  ⟨h, List.take_zero⟩

theorem Starts.length_le {block pre : List UInt8} (h : Starts block pre) : pre.length ≤ 64 := by
  rw [← h.start, List.length_take, h.size]
  omega

theorem Starts.write {block pre : List UInt8} (h : Starts block pre) (xs : List UInt8)
    (hlen : pre.length + xs.length ≤ 64) :
    Starts (overwrite block pre.length xs) (pre ++ xs) where
  size := by rw [length_overwrite _ _ _ (by rw [h.size]; exact hlen), h.size]
  start := by
    rw [List.length_append, take_overwrite _ _ (by rw [h.size]; omega), h.start]

theorem Starts.clear {block pre : List UInt8} {n : ℕ} (h : Starts block pre)
    (hlen : pre.length + n ≤ 64) :
    Starts (clear block pre.length n) (pre ++ List.replicate n 0) :=
  h.write _ (by rw [List.length_replicate]; exact hlen)

theorem Starts.full {block pre : List UInt8} (h : Starts block pre) (hlen : pre.length = 64) :
    block = pre := by
  have hstart := h.start
  rwa [hlen, ← h.size, List.take_length] at hstart

section Streams

variable {order : HostOrder}

theorem updateBlocks_absorb (order : HostOrder) (buf : Chain) {block : List UInt8} (data : List UInt8)
    (h : block.length = 64) :
    (updateBlocks order buf block data).1 = (absorb 64 (md5Transform order) buf data).1 ∧
      Starts (updateBlocks order buf block data).2
        (absorb 64 (md5Transform order) buf data).2 := by
  fun_induction updateBlocks order buf block data with
  | case1 buf block data hlong block' ih =>
    have htake : (data.take 64).length = 64 := List.length_take_of_le hlong
    have hwrite := (Starts.nil h).write (data.take 64) (by simp [htake])
    have hfull : block' = data.take 64 := hwrite.full htake
    rw [absorb_block (by omega) hlong, ← hfull]
    exact ih hwrite.size
  | case2 buf block data hshort =>
    rw [absorb_short (by omega)]
    exact ⟨rfl, (Starts.nil h).write data (by simp only [List.length_nil]; omega)⟩

/-- The context after the message `m`. -/
structure Holds (order : HostOrder) (m : List UInt8) (ctx : MD5Context) : Prop where
  chain : ctx.buf = (absorb 64 (md5Transform order) initial m).1
  rest : Starts ctx.block (absorb 64 (md5Transform order) initial m).2
  bits : ctx.bits0.toNat + 2 ^ 32 * ctx.bits1.toNat = 8 * m.length % 2 ^ 64

theorem Holds.init {ctx : MD5Context} (h : ctx.block.length = 64) :
    Holds order [] (md5Init ctx) where
  chain := by rw [absorb_short (by simp)]; rfl
  rest := by
    rw [absorb_short (by simp)]
    exact Starts.nil h
  bits := rfl

theorem Holds.count {m : List UInt8} {ctx : MD5Context} (h : Holds order m ctx) :
    ((ctx.bits0 >>> 3) &&& 0x3f).toNat = (absorb 64 (md5Transform order) initial m).2.length := by
  have hlt := ctx.bits0.toNat_lt
  have hbits := h.bits
  have hshift : (3 : UInt32).toNat % 32 = 3 := rfl
  have hmask : (0x3f : UInt32).toNat = 2 ^ 6 - 1 := rfl
  rw [length_absorb (by omega), UInt32.toNat_and, UInt32.toNat_shiftRight, hshift, hmask,
    Nat.and_two_pow_sub_one_eq_mod, Nat.shiftRight_eq_div_pow]
  omega

/-- The two words count the bits of what comes in, with the carry from one to the other. -/
theorem bits_add {t b len : UInt32} {n k : ℕ} (h : t.toNat + 2 ^ 32 * b.toNat = n % 2 ^ 64)
    (hlen : len.toNat = k) :
    (t + len <<< 3).toNat +
        2 ^ 32 * ((if t + len <<< 3 < t then b + 1 else b) + len >>> 29).toNat =
      (n + 8 * k) % 2 ^ 64 := by
  subst hlen
  have ht := t.toNat_lt
  have hb := b.toNat_lt
  have hl := len.toNat_lt
  have h3 : (3 : UInt32).toNat % 32 = 3 := rfl
  have h29 : (29 : UInt32).toNat % 32 = 29 := rfl
  have hlow : (t + len <<< 3).toNat = (t.toNat + 8 * len.toNat) % 2 ^ 32 := by
    rw [UInt32.toNat_add, UInt32.toNat_shiftLeft, h3, Nat.shiftLeft_eq]
    omega
  have hhigh : (len >>> 29).toNat = len.toNat / 2 ^ 29 := by
    rw [UInt32.toNat_shiftRight, h29, Nat.shiftRight_eq_div_pow]
  have hone : (1 : UInt32).toNat = 1 := rfl
  rw [hlow, UInt32.toNat_add, hhigh]
  by_cases hcarry : t + len <<< 3 < t
  · have hlt : (t.toNat + 8 * len.toNat) % 2 ^ 32 < t.toNat := by
      rw [← hlow]
      exact UInt32.lt_iff_toNat_lt.1 hcarry
    rw [if_pos hcarry, UInt32.toNat_add, hone]
    omega
  · have hle : ¬ (t.toNat + 8 * len.toNat) % 2 ^ 32 < t.toNat := by
      rw [← hlow]
      exact fun hlt => hcarry (UInt32.lt_iff_toNat_lt.2 hlt)
    rw [if_neg hcarry]
    omega

theorem Holds.update {m data : List UInt8} {ctx : MD5Context} (h : Holds order m ctx)
    (hdata : data.length < 2 ^ 32) : Holds order (m ++ data) (md5Update order ctx data) := by
  have hlen : (UInt32.ofNat data.length).toNat = data.length := UInt32.toNat_ofNat_of_lt' hdata
  have hbits := bits_add h.bits hlen
  rw [← Nat.mul_add, ← List.length_append] at hbits
  have hcount := h.count
  have hrest := h.rest
  have happend : absorb 64 (md5Transform order) initial (m ++ data) =
      absorb 64 (md5Transform order) (absorb 64 (md5Transform order) initial m).1
        ((absorb 64 (md5Transform order) initial m).2 ++ data) :=
    absorb_append (by omega) initial m data
  rw [← h.chain] at happend
  generalize (absorb 64 (md5Transform order) initial m).2 = rest at *
  unfold md5Update
  simp only [hcount]
  by_cases ht : rest.length ≠ 0
  · rw [if_pos ht]
    by_cases hshort : data.length < 64 - rest.length
    · have hnone : (rest ++ data).length < 64 := by
        rw [List.length_append]
        omega
      have hlast : absorb 64 (md5Transform order) ctx.buf (rest ++ data) =
          (ctx.buf, rest ++ data) := absorb_short hnone _
      rw [if_pos hshort]
      rw [hlast] at happend
      rw [List.length_append] at hnone
      exact ⟨by rw [happend], by rw [happend]; exact hrest.write data (by omega), hbits⟩
    · have hle : rest.length ≤ 64 := hrest.length_le
      have htake : (data.take (64 - rest.length)).length = 64 - rest.length :=
        List.length_take_of_le (by omega)
      have hsize : (rest ++ data.take (64 - rest.length)).length = 64 := by
        rw [List.length_append, htake]
        omega
      have hwrite := hrest.write (data.take (64 - rest.length)) (by omega)
      have hfull := hwrite.full hsize
      have hblocks := updateBlocks_absorb order
        (md5Transform order ctx.buf (overwrite ctx.block rest.length
          (data.take (64 - rest.length))))
        (data.drop (64 - rest.length)) hwrite.size
      have hsplit : rest ++ data =
          rest ++ data.take (64 - rest.length) ++ data.drop (64 - rest.length) := by
        rw [List.append_assoc, List.take_append_drop]
      rw [hsplit, absorb_block_append (by omega) hsize, ← hfull] at happend
      rw [← happend] at hblocks
      rw [if_neg hshort]
      exact ⟨hblocks.1, hblocks.2, hbits⟩
  · have hnil : rest = [] := List.length_eq_zero_iff.1 (not_not.1 ht)
    have hblocks := updateBlocks_absorb order ctx.buf data hrest.size
    rw [hnil, List.nil_append] at happend
    rw [← happend] at hblocks
    rw [if_neg ht]
    exact ⟨hblocks.1, hblocks.2, hbits⟩

/-- The counter of a context are the length bytes of its message. -/
theorem Holds.lengthBytes {m : List UInt8} {ctx : MD5Context} (h : Holds order m ctx) :
    wordBytes order ctx.bits0 ++ wordBytes order ctx.bits1 = lengthBytes order m := by
  have h0 := ctx.bits0.toNat_lt
  have h1 := ctx.bits1.toNat_lt
  have hbits := h.bits
  have hlow : ctx.bits0 = UInt32.ofNat (8 * m.length) := by
    apply UInt32.toNat_inj.1
    rw [UInt32.toNat_ofNat']
    omega
  have hhigh : ctx.bits1 = UInt32.ofNat (8 * m.length / 2 ^ 32) := by
    apply UInt32.toNat_inj.1
    rw [UInt32.toNat_ofNat']
    omega
  rw [hlow, hhigh]
  rfl

theorem length_wordBytes (x : UInt32) : (wordBytes order x).length = 4 := length_memory _ _ _

/-- The two words at the end of a block that is filled up to them. -/
theorem Starts.words (order : HostOrder) {block pre : List UInt8} (h : Starts block pre) (hlen : pre.length = 56)
    (x y : UInt32) :
    overwrite (overwrite block 56 (wordBytes order x)) 60 (wordBytes order y) =
      pre ++ (wordBytes order x ++ wordBytes order y) := by
  have hx := h.write (wordBytes order x) (by rw [length_wordBytes]; omega)
  have hpx : (pre ++ wordBytes order x).length = 60 := by
    rw [List.length_append, length_wordBytes]
    omega
  have hy := hx.write (wordBytes order y) (by rw [length_wordBytes]; omega)
  rw [hlen] at hx hy
  rw [hpx] at hy
  rw [hy.full (by rw [List.length_append, hpx, length_wordBytes]), List.append_assoc]

/-- The last blocks: the padding after what is left of the message. -/
theorem final_blocks (order : HostOrder) (buf : Chain) {block rest : List UInt8} (h : Starts block rest)
    (hlt : rest.length < 64) (x y : UInt32) :
    let filled := overwrite block rest.length [0x80]
    let count := 64 - 1 - rest.length
    let r :=
      if count < 8 then
        let block := clear filled (rest.length + 1) count
        (md5Transform order buf block, clear block 0 56)
      else (buf, clear filled (rest.length + 1) (count - 8))
    md5Transform order r.1
        (overwrite (overwrite r.2 56 (wordBytes order x)) 60 (wordBytes order y)) =
      (absorb 64 (md5Transform order) buf (rest ++ ([0x80] ++
        List.replicate ((119 - rest.length) % 64) 0 ++
          (wordBytes order x ++ wordBytes order y)))).1 := by
  intro filled count r
  have hbit := h.write [0x80] (by rw [List.length_singleton]; omega)
  have hbitlen : (rest ++ [0x80]).length = rest.length + 1 := by
    rw [List.length_append, List.length_singleton]
  have hlast : ∀ {pre : List UInt8} (b : Chain), pre.length = 56 →
      (absorb 64 (md5Transform order) b (pre ++ (wordBytes order x ++ wordBytes order y))).1 =
        md5Transform order b (pre ++ (wordBytes order x ++ wordBytes order y)) := by
    intro pre b hpre
    have hsize : (pre ++ (wordBytes order x ++ wordBytes order y)).length = 64 := by
      rw [List.length_append, List.length_append, length_wordBytes, length_wordBytes]
      omega
    have hone : absorb 64 (md5Transform order) b
        (pre ++ (wordBytes order x ++ wordBytes order y) ++ []) =
          absorb 64 (md5Transform order)
            (md5Transform order b (pre ++ (wordBytes order x ++ wordBytes order y))) [] :=
      absorb_block_append (by omega) hsize b []
    rw [List.append_nil] at hone
    rw [hone, absorb_short (by simp)]
  by_cases hcount : count < 8
  · have hz := hbit.clear (n := count) (by rw [hbitlen]; omega)
    rw [hbitlen] at hz
    have hzlen : (rest ++ [0x80] ++ List.replicate count 0).length = 64 := by
      rw [List.length_append, hbitlen, List.length_replicate]
      omega
    have hnew := (Starts.nil hz.size).clear (n := 56) (by simp)
    rw [List.nil_append, List.length_nil] at hnew
    have hwords := hnew.words order List.length_replicate x y
    have hr : r = (md5Transform order buf (rest ++ [0x80] ++ List.replicate count 0),
        clear (clear filled (rest.length + 1) count) 0 56) := by
      simp only [r, if_pos hcount, filled, hz.full hzlen]
    have hzeros : (119 - rest.length) % 64 = count + 56 := by omega
    rw [hr]
    simp only [filled]
    rw [hwords, hzeros, List.replicate_add]
    have hassoc : rest ++ ([0x80] ++ (List.replicate count 0 ++ List.replicate 56 0) ++
        (wordBytes order x ++ wordBytes order y)) =
        rest ++ [0x80] ++ List.replicate count 0 ++
          (List.replicate 56 0 ++ (wordBytes order x ++ wordBytes order y)) := by
      simp only [List.append_assoc]
    rw [hassoc, absorb_block_append (by omega) hzlen, hlast _ (by simp)]
  · have hz := hbit.clear (n := count - 8) (by rw [hbitlen]; omega)
    rw [hbitlen] at hz
    have hzlen : (rest ++ [0x80] ++ List.replicate (count - 8) 0).length = 56 := by
      rw [List.length_append, hbitlen, List.length_replicate]
      omega
    have hr : r = (buf, clear filled (rest.length + 1) (count - 8)) := by
      simp only [r, if_neg hcount]
    have hzeros : (119 - rest.length) % 64 = count - 8 := by omega
    have hassoc : rest ++ ([0x80] ++ List.replicate (count - 8) 0 ++
        (wordBytes order x ++ wordBytes order y)) =
        rest ++ [0x80] ++ List.replicate (count - 8) 0 ++
          (wordBytes order x ++ wordBytes order y) := by
      simp only [List.append_assoc]
    rw [hr, hz.words order hzlen, hzeros, hassoc, hlast _ hzlen]

theorem Holds.final {m : List UInt8} {ctx : MD5Context} (h : Holds order m ctx) :
    md5Final order ctx = digest order m := by
  have hlen : (absorb 64 (md5Transform order) initial m).2.length = m.length % 64 :=
    length_absorb (by omega) initial m
  have hmod : m.length % 64 < 64 := Nat.mod_lt _ (by omega)
  have happend : absorb 64 (md5Transform order) initial (m ++ padding order m) =
      absorb 64 (md5Transform order) (absorb 64 (md5Transform order) initial m).1
        ((absorb 64 (md5Transform order) initial m).2 ++ padding order m) :=
    absorb_append (by omega) initial m _
  rw [← h.chain] at happend
  have hblocks := final_blocks order ctx.buf h.rest (by omega) ctx.bits0 ctx.bits1
  rw [h.lengthBytes, hlen] at hblocks
  rw [digest, happend, padding, ← hblocks, md5Final, h.count, hlen]

/-- The updates of one message, in the order of its pieces. -/
def updates (order : HostOrder) (ctx : MD5Context) : List (List UInt8) → MD5Context
  | [] => ctx
  | data :: rest => updates order (md5Update order ctx data) rest

theorem Holds.updates {m : List UInt8} {ctx : MD5Context} (h : Holds order m ctx)
    (pieces : List (List UInt8)) (hpieces : ∀ data ∈ pieces, data.length < 2 ^ 32) :
    Holds order (m ++ pieces.flatten) (updates order ctx pieces) := by
  induction pieces generalizing m ctx with
  | nil =>
    rw [List.flatten_nil, List.append_nil]
    exact h
  | cons data rest ih =>
    have hdata := h.update (hpieces data (List.mem_cons_self ..))
    have hrest := ih hdata fun d hd => hpieces d (List.mem_cons_of_mem _ hd)
    rwa [List.append_assoc] at hrest

end Streams

/-- However a message is cut into pieces of less than 2 to the 32nd bytes, and whatever the
context held before, the digest after the updates is that of the padded message; the message
itself may be of any length. -/
theorem md5Final_updates (order : HostOrder) (ctx : MD5Context) (hctx : ctx.block.length = 64)
    (pieces : List (List UInt8)) (hpieces : ∀ data ∈ pieces, data.length < 2 ^ 32) :
    md5Final order (updates order (md5Init ctx) pieces) = digest order pieces.flatten := by
  have hinit : Holds order [] (md5Init ctx) := Holds.init hctx
  have h := hinit.updates pieces hpieces
  rw [List.nil_append] at h
  exact h.final

/-- A context before `MD5Init`. -/
def blankContext : MD5Context := ⟨initial, 0, 0, List.replicate 64 0⟩

theorem md5Final_abc :
    md5Final .little (updates .little (md5Init blankContext) [[97], [], [98, 99]]) =
      digest .little [97, 98, 99] :=
  md5Final_updates .little blankContext List.length_replicate [[97], [], [98, 99]]
    (by decide)

theorem length_chainBytes (order : HostOrder) (v : Chain) : (chainBytes order v).length = 16 := by
  simp only [chainBytes, List.length_append, length_wordBytes]

/-- `MD5Make`, as the packets use it. -/
def packetHash (order : HostOrder) : BankPackets.MD5 := fun data =>
  ⟨md5Make order blankContext data, length_chainBytes _ _⟩

example : (packetHash .little [97, 98, 99]).val =
    [0x90, 0x01, 0x50, 0x98, 0x3c, 0xd2, 0x4f, 0xb0, 0xd6, 0x96, 0x3f, 0x7d, 0x28, 0xe1, 0x7f,
      0x72] := by
  decide +kernel

end MuduoServer.MD5
