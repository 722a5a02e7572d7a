import MuduoServer.LogFormat
import MuduoServer.WholePieces

/-!
`FixedBuffer` and `LogStream` of `muduo/base`. Every insertion writes at `cur_` into the
array of the buffer: a text when it is strictly shorter than what is left, a number when
`kMaxNumericSize` bytes are left. The contents are those of a row that takes the formatted
pieces whole or not at all. `%.12g` of `snprintf` is any function from doubles to texts of at
most 31 characters.
-/
namespace MuduoServer

open Block FaultMachine LogFormat WholePieces

def kSmallBuffer : ℕ := 4000

/-- `cur_` is an index into `data_`. -/
structure FixedBuffer where
  data_ : Bytes
  cur_ : ℕ

namespace FixedBuffer

/-- The characters that the constructor leaves as they are, are 0 here. -/
def new (size : ℕ) : FixedBuffer := { data_ := List.replicate size 0, cur_ := 0 }

def avail (b : FixedBuffer) : ℤ := b.data_.length - b.cur_

def length (b : FixedBuffer) : ℕ := b.cur_

/-- `string(data_, length())`. -/
def asString (b : FixedBuffer) : Bytes := slice b.data_ 0 b.cur_

def add (b : FixedBuffer) (len : ℕ) : FixedBuffer := { b with cur_ := b.cur_ + len }

/-- `implicit_cast<size_t>(avail())`. -/
def availSize (b : FixedBuffer) : ℕ := (BitVec.ofInt 64 b.avail).toNat

def append (b : FixedBuffer) (buf : Bytes) : Except Fault FixedBuffer := do
  if b.availSize > buf.length then
    let data ← store b.data_ b.cur_ buf
    pure ({ b with data_ := data }.add buf.length)
  else
    pure b

end FixedBuffer

/-- `snprintf(buf, size, ...)` of a text: what does not fit before the NUL is cut off, and the
length of the whole text is returned. -/
def snprintf (mem : Bytes) (buf size : ℕ) (text : Bytes) : Except Fault (ℕ × Bytes) := do
  let mem ← store mem buf (text.take (size - 1) ++ [0])
  pure (text.length, mem)

/-- `strlen(v)` characters at `v`. -/
def cString (v : Bytes) : Bytes := v.takeWhile (· ≠ 0)

/-- A text that fits is stored with its NUL. -/
theorem snprintf_eq {mem : Bytes} {buf size : ℕ} {text : Bytes} (hlen : text.length < size)
    (hroom : buf + size ≤ mem.length) :
    snprintf mem buf size text = .ok (text.length, overwrite mem buf (text ++ [0])) := by
  have htake : text.take (size - 1) = text := List.take_of_length_le (by omega)
  rw [snprintf, htake, store_of]
  · rfl
  · rw [List.length_append, List.length_singleton]
    omega

/-- The text of a double. -/
structure NumericText where
  text : Bytes
  length_lt : text.length < kMaxNumericSize

/-- A call of `operator<<` or `append`. A `float` is converted to `double` first. -/
inductive Insertion (D : Type)
  | bool (v : Bool)
  | integer (t : IntegerType) (v : t.Value)
  | pointer (p : BitVec 64)
  | float (v : D)
  | double (v : D)
  | char (v : UInt8)
  | charPtr (v : Bytes)
  | string (v : Bytes)
  | stringPiece (v : Bytes)
  | append (data : Bytes)

structure LogStream where
  buffer_ : FixedBuffer

namespace LogStream

def new : LogStream := { buffer_ := FixedBuffer.new kSmallBuffer }

def appendBuffer (s : LogStream) (buf : Bytes) : Except Fault LogStream := do
  let buffer ← s.buffer_.append buf
  pure { s with buffer_ := buffer }

/-- A number at `current()`: `format` writes it and returns its length. -/
def formatNumber (s : LogStream) (format : Bytes → ℕ → Except Fault (ℕ × Bytes)) :
    Except Fault LogStream := do
  if (kMaxNumericSize : ℤ) ≤ s.buffer_.avail then
    let (len, data) ← format s.buffer_.data_ s.buffer_.cur_
    pure { s with buffer_ := { s.buffer_ with data_ := data }.add len }
  else
    pure s

def formatInteger (s : LogStream) (v : ℤ) : Except Fault LogStream :=
  s.formatNumber fun data current => convert data current v

def formatPointer (s : LogStream) (v : ℕ) : Except Fault LogStream :=
  s.formatNumber fun data buf => do
    let data ← store data buf [byte '0']
    let data ← store data (buf + 1) [byte 'x']
    let (len, data) ← convertHex data (buf + 2) v
    pure (len + 2, data)

variable {D : Type} (percent12g : D → NumericText)

def formatDouble (s : LogStream) (v : D) : Except Fault LogStream :=
  s.formatNumber fun data current => snprintf data current kMaxNumericSize (percent12g v).text

/-- A `short` is cast to `int` and an `unsigned short` to `unsigned int`, with the same value. -/
def insert (s : LogStream) : Insertion D → Except Fault LogStream
  | .bool v => s.appendBuffer (bytes (if v then "1" else "0"))
  | .integer _ v => s.formatInteger v.1
  | .pointer p => s.formatPointer p.toNat
  | .float v => s.formatDouble percent12g v
  | .double v => s.formatDouble percent12g v
  | .char v => s.appendBuffer [v]
  | .charPtr v => s.appendBuffer (cString v)
  | .string v => s.appendBuffer v
  | .stringPiece v => s.appendBuffer v
  | .append data => s.appendBuffer data

def insertAll (s : LogStream) (xs : List (Insertion D)) : Except Fault LogStream :=
  xs.foldlM (insert percent12g) s

end LogStream

namespace Insertion

variable {D : Type} (percent12g : D → NumericText)

/-- What an insertion puts into the row; a number asks for `kMaxNumericSize` bytes. -/
def piece : Insertion D → Piece UInt8
  | .bool v => .whole (bytes (if v then "1" else "0"))
  | .integer _ v => ⟨Digits.decimalInt v.1, kMaxNumericSize, by
      have hlen := length_decimalInt_lt v
      unfold kMaxNumericSize
      omega⟩
  | .pointer p => ⟨bytes "0x" ++ Digits.hexadecimal p.toNat, kMaxNumericSize, by
      have hlen := length_hexadecimal_lt p
      have hprefix : (bytes "0x").length = 2 := rfl
      rw [List.length_append]
      unfold kMaxNumericSize
      omega⟩
  | .float v => ⟨(percent12g v).text, kMaxNumericSize, (percent12g v).length_lt⟩
  | .double v => ⟨(percent12g v).text, kMaxNumericSize, (percent12g v).length_lt⟩
  | .char v => .whole [v]
  | .charPtr v => .whole (cString v)
  | .string v => .whole v
  | .stringPiece v => .whole v
  | .append data => .whole data

def text (x : Insertion D) : Bytes := (x.piece percent12g).text

/-- An integer, a double or a pointer. -/
def numeric : Insertion D → Bool
  | .integer _ _ | .pointer _ | .float _ | .double _ => true
  | .bool _ | .char _ | .charPtr _ | .string _ | .stringPiece _ | .append _ => false

/-- What `avail` must be for the insertion to be accepted. -/
def Accepted (x : Insertion D) (avail : ℤ) : Prop :=
  (x.numeric ∧ (kMaxNumericSize : ℤ) ≤ avail) ∨
    (¬ x.numeric ∧ ((x.text percent12g).length : ℤ) < avail)

instance (x : Insertion D) (avail : ℤ) : Decidable (x.Accepted percent12g avail) :=
  inferInstanceAs (Decidable (_ ∨ _))

end Insertion

namespace LogStream

/-- The buffer has its size and a free byte, and `row` is what it holds. -/
structure Holds (s : LogStream) (row : Bytes) : Prop where
  size : s.buffer_.data_.length = kSmallBuffer
  cur_lt : s.buffer_.cur_ < kSmallBuffer
  contents : s.buffer_.asString = row

variable {D : Type} {percent12g : D → NumericText} {s : LogStream} {row buf : Bytes}

theorem new_holds : new.Holds [] where
  size := List.length_replicate ..
  cur_lt := by decide
  contents := rfl

theorem Holds.length_eq (h : s.Holds row) : row.length = s.buffer_.cur_ := by
  have hsize := h.size
  have hcur := h.cur_lt
  rw [← h.contents, FixedBuffer.asString, length_slice _ _ _ (by omega), Nat.sub_zero]

theorem Holds.avail_eq (h : s.Holds row) :
    s.buffer_.avail = (kSmallBuffer - row.length : ℕ) := by
  have hcur := h.cur_lt
  have hsize := h.size
  rw [h.length_eq, FixedBuffer.avail]
  omega

theorem Holds.availSize_eq (h : s.Holds row) :
    s.buffer_.availSize = kSmallBuffer - row.length := by
  rw [FixedBuffer.availSize, h.avail_eq, BitVec.ofInt_natCast, BitVec.toNat_ofNat]
  apply Nat.mod_eq_of_lt
  unfold kSmallBuffer
  omega

/-- A text with anything behind it, stored at `current()` and added. -/
theorem Holds.stored (h : s.Holds row) (text rest : Bytes)
    (hlen : text.length + rest.length ≤ kSmallBuffer - row.length)
    (hlt : text.length < kSmallBuffer - row.length) :
    Holds ⟨FixedBuffer.add ⟨overwrite s.buffer_.data_ s.buffer_.cur_ (text ++ rest),
      s.buffer_.cur_⟩ text.length⟩ (row ++ text) := by
  have hsize := h.size
  have hcur := h.length_eq
  refine ⟨?_, ?_, ?_⟩
  · dsimp only [FixedBuffer.add]
    rw [length_overwrite, hsize]
    rw [List.length_append]
    omega
  · dsimp only [FixedBuffer.add]
    omega
  · rw [← h.contents]
    exact slice_overwrite_prefix _ _ _ _ _ (Nat.zero_le _) (by omega)

/-- A text is appended when it is strictly shorter than what is left. -/
theorem Holds.appendBuffer (h : s.Holds row) (buf : Bytes) :
    ∃ s', s.appendBuffer buf = .ok s' ∧ s'.Holds (put kSmallBuffer row (.whole buf)) := by
  have hsize := h.size
  have hcur := h.length_eq
  by_cases hfits : Fits kSmallBuffer row (.whole buf)
  · have hlt := fits_whole.mp hfits
    have hheld := h.stored buf [] (by rw [List.length_nil]; omega) hlt
    rw [List.append_nil] at hheld
    rw [put_of_fits hfits]
    refine ⟨_, ?_, hheld⟩
    rw [LogStream.appendBuffer, FixedBuffer.append, h.availSize_eq, if_pos hlt,
      store_of (by omega)]
    rfl
  · rw [put_of_not hfits]
    refine ⟨s, ?_, h⟩
    rw [LogStream.appendBuffer, FixedBuffer.append, h.availSize_eq,
      if_neg fun hlt => hfits (fits_whole.mpr hlt)]
    rfl

/-- A number that is written within `kMaxNumericSize` bytes. -/
theorem Holds.formatNumber (h : s.Holds row) {format : Bytes → ℕ → Except Fault (ℕ × Bytes)}
    {p : Piece UInt8} (hneed : p.need = kMaxNumericSize)
    (hformat : ∀ mem buf, buf + kMaxNumericSize ≤ List.length mem →
      ∃ rest, p.text.length + rest.length ≤ kMaxNumericSize ∧
        format mem buf = .ok (p.text.length, overwrite mem buf (p.text ++ rest))) :
    ∃ s', s.formatNumber format = .ok s' ∧ s'.Holds (put kSmallBuffer row p) := by
  have hsize := h.size
  have hcur := h.length_eq
  have hlt := p.lt_need
  by_cases hfits : Fits kSmallBuffer row p
  · rw [put_of_fits hfits]
    rw [Fits, hneed] at hfits
    obtain ⟨rest, hrest, hok⟩ := hformat s.buffer_.data_ s.buffer_.cur_ (by omega)
    refine ⟨_, ?_, h.stored p.text rest (by omega) (by omega)⟩
    rw [LogStream.formatNumber, h.avail_eq, if_pos (by omega), hok]
    rfl
  · rw [put_of_not hfits]
    rw [Fits, hneed] at hfits
    refine ⟨s, ?_, h⟩
    rw [LogStream.formatNumber, h.avail_eq, if_neg (by omega)]
    rfl

theorem Holds.formatInteger (h : s.Holds row) {t : IntegerType} (v : t.Value) :
    ∃ s', s.formatInteger v.1 = .ok s' ∧
      s'.Holds (put kSmallBuffer row ((Insertion.integer t v).piece percent12g)) := by
  apply h.formatNumber rfl
  intro mem buf hroom
  have hlen := length_decimalInt_lt v
  unfold kMaxNumericSize at hroom
  refine ⟨[0], ?_, convert_eq (by omega)⟩
  change (Digits.decimalInt v.1).length + 1 ≤ 32
  omega

theorem Holds.formatPointer (h : s.Holds row) (p : BitVec 64) :
    ∃ s', s.formatPointer p.toNat = .ok s' ∧
      s'.Holds (put kSmallBuffer row ((Insertion.pointer p).piece percent12g)) := by
  apply h.formatNumber rfl
  intro mem buf hroom
  have hlen := length_hexadecimal_lt p
  unfold kMaxNumericSize at hroom
  have hprefix : (bytes "0x").length = 2 := rfl
  refine ⟨[0], ?_, ?_⟩
  · change (bytes "0x" ++ Digits.hexadecimal p.toNat).length + 1 ≤ 32
    rw [List.length_append]
    omega
  · have hzero : buf + [byte '0'].length ≤ mem.length := by
      rw [List.length_singleton]
      omega
    have hx : buf + 1 + [byte 'x'].length ≤ (overwrite mem buf [byte '0']).length := by
      rw [length_overwrite _ _ _ hzero, List.length_singleton]
      omega
    have hboth : overwrite (overwrite mem buf [byte '0']) (buf + 1) [byte 'x'] =
        overwrite mem buf (bytes "0x") := overwrite_append (by omega)
    have hhex : overwrite (overwrite mem buf (bytes "0x")) (buf + 2)
        (Digits.hexadecimal p.toNat ++ [0]) =
        overwrite mem buf (bytes "0x" ++ (Digits.hexadecimal p.toNat ++ [0])) :=
      overwrite_append (by omega)
    rw [store_of hzero, ok_bind, store_of hx, ok_bind, hboth, convertHex_eq, ok_bind, hhex]
    · change Except.ok _ = Except.ok _
      rw [← List.append_assoc]
      simp only [Insertion.piece, List.length_append, hprefix, Nat.add_comm 2]
    · rw [length_overwrite _ _ _ (by omega)]
      omega

theorem Holds.formatDouble (h : s.Holds row) (v : D) :
    ∃ s', s.formatDouble percent12g v = .ok s' ∧
      s'.Holds (put kSmallBuffer row ((Insertion.double v).piece percent12g)) := by
  apply h.formatNumber rfl
  intro mem buf hroom
  exact ⟨[0], (percent12g v).length_lt, snprintf_eq (percent12g v).length_lt hroom⟩

variable (percent12g)

/-- Every insertion puts its piece into the row. -/
theorem Holds.insert (h : s.Holds row) (x : Insertion D) :
    ∃ s', s.insert percent12g x = .ok s' ∧
      s'.Holds (put kSmallBuffer row (x.piece percent12g)) := by
  cases x with
  | bool v => exact h.appendBuffer _
  | integer t v => exact h.formatInteger v
  | pointer p => exact h.formatPointer p
  | float v => exact h.formatDouble v
  | double v => exact h.formatDouble v
  | char v => exact h.appendBuffer _
  | charPtr v => exact h.appendBuffer _
  | string v => exact h.appendBuffer _
  | stringPiece v => exact h.appendBuffer _
  | append data => exact h.appendBuffer _

theorem Holds.insertAll (h : s.Holds row) (xs : List (Insertion D)) :
    ∃ s', s.insertAll percent12g xs = .ok s' ∧
      s'.Holds (putAll kSmallBuffer row (xs.map (Insertion.piece percent12g))) := by
  induction xs generalizing s row with
  | nil => exact ⟨s, rfl, h⟩
  | cons x xs ih =>
    obtain ⟨s₁, hs₁, h₁⟩ := h.insert percent12g x
    obtain ⟨s', hs', h'⟩ := ih h₁
    refine ⟨s', ?_, h'⟩
    rw [LogStream.insertAll, List.foldlM_cons, hs₁, ok_bind]
    exact hs'

variable {percent12g}

theorem fits_iff_accepted (h : s.Holds row) (x : Insertion D) :
    Fits kSmallBuffer row (x.piece percent12g) ↔ x.Accepted percent12g s.buffer_.avail := by
  have hneed : (x.piece percent12g).need =
      if x.numeric then kMaxNumericSize else (x.text percent12g).length + 1 := by
    cases x <;> rfl
  rw [h.avail_eq, Fits, hneed, Insertion.Accepted]
  cases x.numeric with
  | true => simp
  | false =>
    simp only [Bool.false_eq_true, if_false, false_and, not_false_eq_true, true_and, false_or]
    omega

/-- No insertion writes outside the buffer, one byte stays free, and the contents are the texts
of the accepted insertions one behind the other, each whole. -/
theorem log_stream_all_or_nothing (percent12g : D → NumericText) (xs : List (Insertion D)) :
    ∃ s, new.insertAll percent12g xs = .ok s ∧ s.buffer_.data_.length = kSmallBuffer ∧
      1 ≤ s.buffer_.avail ∧
      s.buffer_.asString =
        (taken kSmallBuffer [] (xs.map (Insertion.piece percent12g))).flatMap Piece.text ∧
      (taken kSmallBuffer [] (xs.map (Insertion.piece percent12g))).Sublist
        (xs.map (Insertion.piece percent12g)) ∧
      ∀ x, ∃ s', s.insert percent12g x = .ok s' ∧
        s'.buffer_.asString = s.buffer_.asString ++
          if x.Accepted percent12g s.buffer_.avail then x.text percent12g else [] := by
  obtain ⟨s, hs, hholds⟩ := new_holds.insertAll percent12g xs
  refine ⟨s, hs, hholds.size, ?_, hholds.contents.trans (putAll_eq _ _ _),
    taken_sublist _ _ _, ?_⟩
  · have hcur := hholds.cur_lt
    have hlen := hholds.length_eq
    rw [hholds.avail_eq]
    omega
  · intro x
    obtain ⟨s', hs', hnext⟩ := hholds.insert percent12g x
    refine ⟨s', hs', ?_⟩
    rw [hnext.contents, hholds.contents, put_eq]
    by_cases hacc : x.Accepted percent12g s.buffer_.avail
    · rw [if_pos hacc, if_pos ((fits_iff_accepted hholds x).mpr hacc)]
      rfl
    · rw [if_neg hacc, if_neg fun hfits => hacc ((fits_iff_accepted hholds x).mp hfits)]

end LogStream

end MuduoServer
