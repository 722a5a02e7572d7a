import MuduoServer.Block
import MuduoServer.Endian
import MuduoServer.FaultMachine

/-!
The application buffer of `muduo/net/Buffer.h` and `Buffer.cc`: a byte vector
with a reader and a writer index. Pointers into the vector are offsets from
`begin()`. Every `assert` of the source is a `check`; `readFd` takes what the
kernel answers to `readv` as an argument. The last part gives for every
operation its effect on the readable bytes.
-/
namespace MuduoServer

open Block Endian FaultMachine

structure Buffer where
  buffer_ : List UInt8
  readerIndex_ : ℕ
  writerIndex_ : ℕ

namespace Buffer

/-- The assertions of the class, and the conversion of a length to `int` in
`toStringPiece`. -/
inductive Fault
  | lenGtReadable
  | endBeforePeek
  | endAfterBeginWrite
  | writableLtLen
  | lenGtPrependable
  | readerNotPastCheapPrepend
  | readableChanged
  | pieceLengthNotInt
  | readableLtSizeof
  deriving DecidableEq

def kCheapPrepend : ℕ := 8

def kInitialSize : ℕ := 1024

/-- `sizeof extrabuf` in `readFd`. -/
def extrabufSize : ℕ := 65536

def new : Buffer :=
  { buffer_ := List.replicate (kCheapPrepend + kInitialSize) 0
    readerIndex_ := kCheapPrepend
    writerIndex_ := kCheapPrepend }

def readableBytes (b : Buffer) : ℕ := b.writerIndex_ - b.readerIndex_

def writableBytes (b : Buffer) : ℕ := b.buffer_.length - b.writerIndex_

def prependableBytes (b : Buffer) : ℕ := b.readerIndex_

/-- The bytes from `peek()` to `beginWrite()`. -/
def readable (b : Buffer) : List UInt8 := slice b.buffer_ b.readerIndex_ b.writerIndex_

def retrieveAll (b : Buffer) : Buffer :=
  { b with readerIndex_ := kCheapPrepend, writerIndex_ := kCheapPrepend }

def retrieve (b : Buffer) (len : ℕ) : Except Fault Buffer := do
  check (len ≤ b.readableBytes) .lenGtReadable
  if len < b.readableBytes then
    pure { b with readerIndex_ := b.readerIndex_ + len }
  else
    pure b.retrieveAll

def retrieveUntil (b : Buffer) (stop : ℕ) : Except Fault Buffer := do
  check (b.readerIndex_ ≤ stop) .endBeforePeek
  check (stop ≤ b.writerIndex_) .endAfterBeginWrite
  b.retrieve (stop - b.readerIndex_)

def retrieveInt32 (b : Buffer) : Except Fault Buffer := b.retrieve 4

def retrieveInt16 (b : Buffer) : Except Fault Buffer := b.retrieve 2

def retrieveInt8 (b : Buffer) : Except Fault Buffer := b.retrieve 1

def retrieveAsString (b : Buffer) (len : ℕ) : Except Fault (List UInt8 × Buffer) := do
  check (len ≤ b.readableBytes) .lenGtReadable
  let result := b.readable.take len
  let b ← b.retrieve len
  pure (result, b)

def retrieveAllAsString (b : Buffer) : Except Fault (List UInt8 × Buffer) :=
  b.retrieveAsString b.readableBytes

def makeSpace (b : Buffer) (len : ℕ) : Except Fault Buffer := do
  if b.writableBytes + b.prependableBytes < len + kCheapPrepend then
    pure { b with buffer_ := resize 0 b.buffer_ (b.writerIndex_ + len) }
  else
    check (kCheapPrepend < b.readerIndex_) .readerNotPastCheapPrepend
    let readable := b.readableBytes
    let b' : Buffer :=
      { buffer_ := copyForward b.buffer_ b.readerIndex_ kCheapPrepend readable
        readerIndex_ := kCheapPrepend
        writerIndex_ := kCheapPrepend + readable }
    check (readable = b'.readableBytes) .readableChanged
    pure b'

def ensureWritableBytes (b : Buffer) (len : ℕ) : Except Fault Buffer := do
  let b ← if b.writableBytes < len then b.makeSpace len else pure b
  check (len ≤ b.writableBytes) .writableLtLen
  pure b

def hasWritten (b : Buffer) (len : ℕ) : Buffer :=
  { b with writerIndex_ := b.writerIndex_ + len }

/-- `std::copy(data, data+len, beginWrite())`. -/
def copyToBeginWrite (b : Buffer) (data : List UInt8) : Buffer :=
  { b with buffer_ := overwrite b.buffer_ b.writerIndex_ data }

def append (b : Buffer) (data : List UInt8) : Except Fault Buffer := do
  let b ← b.ensureWritableBytes data.length
  pure ((b.copyToBeginWrite data).hasWritten data.length)

def prepend (b : Buffer) (data : List UInt8) : Except Fault Buffer := do
  check (data.length ≤ b.prependableBytes) .lenGtPrependable
  let readerIndex := b.readerIndex_ - data.length
  pure { b with
    readerIndex_ := readerIndex
    buffer_ := overwrite b.buffer_ readerIndex data }

section Integers
variable (order : HostOrder)

def appendInt32 (b : Buffer) (x : BitVec 32) : Except Fault Buffer :=
  b.append (memory order 4 (hostToNetwork order 4 x))

def appendInt16 (b : Buffer) (x : BitVec 16) : Except Fault Buffer :=
  b.append (memory order 2 (hostToNetwork order 2 x))

def appendInt8 (b : Buffer) (x : BitVec 8) : Except Fault Buffer :=
  b.append (memory order 1 x)

def prependInt32 (b : Buffer) (x : BitVec 32) : Except Fault Buffer :=
  b.prepend (memory order 4 (hostToNetwork order 4 x))

def prependInt16 (b : Buffer) (x : BitVec 16) : Except Fault Buffer :=
  b.prepend (memory order 2 (hostToNetwork order 2 x))

def prependInt8 (b : Buffer) (x : BitVec 8) : Except Fault Buffer :=
  b.prepend (memory order 1 x)

def peekInt32 (b : Buffer) : Except Fault (BitVec 32) := do
  check (4 ≤ b.readableBytes) .readableLtSizeof
  pure (networkToHost order 4 (load order 4 (b.readable.take 4)))

def peekInt16 (b : Buffer) : Except Fault (BitVec 16) := do
  check (2 ≤ b.readableBytes) .readableLtSizeof
  pure (networkToHost order 2 (load order 2 (b.readable.take 2)))

def peekInt8 (b : Buffer) : Except Fault (BitVec 8) := do
  check (1 ≤ b.readableBytes) .readableLtSizeof
  pure (load order 1 (b.readable.take 1))

def readInt32 (b : Buffer) : Except Fault (BitVec 32 × Buffer) := do
  let result ← b.peekInt32 order
  let b ← b.retrieveInt32
  pure (result, b)

def readInt16 (b : Buffer) : Except Fault (BitVec 16 × Buffer) := do
  let result ← b.peekInt16 order
  let b ← b.retrieveInt16
  pure (result, b)

def readInt8 (b : Buffer) : Except Fault (BitVec 8 × Buffer) := do
  let result ← b.peekInt8 order
  let b ← b.retrieveInt8
  pure (result, b)

end Integers

/-- The length of a `StringPiece` is an `int`. -/
def toStringPiece (b : Buffer) : Except Fault (List UInt8) := do
  check (b.readableBytes < 2 ^ 31) .pieceLengthNotInt
  pure b.readable

/-- The buffer is swapped with the local `other`, which holds the result. -/
def shrink (b : Buffer) (reserve : ℕ) : Except Fault Buffer := do
  let other ← new.ensureWritableBytes (b.readableBytes + reserve)
  let piece ← b.toStringPiece
  other.append piece

/-- What the kernel answers to `readv`: the bytes it hands over, or `errno`. -/
inductive ReadResult
  | bytes (data : List UInt8)
  | failed (errno : ℕ)
  deriving DecidableEq

/-- The return value `n`; it is negative when `savedErrno` was set. -/
def ReadResult.n : ReadResult → ℤ
  | .bytes data => data.length
  | .failed _ => -1

def readFd (b : Buffer) (result : ReadResult) : Except Fault Buffer :=
  match result with
  | .failed _ => pure b
  | .bytes data => do
      let writable := b.writableBytes
      let filled := b.copyToBeginWrite (data.take writable)
      let extrabuf := data.drop writable
      if data.length ≤ writable then
        pure (filled.hasWritten data.length)
      else
        ({ filled with writerIndex_ := filled.buffer_.length } : Buffer).append extrabuf

/-- `readerIndex <= writerIndex <= size`, with room for the reserved header. -/
structure Inv (b : Buffer) : Prop where
  reader_le : b.readerIndex_ ≤ b.writerIndex_
  writer_le : b.writerIndex_ ≤ b.buffer_.length
  cheap_le : kCheapPrepend ≤ b.buffer_.length

/-- The buffer is well formed and its readable bytes are `q`. -/
structure Represents (b : Buffer) (q : List UInt8) : Prop where
  inv : b.Inv
  readable_eq : b.readable = q

theorem new_represents : new.Represents [] where
  inv := by constructor <;> simp [new]
  readable_eq := slice_self _ _

variable {b : Buffer} {q : List UInt8}

theorem Represents.readableBytes_eq (h : b.Represents q) : b.readableBytes = q.length := by
  rw [← h.readable_eq, readable, length_slice _ _ _ h.inv.writer_le, readableBytes]

theorem Represents.retrieveAll (h : b.Represents q) : b.retrieveAll.Represents [] where
  inv := ⟨Nat.le_refl _, h.inv.cheap_le, h.inv.cheap_le⟩
  readable_eq := slice_self _ _

theorem Represents.retrieve (h : b.Represents q) {len : ℕ} (hlen : len ≤ q.length) :
    ∃ b', b.retrieve len = .ok b' ∧ b'.Represents (q.drop len) := by
  have hn := h.readableBytes_eq
  have hsize : b.readableBytes = b.writerIndex_ - b.readerIndex_ := rfl
  by_cases hlt : len < b.readableBytes
  · refine ⟨{ b with readerIndex_ := b.readerIndex_ + len }, ?_, ?_, ?_⟩
    · simp [Buffer.retrieve, hlt, Nat.le_of_lt hlt]
    · exact ⟨by simp only; omega, h.inv.writer_le, h.inv.cheap_le⟩
    · rw [← h.readable_eq, readable, readable, drop_slice]
  · have heq : len = q.length := by omega
    refine ⟨b.retrieveAll, ?_, ?_⟩
    · simp [Buffer.retrieve, hn, heq]
    · rw [heq, List.drop_length]
      exact h.retrieveAll

theorem Represents.retrieveUntil (h : b.Represents q) {stop : ℕ} (h₁ : b.readerIndex_ ≤ stop)
    (h₂ : stop ≤ b.writerIndex_) :
    ∃ b', b.retrieveUntil stop = .ok b' ∧ b'.Represents (q.drop (stop - b.readerIndex_)) := by
  have hn := h.readableBytes_eq
  have hle : stop - b.readerIndex_ ≤ q.length := by
    rw [← hn, readableBytes]
    omega
  obtain ⟨b', hb', hr⟩ := h.retrieve hle
  exact ⟨b', by simp [Buffer.retrieveUntil, check_of h₁, check_of h₂, hb'], hr⟩

theorem Represents.retrieveAsString (h : b.Represents q) {len : ℕ} (hlen : len ≤ q.length) :
    ∃ b', b.retrieveAsString len = .ok (q.take len, b') ∧ b'.Represents (q.drop len) := by
  obtain ⟨b', hb', hr⟩ := h.retrieve hlen
  refine ⟨b', ?_, hr⟩
  simp [Buffer.retrieveAsString, h.readableBytes_eq, hlen, hb', h.readable_eq]

/-- When too little is writable the compaction branch is taken only with
`kCheapPrepend < readerIndex_`, and the data survive on both branches. -/
theorem Represents.makeSpace (h : b.Represents q) {len : ℕ} (hlt : b.writableBytes < len) :
    ∃ b', b.makeSpace len = .ok b' ∧ b'.Represents q ∧ len ≤ b'.writableBytes := by
  have hw := h.inv.writer_le
  have hr := h.inv.reader_le
  have hc := h.inv.cheap_le
  have hsize : b.writableBytes = b.buffer_.length - b.writerIndex_ := rfl
  have hread : b.readableBytes = b.writerIndex_ - b.readerIndex_ := rfl
  have hpre : b.prependableBytes = b.readerIndex_ := rfl
  by_cases hgrow : b.writableBytes + b.prependableBytes < len + kCheapPrepend
  · refine ⟨{ b with buffer_ := resize 0 b.buffer_ (b.writerIndex_ + len) }, ?_, ⟨?_, ?_⟩, ?_⟩
    · simp [Buffer.makeSpace, hgrow]
    · exact ⟨hr, by simp [length_resize], by simp only [length_resize]; omega⟩
    · rw [← h.readable_eq, readable, readable, slice_resize 0 _ _ _ _ hw (by omega)]
    · simp [Buffer.writableBytes, length_resize]
  · have hpast : kCheapPrepend < b.readerIndex_ := by omega
    have hblock : b.readerIndex_ + b.readableBytes = b.writerIndex_ := by omega
    have hmove : copyForward b.buffer_ b.readerIndex_ kCheapPrepend b.readableBytes =
        overwrite b.buffer_ kCheapPrepend q := by
      rw [copyForward_eq _ _ _ _ (Nat.le_of_lt hpast) (by omega), hblock, ← h.readable_eq, readable]
    have hq := h.readableBytes_eq
    have hlen : (overwrite b.buffer_ kCheapPrepend q).length = b.buffer_.length := by
      apply length_overwrite
      omega
    refine ⟨{
        buffer_ := copyForward b.buffer_ b.readerIndex_ kCheapPrepend b.readableBytes
        readerIndex_ := kCheapPrepend
        writerIndex_ := kCheapPrepend + b.readableBytes }, ?_, ⟨?_, ?_⟩, ?_⟩
    · simp only [Buffer.makeSpace, if_neg hgrow, check_of hpast, ok_bind]
      rw [check_of (by simp [readableBytes])]
      rfl
    · refine ⟨Nat.le_add_right _ _, ?_, ?_⟩
      · simp only [hmove, hlen]
        omega
      · simpa only [hmove, hlen] using hc
    · simp only [readable]
      rw [hmove, hq]
      have hend := slice_overwrite_end b.buffer_ q kCheapPrepend kCheapPrepend
        (Nat.le_refl _) hc
      rwa [slice_self, List.nil_append] at hend
    · simp only [Buffer.writableBytes, hmove, hlen]
      omega

theorem Represents.ensureWritableBytes (h : b.Represents q) (len : ℕ) :
    ∃ b', b.ensureWritableBytes len = .ok b' ∧ b'.Represents q ∧ len ≤ b'.writableBytes := by
  by_cases hlt : b.writableBytes < len
  · obtain ⟨b', hb', hq, hle⟩ := h.makeSpace hlt
    exact ⟨b', by simp [Buffer.ensureWritableBytes, hlt, hb', hle], hq, hle⟩
  · have hle : len ≤ b.writableBytes := by omega
    exact ⟨b, by simp [Buffer.ensureWritableBytes, hlt, hle], h, hle⟩

/-- Writing at `beginWrite()` within the writable bytes and advancing the
writer index appends to the readable bytes. -/
theorem Represents.written (h : b.Represents q) (data : List UInt8)
    (hlen : data.length ≤ b.writableBytes) :
    ((b.copyToBeginWrite data).hasWritten data.length).Represents (q ++ data) := by
  have hw := h.inv.writer_le
  have hr := h.inv.reader_le
  have hsize : b.writableBytes = b.buffer_.length - b.writerIndex_ := rfl
  have hkeep : (overwrite b.buffer_ b.writerIndex_ data).length = b.buffer_.length :=
    length_overwrite _ _ _ (by omega)
  refine ⟨⟨?_, ?_, ?_⟩, ?_⟩
  · simp only [copyToBeginWrite, hasWritten]
    omega
  · simp only [copyToBeginWrite, hasWritten, hkeep]
    omega
  · simpa only [copyToBeginWrite, hasWritten, hkeep] using h.inv.cheap_le
  · rw [← h.readable_eq]
    exact slice_overwrite_end _ _ _ _ hr hw

theorem Represents.append (h : b.Represents q) (data : List UInt8) :
    ∃ b', b.append data = .ok b' ∧ b'.Represents (q ++ data) := by
  obtain ⟨b₁, hb₁, hq, hle⟩ := h.ensureWritableBytes data.length
  exact ⟨_, by simp only [Buffer.append, hb₁, ok_bind]; rfl, hq.written data hle⟩

theorem Represents.prepend (h : b.Represents q) (data : List UInt8)
    (hlen : data.length ≤ b.prependableBytes) :
    ∃ b', b.prepend data = .ok b' ∧ b'.Represents (data ++ q) := by
  have hw := h.inv.writer_le
  have hr := h.inv.reader_le
  have hpre : b.prependableBytes = b.readerIndex_ := rfl
  have hkeep : (overwrite b.buffer_ (b.readerIndex_ - data.length) data).length =
      b.buffer_.length := length_overwrite _ _ _ (by omega)
  refine ⟨_, by simp only [Buffer.prepend, check_of hlen, ok_bind]; rfl, ⟨?_, ?_, ?_⟩, ?_⟩
  · simp only
    omega
  · simpa only [hkeep] using hw
  · simpa only [hkeep] using h.inv.cheap_le
  · have hstart := slice_overwrite_start b.buffer_ data (b.readerIndex_ - data.length)
      b.writerIndex_ (by omega) hw
    rw [Nat.sub_add_cancel (by omega)] at hstart
    rw [← h.readable_eq]
    exact hstart

theorem Represents.shrink (h : b.Represents q) (reserve : ℕ) (hint : q.length < 2 ^ 31) :
    ∃ b', b.shrink reserve = .ok b' ∧ b'.Represents q := by
  obtain ⟨other, ho, hempty, -⟩ :=
    new_represents.ensureWritableBytes (b.readableBytes + reserve)
  obtain ⟨b', hb', hq⟩ := hempty.append q
  have hpiece : b.toStringPiece = .ok q := by
    simp only [toStringPiece, h.readableBytes_eq, check_of hint, ok_bind, h.readable_eq]
    rfl
  refine ⟨b', ?_, by simpa using hq⟩
  simp only [Buffer.shrink, ho, ok_bind, hpiece, hb']

/-- `readFd` appends exactly the bytes read, also when they overflow into the
block on the stack. -/
theorem Represents.readFd (h : b.Represents q) (data : List UInt8) :
    ∃ b', b.readFd (.bytes data) = .ok b' ∧ b'.Represents (q ++ data) := by
  by_cases hfit : data.length ≤ b.writableBytes
  · refine ⟨_, ?_, h.written data hfit⟩
    simp only [Buffer.readFd, if_pos hfit, List.take_of_length_le hfit]
    rfl
  · have hsize : b.writableBytes = b.buffer_.length - b.writerIndex_ := rfl
    have hw := h.inv.writer_le
    have htake : (data.take b.writableBytes).length = b.writableBytes := by
      simp only [List.length_take]
      omega
    have hfull := h.written (data.take b.writableBytes) (by omega)
    have hkeep : (overwrite b.buffer_ b.writerIndex_ (data.take b.writableBytes)).length =
        b.buffer_.length := length_overwrite _ _ _ (by omega)
    have heq : ({ b.copyToBeginWrite (data.take b.writableBytes) with
          writerIndex_ := (b.copyToBeginWrite (data.take b.writableBytes)).buffer_.length } :
          Buffer) =
        (b.copyToBeginWrite (data.take b.writableBytes)).hasWritten
          (data.take b.writableBytes).length := by
      simp only [copyToBeginWrite, hasWritten, hkeep, htake, Buffer.mk.injEq, true_and]
      omega
    obtain ⟨b', hb', hq⟩ := hfull.append (data.drop b.writableBytes)
    refine ⟨b', ?_, ?_⟩
    · simp only [Buffer.readFd, if_neg hfit, heq, hb']
    · rwa [List.append_assoc, List.take_append_drop] at hq

end Buffer

end MuduoServer
