import MuduoServer.Block
import MuduoServer.Endian
import MuduoServer.FaultMachine
import MuduoServer.WireFormat

/-!
The byte streams `JOutStream` and `JInStream` of `ABCBank/Public`. An output
stream writes at an index that may be put back, which is how a length is filled
in once it is known; an input stream asserts that what it reads is there. The
lemmas give every operation as a writer or a reader of a wire format.
-/
namespace MuduoServer

open Block Endian FaultMachine WireFormat

structure JOutStream where
  buffer_ : List UInt8
  currIndex_ : ℕ

namespace JOutStream

def kInitialSize : ℕ := 1024

def new : JOutStream := { buffer_ := List.replicate kInitialSize 0, currIndex_ := 0 }

def writeableBytes (jos : JOutStream) : ℕ := jos.buffer_.length - jos.currIndex_

def ensureWritableBytes (jos : JOutStream) (len : ℕ) : JOutStream :=
  if jos.writeableBytes < len then
    { jos with buffer_ := resize 0 jos.buffer_ (jos.currIndex_ + len) }
  else jos

def append (jos : JOutStream) (data : List UInt8) : JOutStream :=
  let jos := jos.ensureWritableBytes data.length
  { buffer_ := overwrite jos.buffer_ jos.currIndex_ data
    currIndex_ := jos.currIndex_ + data.length }

def reposition (jos : JOutStream) (pos : ℕ) : JOutStream := { jos with currIndex_ := pos }

def skip (jos : JOutStream) (len : ℕ) : JOutStream :=
  let jos := jos.ensureWritableBytes len
  { jos with currIndex_ := jos.currIndex_ + len }

def length (jos : JOutStream) : ℕ := jos.currIndex_

/-- The `Length()` bytes from `Data()` on. -/
def data (jos : JOutStream) : List UInt8 := jos.buffer_.take jos.currIndex_

def writeBytes (jos : JOutStream) (data : List UInt8) : JOutStream := jos.append data

section Integers
variable (order : HostOrder)

/-- `operator<<` of `uint16` and of `int16`. -/
def writeUInt16 (jos : JOutStream) (x : BitVec 16) : JOutStream :=
  jos.append (memory order 2 (hostToNetwork order 2 x))

/-- `operator<<` of `uint32` and of `int32`. -/
def writeUInt32 (jos : JOutStream) (x : BitVec 32) : JOutStream :=
  jos.append (memory order 4 (hostToNetwork order 4 x))

/-- `operator<<` of `std::string`: a length of 16 bits and as many characters. -/
def writeString (jos : JOutStream) (str : List UInt8) : JOutStream :=
  let len := BitVec.ofNat 16 str.length
  (jos.writeUInt16 order len).append (str.take len.toNat)

end Integers

/-- The index does not lie behind the buffer. -/
def Inv (jos : JOutStream) : Prop := jos.currIndex_ ≤ jos.buffer_.length

/-- The operation adds `q` to the data. -/
abbrev Writes (f : JOutStream → JOutStream) (q : List UInt8) : Prop :=
  WireFormat.Writes Inv data f q

theorem new_inv : new.Inv := Nat.zero_le _

theorem new_data : new.data = [] := rfl

variable {jos : JOutStream}

theorem Inv.length_data (h : jos.Inv) : jos.data.length = jos.currIndex_ := by
  rw [data, List.length_take, Nat.min_eq_left h]

/-- Making room keeps every byte that is there. -/
theorem Inv.ensureWritableBytes (h : jos.Inv) (len : ℕ) :
    (jos.ensureWritableBytes len).currIndex_ = jos.currIndex_ ∧
      jos.currIndex_ + len ≤ (jos.ensureWritableBytes len).buffer_.length ∧
      jos.buffer_ <+: (jos.ensureWritableBytes len).buffer_ := by
  unfold Inv at h
  unfold JOutStream.ensureWritableBytes writeableBytes
  split
  · rename_i hfew
    refine ⟨rfl, by rw [length_resize], ?_⟩
    rw [resize, List.take_of_length_le (by omega)]
    exact List.prefix_append _ _
  · exact ⟨rfl, by omega, List.prefix_refl _⟩

theorem writes_append (q : List UInt8) : Writes (fun jos => jos.append q) q := by
  intro jos h
  obtain ⟨hindex, hroom, more, hkept⟩ := h.ensureWritableBytes q.length
  have hfront : (jos.ensureWritableBytes q.length).buffer_.take jos.currIndex_ = jos.data := by
    rw [← hkept, List.take_append_of_le_length h, data]
  refine ⟨?_, ?_⟩
  · simp only [Inv, append, hindex]
    rwa [length_overwrite _ _ _ hroom]
  · simp only [data, append, hindex, overwrite, hfront]
    apply List.take_left'
    rw [List.length_append, List.length_take, Nat.min_eq_left h]

theorem writes_writeBytes (q : List UInt8) : Writes (fun jos => jos.writeBytes q) q :=
  writes_append q

section Integers
variable (order : HostOrder)

theorem writes_writeUInt16 (x : BitVec 16) :
    Writes (fun jos => jos.writeUInt16 order x) (beBytes 2 x) := by
  change Writes (fun jos => jos.append (memory order 2 (hostToNetwork order 2 x))) _
  rw [memory_hostToNetwork]
  exact writes_append _

theorem writes_writeUInt32 (x : BitVec 32) :
    Writes (fun jos => jos.writeUInt32 order x) (beBytes 4 x) := by
  change Writes (fun jos => jos.append (memory order 4 (hostToNetwork order 4 x))) _
  rw [memory_hostToNetwork]
  exact writes_append _

/-- A string that is not too long for its length field. -/
def stringBytes (str : List UInt8) : List UInt8 := beBytes 2 (BitVec.ofNat 16 str.length) ++ str

theorem writes_writeString {str : List UInt8} (h : str.length < 2 ^ 16) :
    Writes (fun jos => jos.writeString order str) (stringBytes str) := by
  have hlen : (BitVec.ofNat 16 str.length).toNat = str.length := by
    rw [BitVec.toNat_ofNat, Nat.mod_eq_of_lt h]
  have hbytes := (writes_writeUInt16 order (BitVec.ofNat 16 str.length)).comp (writes_append str)
  simp only [writeString, hlen, List.take_length]
  exact hbytes

end Integers

/-- `Skip` leaves room for as many bytes. -/
theorem Inv.skip (h : jos.Inv) (len : ℕ) :
    (jos.skip len).Inv ∧
      ∃ gap, gap.length = len ∧ (jos.skip len).data = jos.data ++ gap := by
  obtain ⟨hindex, hroom, more, hkept⟩ := h.ensureWritableBytes len
  have hinv : (jos.skip len).Inv := by
    simp only [Inv, JOutStream.skip, hindex]
    exact hroom
  refine ⟨hinv, (jos.skip len).data.drop jos.currIndex_, ?_, ?_⟩
  · rw [List.length_drop, hinv.length_data]
    simp only [JOutStream.skip, hindex]
    omega
  · have hfront : jos.data = (jos.skip len).data.take jos.currIndex_ := by
      simp only [JOutStream.data, JOutStream.skip, hindex, List.take_take]
      rw [Nat.min_eq_left (Nat.le_add_right _ _), ← hkept, List.take_append_of_le_length h]
    rw [hfront, List.take_append_drop]

/-- Bytes are filled in over a gap, and writing goes on at the end. -/
theorem Inv.fillIn (h : jos.Inv) {front gap rest bytes : List UInt8}
    (hdata : jos.data = front ++ gap ++ rest) (hgap : bytes.length = gap.length) :
    (((jos.reposition front.length).append bytes).reposition jos.length).Inv ∧
      (((jos.reposition front.length).append bytes).reposition jos.length).data =
        front ++ bytes ++ rest := by
  have hlen := h.length_data
  rw [hdata, List.length_append, List.length_append] at hlen
  have hle : jos.currIndex_ ≤ jos.buffer_.length := h
  have hsame : (jos.reposition front.length).ensureWritableBytes bytes.length =
      jos.reposition front.length := by
    unfold JOutStream.ensureWritableBytes writeableBytes reposition
    rw [if_neg (by simp only; omega)]
  have hbuffer : ((jos.reposition front.length).append bytes).buffer_ =
      front ++ bytes ++ (rest ++ jos.buffer_.drop jos.currIndex_) := by
    have hsplit : jos.buffer_ = front ++ gap ++ (rest ++ jos.buffer_.drop jos.currIndex_) := by
      rw [← List.append_assoc, ← hdata, data, List.take_append_drop]
    rw [append, hsame]
    simp only [reposition]
    rw [hsplit, overwrite_middle hgap, ← hsplit]
  constructor
  · change jos.currIndex_ ≤ ((jos.reposition front.length).append bytes).buffer_.length
    rw [hbuffer]
    simp only [List.length_append, List.length_drop]
    omega
  · change ((jos.reposition front.length).append bytes).buffer_.take jos.currIndex_ = _
    rw [hbuffer, ← List.append_assoc]
    apply List.take_left'
    simp only [List.length_append]
    omega

end JOutStream

structure JInStream where
  buffer_ : List UInt8
  currIndex_ : ℕ

namespace JInStream

/-- `assert(ReadableBytes() >= len)` has failed. -/
inductive Fault
  | readableBytes
  deriving DecidableEq

abbrev Reader := StateT JInStream (Except Fault)

/-- The constructor, and `SetData`. -/
def setData (data : List UInt8) : JInStream := { buffer_ := data, currIndex_ := 0 }

def readableBytes (jis : JInStream) : ℕ := jis.buffer_.length - jis.currIndex_

/-- The bytes that are left. -/
def rest (jis : JInStream) : List UInt8 := jis.buffer_.drop jis.currIndex_

/-- The assertion demands more bytes than are skipped. -/
def skip (len : ℕ) : Reader Unit := fun jis => do
  check (len < jis.readableBytes) .readableBytes
  pure ((), { jis with currIndex_ := jis.currIndex_ + len })

def readBytes (len : ℕ) : Reader (List UInt8) := fun jis => do
  check (len ≤ jis.readableBytes) .readableBytes
  pure (jis.rest.take len, { jis with currIndex_ := jis.currIndex_ + len })

section Integers
variable (order : HostOrder)

/-- `operator>>` of `uint16` and of `int16`. -/
def readUInt16 : Reader (BitVec 16) := do
  let be16 ← readBytes 2
  pure (networkToHost order 2 (load order 2 be16))

/-- `operator>>` of `uint32` and of `int32`. -/
def readUInt32 : Reader (BitVec 32) := do
  let be32 ← readBytes 4
  pure (networkToHost order 4 (load order 4 be32))

def readString : Reader (List UInt8) := do
  let len ← readUInt16 order
  readBytes len.toNat

end Integers

/-- The operation reads `x` from the bytes `q`. -/
abbrev Reads {α : Type} (p : Reader α) (q : List UInt8) (x : α) : Prop :=
  WireFormat.Reads rest p q x

theorem rest_setData (data : List UInt8) : (setData data).rest = data := rfl

theorem length_rest (jis : JInStream) : jis.rest.length = jis.readableBytes :=
  List.length_drop

theorem reads_readBytes (q : List UInt8) : Reads (readBytes q.length) q q := by
  intro jis more h
  have hlen := jis.length_rest
  rw [h, List.length_append] at hlen
  have hroom : q.length ≤ jis.readableBytes := by omega
  refine ⟨{ jis with currIndex_ := jis.currIndex_ + q.length }, ?_, ?_⟩
  · simp only [readBytes, check_of hroom, ok_bind, h, List.take_left]
    rfl
  · have hdrop : jis.buffer_.drop (jis.currIndex_ + q.length) = jis.rest.drop q.length :=
      List.drop_drop.symm
    simp only [rest, hdrop]
    rw [← rest, h, List.drop_left]

theorem reads_sized {n : ℕ} (q : Sized UInt8 n) : Reads (readBytes n) q.val q.val := by
  have h := reads_readBytes q.val
  rwa [q.property] at h

/-- Skipped bytes need one byte more behind them. -/
theorem skip_of_rest {jis : JInStream} {q more : List UInt8} (h : jis.rest = q ++ more)
    (hmore : more ≠ []) : ∃ jis', skip q.length jis = .ok ((), jis') ∧ jis'.rest = more := by
  have hlen := jis.length_rest
  rw [h, List.length_append] at hlen
  have hpos := List.length_pos_iff.mpr hmore
  have hroom : q.length < jis.readableBytes := by omega
  refine ⟨{ jis with currIndex_ := jis.currIndex_ + q.length }, ?_, ?_⟩
  · simp only [skip, check_of hroom, ok_bind]
    rfl
  · have hdrop : jis.buffer_.drop (jis.currIndex_ + q.length) = jis.rest.drop q.length :=
      List.drop_drop.symm
    simp only [rest, hdrop]
    rw [← rest, h, List.drop_left]

section Integers
variable (order : HostOrder)

theorem reads_readUInt16 (x : BitVec 16) : Reads (readUInt16 order) (beBytes 2 x) x := by
  have hbytes : Reads (readBytes 2) (beBytes 2 x) (beBytes 2 x) :=
    reads_sized ⟨beBytes 2 x, length_beBytes 2 x⟩
  exact hbytes.bind_pure (networkToHost_load order 2 x)

theorem reads_readUInt32 (x : BitVec 32) : Reads (readUInt32 order) (beBytes 4 x) x := by
  have hbytes : Reads (readBytes 4) (beBytes 4 x) (beBytes 4 x) :=
    reads_sized ⟨beBytes 4 x, length_beBytes 4 x⟩
  exact hbytes.bind_pure (networkToHost_load order 4 x)

theorem reads_readString {str : List UInt8} (h : str.length < 2 ^ 16) :
    Reads (readString order) (JOutStream.stringBytes str) str := by
  have hlen : (BitVec.ofNat 16 str.length).toNat = str.length := by
    rw [BitVec.toNat_ofNat, Nat.mod_eq_of_lt h]
  have hbytes : Reads (readBytes (BitVec.ofNat 16 str.length).toNat) str str := by
    rw [hlen]
    exact reads_readBytes str
  exact (reads_readUInt16 order _).bind hbytes

end Integers

end JInStream

end MuduoServer
