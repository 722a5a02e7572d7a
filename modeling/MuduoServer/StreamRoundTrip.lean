import MuduoServer.JStreams
import MuduoServer.Layout

/-!
What is written to a `JOutStream` is read back from a `JInStream`: integers of 8, 16
and 32 bits with and without a sign, strings, blocks of bytes, and gaps that are filled
in later. A writer remembers the place and the length of all that it has written, and
its data is laid out in just these slots after every operation, wherever the buffer grows.
-/
namespace MuduoServer

open Block Endian FaultMachine WireFormat

namespace JOutStream

/-- `operator<<` of `uint8`. -/
def writeUInt8 (jos : JOutStream) (x : UInt8) : JOutStream := jos.append [x]

/-- `operator<<` of `int8`. -/
def writeInt8 (jos : JOutStream) (x : Int8) : JOutStream := jos.append [x.toUInt8]

/-- `operator<<` of `int16`: the bits are those of a `uint16`. -/
def writeInt16 (order : HostOrder) (jos : JOutStream) (x : Int16) : JOutStream :=
  jos.writeUInt16 order x.toBitVec

/-- `operator<<` of `int32`. -/
def writeInt32 (order : HostOrder) (jos : JOutStream) (x : Int32) : JOutStream :=
  jos.writeUInt32 order x.toBitVec

end JOutStream

namespace JInStream

/-- `operator>>` of `uint8`. -/
def readUInt8 : Reader UInt8 := do
  let x ← readBytes 1
  pure (x.headD 0)

/-- `operator>>` of `int8`. -/
def readInt8 : Reader Int8 := do
  let x ← readBytes 1
  pure (x.headD 0).toInt8

/-- `operator>>` of `int16`. -/
def readInt16 (order : HostOrder) : Reader Int16 := do
  let x ← readUInt16 order
  pure (Int16.ofBitVec x)

/-- `operator>>` of `int32`. -/
def readInt32 (order : HostOrder) : Reader Int32 := do
  let x ← readUInt32 order
  pure (Int32.ofBitVec x)

end JInStream

namespace StreamRoundTrip

open JOutStream JInStream Layout

/-- What `operator<<` and `WriteBytes` are called with. -/
inductive Field
  | uint8 (x : UInt8)
  | uint16 (x : UInt16)
  | uint32 (x : UInt32)
  | int8 (x : Int8)
  | int16 (x : Int16)
  | int32 (x : Int32)
  | string (str : List UInt8)
  | bytes (data : List UInt8)

/-- What `operator>>` and `ReadBytes` are called for. -/
inductive Kind
  | uint8
  | uint16
  | uint32
  | int8
  | int16
  | int32
  | string
  | bytes (len : ℕ)

def Field.kind : Field → Kind
  | .uint8 _ => .uint8
  | .uint16 _ => .uint16
  | .uint32 _ => .uint32
  | .int8 _ => .int8
  | .int16 _ => .int16
  | .int32 _ => .int32
  | .string _ => .string
  | .bytes data => .bytes data.length

/-- The bytes of a field in a packet. -/
def Field.text : Field → List UInt8
  | .uint8 x => [x]
  | .uint16 x => beBytes 2 x.toBitVec
  | .uint32 x => beBytes 4 x.toBitVec
  | .int8 x => [x.toUInt8]
  | .int16 x => beBytes 2 x.toBitVec
  | .int32 x => beBytes 4 x.toBitVec
  | .string str => stringBytes str
  | .bytes data => data

/-- A string is not too long for its length field. -/
def Field.Fits : Field → Prop
  | .string str => str.length ≤ 65535
  | _ => True

section Fields

variable (order : HostOrder)

def write (jos : JOutStream) : Field → JOutStream
  | .uint8 x => jos.writeUInt8 x
  | .uint16 x => jos.writeUInt16 order x.toBitVec
  | .uint32 x => jos.writeUInt32 order x.toBitVec
  | .int8 x => jos.writeInt8 x
  | .int16 x => jos.writeInt16 order x
  | .int32 x => jos.writeInt32 order x
  | .string str => jos.writeString order str
  | .bytes data => jos.writeBytes data

def readField : Kind → Reader Field
  | .uint8 => do
      let x ← readUInt8
      pure (.uint8 x)
  | .uint16 => do
      let x ← readUInt16 order
      pure (.uint16 (UInt16.ofBitVec x))
  | .uint32 => do
      let x ← readUInt32 order
      pure (.uint32 (UInt32.ofBitVec x))
  | .int8 => do
      let x ← readInt8
      pure (.int8 x)
  | .int16 => do
      let x ← readInt16 order
      pure (.int16 x)
  | .int32 => do
      let x ← readInt32 order
      pure (.int32 x)
  | .string => do
      let str ← readString order
      pure (.string str)
  | .bytes len => do
      let data ← readBytes len
      pure (.bytes data)

variable {order}

theorem reads_byte (b : UInt8) : Reads (readBytes 1) [b] [b] := reads_readBytes [b]

theorem reads_readField {f : Field} (h : f.Fits) : Reads (readField order f.kind) f.text f := by
  cases f with
  | uint8 x => exact ((reads_byte x).bind_pure rfl).bind_pure rfl
  | uint16 x => exact (reads_readUInt16 order x.toBitVec).bind_pure rfl
  | uint32 x => exact (reads_readUInt32 order x.toBitVec).bind_pure rfl
  | int8 x => exact ((reads_byte x.toUInt8).bind_pure rfl).bind_pure rfl
  | int16 x => exact ((reads_readUInt16 order x.toBitVec).bind_pure rfl).bind_pure rfl
  | int32 x => exact ((reads_readUInt32 order x.toBitVec).bind_pure rfl).bind_pure rfl
  | string str => exact (reads_readString order (Nat.lt_succ_of_le h)).bind_pure rfl
  | bytes data => exact (reads_readBytes data).bind_pure rfl

theorem writes_write {f : Field} (h : f.Fits) : Writes (fun jos => write order jos f) f.text := by
  cases f with
  | uint8 x => exact writes_append [x]
  | uint16 x => exact writes_writeUInt16 order x.toBitVec
  | uint32 x => exact writes_writeUInt32 order x.toBitVec
  | int8 x => exact writes_append [x.toUInt8]
  | int16 x => exact writes_writeUInt16 order x.toBitVec
  | int32 x => exact writes_writeUInt32 order x.toBitVec
  | string str => exact writes_writeString order (Nat.lt_succ_of_le h)
  | bytes data => exact writes_append data

/-- With enough room a string is written as one block. -/
theorem append_append_of_room {jos : JOutStream} {q q' : List UInt8}
    (h : jos.currIndex_ + (q ++ q').length ≤ jos.buffer_.length) :
    (jos.append q).append q' = jos.append (q ++ q') := by
  have hroom : ∀ (jos : JOutStream) (q : List UInt8),
      jos.currIndex_ + q.length ≤ jos.buffer_.length →
      jos.append q = { buffer_ := overwrite jos.buffer_ jos.currIndex_ q
                       currIndex_ := jos.currIndex_ + q.length } := by
    intro jos q hq
    have hsame : jos.ensureWritableBytes q.length = jos := by
      unfold ensureWritableBytes writeableBytes
      rw [if_neg (by omega)]
    rw [append, hsame]
  rw [List.length_append] at h
  rw [hroom jos q (by omega), hroom _ q' ?_, hroom jos (q ++ q') ?_]
  · simp only [overwrite_append (l := jos.buffer_) (i := jos.currIndex_) (by omega),
      List.length_append, Nat.add_assoc]
  · rw [List.length_append]
    omega
  · rw [length_overwrite _ _ _ (by omega)]
    simp only
    omega

theorem write_of_room {jos : JOutStream} {f : Field} (hfits : f.Fits)
    (h : jos.currIndex_ + f.text.length ≤ jos.buffer_.length) :
    write order jos f = jos.append f.text := by
  have hbytes : ∀ (n : ℕ) (x : BitVec (8 * n)),
      memory order n (hostToNetwork order n x) = beBytes n x := memory_hostToNetwork order
  cases f with
  | uint8 x => rfl
  | uint16 x => exact congrArg jos.append (hbytes 2 x.toBitVec)
  | uint32 x => exact congrArg jos.append (hbytes 4 x.toBitVec)
  | int8 x => rfl
  | int16 x => exact congrArg jos.append (hbytes 2 x.toBitVec)
  | int32 x => exact congrArg jos.append (hbytes 4 x.toBitVec)
  | string str =>
    have hlen : (BitVec.ofNat 16 str.length).toNat = str.length := by
      rw [BitVec.toNat_ofNat, Nat.mod_eq_of_lt (Nat.lt_succ_of_le hfits)]
    have hsize : (jos.writeUInt16 order (BitVec.ofNat 16 str.length)) =
        jos.append (beBytes 2 (BitVec.ofNat 16 str.length)) :=
      congrArg jos.append (hbytes 2 _)
    simp only [write, writeString, hsize, hlen, List.take_length]
    exact append_append_of_room h
  | bytes data => rfl

end Fields

/-- A stream, and what has been written to it: for each place the length and the field that was
written there last. A gap has no field until it is filled. -/
structure Writer where
  jos : JOutStream
  slots : List (Slot Field)

def Writer.new : Writer := { jos := JOutStream.new, slots := [] }

inductive WriteOp
  | write (f : Field)
  | skip (len : ℕ)
  /-- `Reposition` to the `n`-th place, a write, and `Reposition` to the end. -/
  | fill (n : ℕ) (f : Field)

section Writer

variable (order : HostOrder)

/-- Strings fit their length fields, and a place is filled with as many bytes as it has. -/
def Writer.enabled (w : Writer) : WriteOp → Prop
  | .write f => f.Fits
  | .skip _ => True
  | .fill n f => f.Fits ∧ ∃ slot, w.slots[n]? = some slot ∧ f.text.length = slot.len

def Writer.step (w : Writer) : WriteOp → Writer
  | .write f =>
      { jos := StreamRoundTrip.write order w.jos f
        slots := w.slots ++ [⟨w.jos.length, f.text.length, some f⟩] }
  | .skip len =>
      { jos := w.jos.skip len
        slots := w.slots ++ [⟨w.jos.length, len, none⟩] }
  | .fill n f =>
      match w.slots[n]? with
      | none => w
      | some slot =>
          let tailPos := w.jos.length
          let jos := w.jos.reposition slot.pos
          let jos := StreamRoundTrip.write order jos f
          { jos := jos.reposition tailPos
            slots := w.slots.set n { slot with value := some f } }

def machine : Machine Writer WriteOp Empty where
  init w := w = .new
  enabled := Writer.enabled
  step w op := .ok (w.step order op)

/-- The data is laid out in the places that were written to. -/
structure Writer.Inv (w : Writer) : Prop where
  index : w.jos.Inv
  laid : Laid Field.text 0 w.slots w.jos.data
  fits : ∀ slot ∈ w.slots, ∀ f ∈ slot.value, f.Fits

/-- What an operation does to the data: a write adds the bytes of its field, `Skip` adds a gap,
and filling changes the bytes of the place and no others. -/
def Effect (w w' : Writer) : WriteOp → Prop
  | .write f => w'.jos.data = w.jos.data ++ f.text
  | .skip len => ∃ gap, gap.length = len ∧ w'.jos.data = w.jos.data ++ gap
  | .fill n f => ∃ slot front gap rest, w.slots[n]? = some slot ∧ front.length = slot.pos ∧
      gap.length = f.text.length ∧ w.jos.data = front ++ gap ++ rest ∧
      w'.jos.data = front ++ f.text ++ rest

variable {order} {w : Writer}

theorem Writer.new_inv : Writer.new.Inv where
  index := JOutStream.new_inv
  laid := .nil 0
  fits := by simp [Writer.new]

/-- Something is added at the end. -/
theorem Writer.Inv.snoc (h : w.Inv) {jos : JOutStream} {part : List UInt8} {value : Option Field}
    (hinv : jos.Inv) (hdata : jos.data = w.jos.data ++ part)
    (hvalue : ∀ f ∈ value, f.text = part ∧ f.Fits) :
    Writer.Inv { jos := jos, slots := w.slots ++ [⟨w.jos.length, part.length, value⟩] } where
  index := hinv
  laid := by
    have hplace : (0 : ℕ) + w.jos.data.length = w.jos.length := by
      rw [Nat.zero_add, h.index.length_data, JOutStream.length]
    let slot : Slot Field := ⟨w.jos.length, part.length, value⟩
    have hslot : Laid Field.text slot.pos [slot] part :=
      laid_singleton rfl fun f hf => (hvalue f hf).1
    have hlast : Laid Field.text (0 + w.jos.data.length) [slot] part := by
      rw [hplace]
      exact hslot
    rw [hdata]
    exact h.laid.append hlast
  fits := by
    intro slot hslot f hf
    rcases List.mem_append.mp hslot with hslot | hslot
    · exact h.fits slot hslot f hf
    · rw [List.mem_singleton.mp hslot] at hf
      exact (hvalue f hf).2

theorem Writer.Inv.write (h : w.Inv) {f : Field} (hf : f.Fits) :
    (w.step order (.write f)).Inv ∧ Effect w (w.step order (.write f)) (.write f) := by
  obtain ⟨hinv, hdata⟩ := @writes_write order f hf w.jos h.index
  refine ⟨h.snoc hinv hdata ?_, hdata⟩
  intro f' hf'
  rw [← Option.mem_some.mp hf']
  exact ⟨rfl, hf⟩

theorem Writer.Inv.skip (h : w.Inv) (len : ℕ) :
    (w.step order (.skip len)).Inv ∧ Effect w (w.step order (.skip len)) (.skip len) := by
  obtain ⟨hinv, gap, hgap, hdata⟩ := h.index.skip len
  refine ⟨?_, gap, hgap, hdata⟩
  have hnew : Writer.Inv
      { jos := w.jos.skip len, slots := w.slots ++ [⟨w.jos.length, gap.length, none⟩] } :=
    h.snoc hinv hdata (by simp)
  rwa [hgap] at hnew

theorem Writer.Inv.fill (h : w.Inv) {n : ℕ} {f : Field} (hf : f.Fits) {slot : Slot Field}
    (hslot : w.slots[n]? = some slot) (hlen : f.text.length = slot.len) :
    (w.step order (.fill n f)).Inv ∧ Effect w (w.step order (.fill n f)) (.fill n f) := by
  obtain ⟨front, gap, rest, hdata, hpos, hgap, hfill⟩ := h.laid.fill hslot
  rw [Nat.zero_add] at hpos
  have hindex : w.jos.currIndex_ ≤ w.jos.buffer_.length := h.index
  have htotal := h.index.length_data
  rw [hdata, List.length_append, List.length_append] at htotal
  have hwrite : StreamRoundTrip.write order (w.jos.reposition slot.pos) f =
      (w.jos.reposition slot.pos).append f.text := by
    refine write_of_room hf ?_
    simp only [reposition]
    omega
  obtain ⟨hinv, hfilled⟩ := h.index.fillIn hdata (hlen.trans hgap.symm)
  rw [hpos, ← hwrite] at hinv hfilled
  simp only [Writer.step, hslot]
  refine ⟨⟨hinv, ?_, ?_⟩, slot, front, gap, rest, hslot, hpos, hgap.trans hlen.symm, hdata, hfilled⟩
  · simp only [hfilled]
    exact hfill f hlen
  · intro other hother f' hf'
    rcases List.mem_or_eq_of_mem_set hother with hmem | rfl
    · exact h.fits other hmem f' hf'
    · rwa [← Option.mem_some.mp hf']

theorem Writer.Inv.step (h : w.Inv) {op : WriteOp} (he : w.enabled op) :
    (w.step order op).Inv ∧ Effect w (w.step order op) op := by
  cases op with
  | write f => exact h.write he
  | skip len => exact h.skip len
  | fill n f =>
    obtain ⟨hf, slot, hslot, hlen⟩ := he
    exact h.fill hf hslot hlen

theorem Writer.Inv.of_run {w' : Writer} {ops : List WriteOp}
    (hr : (machine order).Run w ops w') (h : w.Inv) : w'.Inv := by
  refine hr.invariant ?_ h
  intro s op s' hs he hstep
  obtain rfl := Except.ok.inj hstep
  exact (hs.step he).1

theorem Writer.Inv.readAll_eq {order' : HostOrder} (h : w.Inv) {reads : List (ReadOp Kind)}
    {fs : List Field} (hmatches : Matches Field.kind w.slots reads fs) :
    ∃ jis, readAll (readField order') JInStream.skip reads (setData w.jos.data) =
      .ok (fs, jis) := by
  have hleft : rest (setData w.jos.data) = w.jos.data := rfl
  refine h.laid.readAll_eq ?_ ?_ hmatches hleft
  · intro slot hslot f hf
    exact reads_readField (h.fits slot hslot f hf)
  · intro s part more hrest hmore
    exact skip_of_rest hrest hmore

/-- Data without gaps is read field by field. -/
theorem read_in_order {order order' : HostOrder} {w : Writer} {ops : List WriteOp}
    (hr : (machine order).Run .new ops w) {fs : List Field}
    (hfilled : w.slots.map Slot.value = fs.map some) :
    ∃ jis, readAll (readField order') JInStream.skip (fs.map fun f => .read f.kind)
      (setData w.jos.data) = .ok (fs, jis) :=
  (Writer.Inv.of_run hr Writer.new_inv).readAll_eq (matches_of_filled hfilled)

/-- What has been written is read back, on a host of any byte order, and no operation of a
writer does anything else to the data. -/
theorem round_trip {order order' : HostOrder} {w : Writer} {ops : List WriteOp}
    (hr : (machine order).Run .new ops w) :
    (∀ reads fs, Matches Field.kind w.slots reads fs →
      ∃ jis, readAll (readField order') JInStream.skip reads (setData w.jos.data) =
        .ok (fs, jis)) ∧
    ∀ op, w.enabled op → Effect w (w.step order op) op := by
  have h := Writer.Inv.of_run hr Writer.new_inv
  exact ⟨fun reads fs hmatches => h.readAll_eq hmatches, fun op he => (h.step he).2⟩

/-- A command, a gap for the length, an empty string and a negative number; the length is filled
in at the end. -/
def sampleOps : List WriteOp :=
  [] ++ [.write (.uint16 1)] ++ [.skip 2] ++ [.write (.string [])] ++ [.write (.int32 (-1))] ++
    [.fill 1 (.uint16 6)]

theorem run_sampleOps : (machine .little).Run .new sampleOps
    (sampleOps.foldl (Writer.step .little) .new) :=
  .snoc (.snoc (.snoc (.snoc (.snoc (.nil _) trivial rfl) trivial rfl) (Nat.zero_le _) rfl)
    trivial rfl) ⟨trivial, _, rfl, rfl⟩ rfl

theorem round_trip_sample :
    (∀ reads fs, Matches Field.kind (sampleOps.foldl (Writer.step .little) .new).slots reads fs →
      ∃ jis, readAll (readField .big) JInStream.skip reads
        (setData (sampleOps.foldl (Writer.step .little) .new).jos.data) = .ok (fs, jis)) ∧
    ∀ op, (sampleOps.foldl (Writer.step .little) .new).enabled op →
      Effect (sampleOps.foldl (Writer.step .little) .new)
        ((sampleOps.foldl (Writer.step .little) .new).step .little op) op :=
  round_trip run_sampleOps

end Writer

end StreamRoundTrip

end MuduoServer
