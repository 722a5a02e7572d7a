import MuduoServer.BufferHeadroom

/-!
Integers and raw bytes that go through a buffer. Values are appended at the end or prepended
in front, the buffer moves its bytes at any time, and each is read back with the function
that matches it: the values come out as they went in, in order, and lie in the buffer in
big-endian order on a host of either order.
-/
namespace MuduoServer.BufferCodec

open Endian FaultMachine

/-- The bits of an `int8_t`, an `int16_t` or an `int32_t`, or raw bytes. -/
inductive Item
  | int8 (x : BitVec 8)
  | int16 (x : BitVec 16)
  | int32 (x : BitVec 32)
  | raw (data : List UInt8)
  deriving DecidableEq

/-- The function that reads an item; `raw len` is `retrieveAsString(len)`. -/
inductive Kind
  | int8
  | int16
  | int32
  | raw (len : ℕ)
  deriving DecidableEq

namespace Item

def kind : Item → Kind
  | .int8 _ => .int8
  | .int16 _ => .int16
  | .int32 _ => .int32
  | .raw data => .raw data.length

/-- The text of an item in a message. -/
def bytes : Item → List UInt8
  | .int8 x => beBytes 1 x
  | .int16 x => beBytes 2 x
  | .int32 x => beBytes 4 x
  | .raw data => data

end Item

section Functions
variable (order : HostOrder)

def appendItem (b : Buffer) : Item → Except Buffer.Fault Buffer
  | .int8 x => b.appendInt8 order x
  | .int16 x => b.appendInt16 order x
  | .int32 x => b.appendInt32 order x
  | .raw data => b.append data

def prependItem (b : Buffer) : Item → Except Buffer.Fault Buffer
  | .int8 x => b.prependInt8 order x
  | .int16 x => b.prependInt16 order x
  | .int32 x => b.prependInt32 order x
  | .raw data => b.prepend data

def readItem (b : Buffer) : Kind → Except Buffer.Fault (Item × Buffer)
  | .int8 => do
      let r ← b.readInt8 order
      pure (.int8 r.1, r.2)
  | .int16 => do
      let r ← b.readInt16 order
      pure (.int16 r.1, r.2)
  | .int32 => do
      let r ← b.readInt32 order
      pure (.int32 r.1, r.2)
  | .raw len => do
      let r ← b.retrieveAsString len
      pure (.raw r.1, r.2)

def readItems (b : Buffer) : List Kind → Except Buffer.Fault (List Item × Buffer)
  | [] => pure ([], b)
  | k :: ks => do
      let first ← readItem order b k
      let rest ← readItems first.2 ks
      pure (first.1 :: rest.1, rest.2)

end Functions

inductive Action
  | append (x : Item)
  | prepend (x : Item)
  | read (k : Kind)
  | ensureWritableBytes (len : ℕ)
  | shrink (reserve : ℕ)

/-- A buffer and what was read from it; `pending` and `taken` are the values that are in it
and those that have left it. -/
structure Session where
  buffer : Buffer
  got : List Item
  pending : List Item
  taken : List Item

namespace Session

def new : Session := { buffer := Buffer.new, got := [], pending := [], taken := [] }

/-- A value is read with the function that matches it. -/
def Matching (s : Session) : Action → Prop
  | .read k => s.pending.head?.map Item.kind = some k
  | _ => True

def step (order : HostOrder) (s : Session) : Action → Except Buffer.Fault Session
  | .append x => do
      let b ← appendItem order s.buffer x
      pure { s with buffer := b, pending := s.pending ++ [x] }
  | .prepend x => do
      let b ← prependItem order s.buffer x
      pure { s with buffer := b, pending := x :: s.pending }
  | .read k => do
      let r ← readItem order s.buffer k
      pure {
        buffer := r.2
        got := s.got ++ [r.1]
        pending := s.pending.tail
        taken := s.taken ++ s.pending.head?.toList }
  | .ensureWritableBytes len => do
      let b ← s.buffer.ensureWritableBytes len
      pure { s with buffer := b }
  | .shrink reserve => do
      let b ← s.buffer.shrink reserve
      pure { s with buffer := b }

def machine (order : HostOrder) : Machine Session Action Buffer.Fault where
  init s := s = new
  enabled := Matching
  step := step order

end Session

variable {order : HostOrder} {b b' : Buffer} {q : List UInt8}

/-- Whatever the order of the host, an item is appended as its text. -/
theorem appendItem_eq (order : HostOrder) (b : Buffer) (x : Item) :
    appendItem order b x = b.append x.bytes := by
  cases x with
  | int8 x => rw [appendItem, Buffer.appendInt8, memory_one, Item.bytes]
  | int16 x => rw [appendItem, Buffer.appendInt16, memory_hostToNetwork, Item.bytes]
  | int32 x => rw [appendItem, Buffer.appendInt32, memory_hostToNetwork, Item.bytes]
  | raw data => rfl

theorem prependItem_eq (order : HostOrder) (b : Buffer) (x : Item) :
    prependItem order b x = b.prepend x.bytes := by
  cases x with
  | int8 x => rw [prependItem, Buffer.prependInt8, memory_one, Item.bytes]
  | int16 x => rw [prependItem, Buffer.prependInt16, memory_hostToNetwork, Item.bytes]
  | int32 x => rw [prependItem, Buffer.prependInt32, memory_hostToNetwork, Item.bytes]
  | raw data => rfl

theorem appendItem_represents (h : b.Represents q) {x : Item}
    (hs : appendItem order b x = .ok b') : b'.Represents (q ++ x.bytes) := by
  rw [appendItem_eq] at hs
  obtain ⟨b₁, hb₁, hq⟩ := h.append x.bytes
  obtain rfl := Except.ok.inj (hb₁.symm.trans hs)
  exact hq

theorem prependItem_represents (h : b.Represents q) {x : Item}
    (hs : prependItem order b x = .ok b') : b'.Represents (x.bytes ++ q) := by
  rw [prependItem_eq] at hs
  have hle : x.bytes.length ≤ b.prependableBytes := by
    simp only [Buffer.prepend, bind_eq_ok, check_eq_ok] at hs
    exact hs.choose_spec.1
  obtain ⟨b₁, hb₁, hq⟩ := h.prepend x.bytes hle
  obtain rfl := Except.ok.inj (hb₁.symm.trans hs)
  exact hq

/-- The first `k` of the readable bytes, and what `retrieve` leaves. -/
theorem take_retrieve {text : List UInt8} {k : ℕ} (h : b.Represents (text ++ q))
    (hlen : text.length = k) : k ≤ b.readableBytes ∧ b.readable.take k = text ∧
      ∃ b', b.retrieve k = .ok b' ∧ b'.Represents q := by
  subst hlen
  have hle : text.length ≤ (text ++ q).length := by simp
  obtain ⟨b', hb', hq⟩ := h.retrieve hle
  rw [List.drop_left] at hq
  refine ⟨?_, ?_, b', hb', hq⟩
  · rw [h.readableBytes_eq, List.length_append]
    exact Nat.le_add_right _ _
  · rw [h.readable_eq, List.take_left]

theorem readItem_represents (order : HostOrder) {x : Item} (h : b.Represents (x.bytes ++ q)) :
    ∃ b', readItem order b x.kind = .ok (x, b') ∧ b'.Represents q := by
  cases x with
  | int8 x =>
    obtain ⟨hle, htake, b', hb', hq⟩ := take_retrieve h (length_beBytes 1 x)
    have hload : load order 1 (Item.int8 x).bytes = x := by
      rw [Item.bytes, ← memory_one order, load_memory]
    refine ⟨b', ?_, hq⟩
    simp only [Item.kind, readItem, Buffer.readInt8, Buffer.peekInt8, check_of hle, ok_bind, htake,
      hload, Buffer.retrieveInt8, hb']
    rfl
  | int16 x =>
    obtain ⟨hle, htake, b', hb', hq⟩ := take_retrieve h (length_beBytes 2 x)
    have hload : networkToHost order 2 (load order 2 (Item.int16 x).bytes) = x :=
      networkToHost_load order 2 x
    refine ⟨b', ?_, hq⟩
    simp only [Item.kind, readItem, Buffer.readInt16, Buffer.peekInt16, check_of hle, ok_bind,
      htake, hload, Buffer.retrieveInt16, hb']
    rfl
  | int32 x =>
    obtain ⟨hle, htake, b', hb', hq⟩ := take_retrieve h (length_beBytes 4 x)
    have hload : networkToHost order 4 (load order 4 (Item.int32 x).bytes) = x :=
      networkToHost_load order 4 x
    refine ⟨b', ?_, hq⟩
    simp only [Item.kind, readItem, Buffer.readInt32, Buffer.peekInt32, check_of hle, ok_bind,
      htake, hload, Buffer.retrieveInt32, hb']
    rfl
  | raw data =>
    have hle : data.length ≤ ((Item.raw data).bytes ++ q).length := by simp [Item.bytes]
    obtain ⟨b', hb', hq⟩ := h.retrieveAsString hle
    rw [Item.bytes, List.take_left] at hb'
    rw [Item.bytes, List.drop_left] at hq
    refine ⟨b', ?_, hq⟩
    simp only [Item.kind, readItem, hb', ok_bind]
    rfl

/-- Reading all items back in turn empties the buffer. -/
theorem readItems_represents (order : HostOrder) {items : List Item}
    (h : b.Represents (items.flatMap Item.bytes)) :
    ∃ b', readItems order b (items.map Item.kind) = .ok (items, b') ∧ b'.Represents [] := by
  induction items generalizing b with
  | nil => exact ⟨b, rfl, h⟩
  | cons x rest ih =>
    rw [List.flatMap_cons] at h
    obtain ⟨b₁, hb₁, hrest⟩ := readItem_represents order h
    obtain ⟨b', hb', hq⟩ := ih hrest
    refine ⟨b', ?_, hq⟩
    simp only [List.map_cons, readItems, hb₁, ok_bind, hb']
    rfl

/-- The buffer holds the pending items, and what was read is what has left it. -/
structure Session.Faithful (s : Session) : Prop where
  holds : s.buffer.Represents (s.pending.flatMap Item.bytes)
  got_eq : s.got = s.taken

theorem Session.Faithful.step {s s' : Session} (h : s.Faithful) {a : Action} (ha : s.Matching a)
    (hs : s.step order a = .ok s') : s'.Faithful := by
  cases a with
  | append x =>
    obtain ⟨b, hb, hs⟩ := bind_eq_ok.mp hs
    obtain rfl := pure_eq_ok.mp hs
    have hq := appendItem_represents h.holds hb
    refine ⟨?_, h.got_eq⟩
    simpa only [List.flatMap_append, List.flatMap_cons, List.flatMap_nil, List.append_nil] using hq
  | prepend x =>
    obtain ⟨b, hb, hs⟩ := bind_eq_ok.mp hs
    obtain rfl := pure_eq_ok.mp hs
    refine ⟨?_, h.got_eq⟩
    rw [List.flatMap_cons]
    exact prependItem_represents h.holds hb
  | read k =>
    obtain ⟨r, hr, hs⟩ := bind_eq_ok.mp hs
    obtain rfl := pure_eq_ok.mp hs
    obtain ⟨x, hx, rfl⟩ := Option.map_eq_some_iff.mp ha
    obtain ⟨rest, hpending⟩ := List.head?_eq_some_iff.mp hx
    have hholds := h.holds
    rw [hpending, List.flatMap_cons] at hholds
    obtain ⟨b', hb', hq⟩ := readItem_represents order hholds
    obtain rfl := Except.ok.inj (hb'.symm.trans hr)
    refine ⟨?_, ?_⟩
    · rw [hpending]
      exact hq
    · rw [hx, h.got_eq]
      rfl
  | ensureWritableBytes len =>
    obtain ⟨b, hb, hs⟩ := bind_eq_ok.mp hs
    obtain rfl := pure_eq_ok.mp hs
    obtain ⟨b₁, hb₁, hq, -⟩ := h.holds.ensureWritableBytes len
    obtain rfl := Except.ok.inj (hb₁.symm.trans hb)
    exact ⟨hq, h.got_eq⟩
  | shrink reserve =>
    obtain ⟨b, hb, hs⟩ := bind_eq_ok.mp hs
    obtain rfl := pure_eq_ok.mp hs
    refine ⟨?_, h.got_eq⟩
    have hint := hb
    simp only [Buffer.shrink, Buffer.toStringPiece, bind_eq_ok, check_eq_ok] at hint
    obtain ⟨-, -, -, ⟨-, hlt, -⟩, -⟩ := hint
    rw [h.holds.readableBytes_eq] at hlt
    obtain ⟨b₁, hb₁, hq⟩ := h.holds.shrink reserve hlt
    obtain rfl := Except.ok.inj (hb₁.symm.trans hb)
    exact hq

theorem Session.faithful_of_reachable {s : Session} (h : (machine order).Reachable s) :
    s.Faithful := by
  apply h.invariant
  · rintro s₀ rfl
    exact ⟨Buffer.new_represents, rfl⟩
  · intro s a s' hfaithful ha hs
    exact hfaithful.step ha hs

open BufferHeadroom in
/-- A header of `kCheapPrepend` bytes has its place in every reachable buffer without unread
prepended bytes, and values that go through a buffer are read back as they are. -/
theorem headroom_and_round_trip {ι : Type} [DecidableEq ι] {m : Marked ι}
    (hm : (BufferHeadroom.machine order).Reachable m) {s : Session}
    (hs : (Session.machine order).Reachable s) :
    (∀ i, (m.origins i).length = (m.pool.get i).readableBytes ∧
      Buffer.kCheapPrepend ≤ (m.pool.get i).prependableBytes + prependedUnread (m.origins i)) ∧
    (∀ i, prependedUnread (m.origins i) = 0 → ∀ data : List UInt8,
      data.length ≤ Buffer.kCheapPrepend → ∃ b, (m.pool.get i).prepend data = .ok b) ∧
    s.buffer.readable = s.pending.flatMap Item.bytes ∧ s.got = s.taken ∧
    (∀ x, ∃ b, appendItem order s.buffer x = .ok b) ∧
    ∃ b, readItems order s.buffer (s.pending.map Item.kind) = .ok (s.pending, b) ∧
      b.readable = [] := by
  have hmarks := marks_of_reachable hm
  have hfaithful := Session.faithful_of_reachable hs
  obtain ⟨b, hread, hempty⟩ := readItems_represents order hfaithful.holds
  refine ⟨?_, ?_, hfaithful.holds.readable_eq, hfaithful.got_eq, ?_, b, hread, hempty.readable_eq⟩
  · intro i
    exact ⟨(hmarks i).length_eq, (hmarks i).room⟩
  · intro i hnone data hlen
    exact (hmarks i).prepend_legal hnone hlen
  · intro x
    obtain ⟨b, hb, -⟩ := hfaithful.holds.append x.bytes
    exact ⟨b, (appendItem_eq order s.buffer x).trans hb⟩

section Sample

instance (s : Session) (a : Action) : Decidable ((Session.machine order).enabled s a) :=
  match a with
  | .append _ => instDecidableTrue
  | .prepend _ => instDecidableTrue
  | .read k => inferInstanceAs (Decidable (s.pending.head?.map Item.kind = some k))
  | .ensureWritableBytes _ => instDecidableTrue
  | .shrink _ => instDecidableTrue

/-- The smallest 32-bit value and a raw text; a length comes in front and is read again. -/
def sampleActions : List Action :=
  [.append (.int32 0x80000000), .append (.raw [7, 8]), .shrink 0, .prepend (.int16 6),
    .ensureWritableBytes 2000, .read .int16]

def sampleCalls : List (BufferHeadroom.Call Bool) :=
  [.op (.append true [1, 2, 3]), .op (.prependInt32 true 3), .readInt32 true,
    .op (.swap true false)]

open BufferHeadroom in
theorem headroom_and_round_trip_sample :
    ∃ (m : Marked Bool) (s : Session), (BufferHeadroom.machine .little).Reachable m ∧
      (Session.machine .little).Reachable s ∧ s.got = [.int16 6] ∧
      s.buffer.readable = [128, 0, 0, 0, 7, 8] ∧
      ∃ b, (m.pool.get false).prepend [0, 0, 0, 0, 0, 0, 0, 3] = .ok b := by
  have h : ((Session.machine .little).execute Session.new sampleActions).map
      (fun s => (s.taken, s.pending)) =
        some ([.int16 6], [.int32 0x80000000, .raw [7, 8]]) := by
    decide +kernel
  obtain ⟨s, hs, hview⟩ := Option.map_eq_some_iff.mp h
  obtain ⟨htaken, hpending⟩ := Prod.mk.inj hview
  have hm : ((BufferHeadroom.machine .little).execute
      { pool := BufferQueue.Pool.fill Buffer.new, origins := fun _ => [] } sampleCalls).map
        (fun m => prependedUnread (m.origins false)) = some 0 := by
    decide +kernel
  obtain ⟨m, hm, hnone⟩ := Option.map_eq_some_iff.mp hm
  have hreach : (BufferHeadroom.machine .little).Reachable m :=
    ⟨_, _, rfl, Machine.run_of_execute _ hm⟩
  have hsession : (Session.machine .little).Reachable s :=
    ⟨_, _, rfl, Machine.run_of_execute _ hs⟩
  obtain ⟨-, hprepend, hreadable, hgot, -⟩ := headroom_and_round_trip hreach hsession
  refine ⟨m, s, hreach, hsession, hgot.trans htaken, ?_, hprepend false hnone _ (by decide)⟩
  rw [hreadable, hpending]
  decide

end Sample

end MuduoServer.BufferCodec
