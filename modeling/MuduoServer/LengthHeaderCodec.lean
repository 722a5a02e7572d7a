import MuduoServer.BufferHeadroom
import MuduoServer.Framing

/-!
`LengthHeaderCodec` of the chat example: a length of four bytes before each message. The loop of
`onMessage` takes the frames from the front of the input buffer and shuts the connection down at
a length that is not valid; what `send` writes is read back by it in any pieces.
-/
namespace MuduoServer.LengthHeaderCodec

open Endian FaultMachine Framing

def kHeaderLen : ℕ := 4

/-- What `onMessage` does outside of its buffer. -/
inductive Call
  | messageCallback_ (message : List UInt8)
  | shutdown
  deriving DecidableEq

section Functions
variable (order : HostOrder)

/-- The rounds of the loop; each but the last takes a header from the buffer. -/
def rounds : ℕ → Buffer → Except Buffer.Fault (List Call × Buffer)
  | 0, buf => pure ([], buf)
  | fuel + 1, buf =>
      if kHeaderLen ≤ buf.readableBytes then
        let len := networkToHost order 4 (load order 4 (buf.readable.take 4))
        if 65536 < len.toInt ∨ len.toInt < 0 then pure ([.shutdown], buf)
        else if len.toNat + kHeaderLen ≤ buf.readableBytes then do
          let buf ← buf.retrieve kHeaderLen
          let message := buf.readable.take len.toNat
          let buf ← buf.retrieve len.toNat
          let r ← rounds fuel buf
          pure (.messageCallback_ message :: r.1, r.2)
        else pure ([], buf)
      else pure ([], buf)

def onMessage (buf : Buffer) : Except Buffer.Fault (List Call × Buffer) :=
  rounds order buf.readableBytes buf

/-- The bytes that `send` gives to the connection. -/
def send (message : List UInt8) : Except Buffer.Fault (List UInt8) := do
  let buf ← Buffer.new.append message
  let len := BitVec.ofNat 32 message.length
  let buf ← buf.prepend (memory order 4 (hostToNetwork order 4 len))
  pure buf.readable

/-- A read of the pieces of a stream, with a call of `onMessage` after each. -/
def receive : Buffer → List (List UInt8) → Except Buffer.Fault (List Call × Buffer)
  | buf, [] => pure ([], buf)
  | buf, piece :: pieces => do
      let buf ← buf.readFd (.bytes piece)
      let first ← onMessage order buf
      let rest ← receive first.2 pieces
      pure (first.1 ++ rest.1, rest.2)

end Functions

/-- The length that a header says. -/
def headerLength (q : List UInt8) : ℕ := ofLeBytes (q.take 4).reverse

/-- What is in front of a stream. -/
def front (q : List UInt8) : Front (List UInt8) :=
  if 4 ≤ q.length then
    if 65536 < headerLength q then .bad
    else if headerLength q + 4 ≤ q.length then
      .frame ((q.drop 4).take (headerLength q)) (headerLength q + 4)
    else .more
  else .more

def encode (message : List UInt8) : List UInt8 :=
  beBytes 4 (BitVec.ofNat 32 message.length) ++ message

variable {order : HostOrder} {b : Buffer} {q d m : List UInt8} {n fuel : ℕ}

theorem headerLength_lt (q : List UInt8) : headerLength q < 2 ^ 32 := by
  have hlt := ofLeBytes_lt (q.take 4).reverse
  have hlen : (q.take 4).reverse.length ≤ 4 := by
    rw [List.length_reverse, List.length_take]
    omega
  exact Nat.lt_of_lt_of_le hlt (Nat.pow_le_pow_right (by omega) (by omega))

theorem headerLength_append (h : 4 ≤ q.length) (d : List UInt8) :
    headerLength (q ++ d) = headerLength q := by
  rw [headerLength, headerLength, List.take_append_of_le_length h]

theorem front_eq_frame : front q = .frame m n ↔ 4 ≤ q.length ∧ headerLength q ≤ 65536 ∧
    headerLength q + 4 ≤ q.length ∧ (q.drop 4).take (headerLength q) = m ∧
      headerLength q + 4 = n := by
  unfold front
  split_ifs with hlen hbad hall
  · simp only [false_iff, not_and]
    omega
  · simp only [Front.frame.injEq]
    constructor
    · exact fun h => ⟨hlen, by omega, hall, h⟩
    · exact fun h => h.2.2.2
  · simp only [false_iff, not_and]
    omega
  · simp only [false_iff, not_and]
    omega

theorem front_eq_bad : front q = .bad ↔ 4 ≤ q.length ∧ 65536 < headerLength q := by
  unfold front
  split_ifs with hlen hbad hall
  · simp [hlen, hbad]
  · simp [hbad]
  · simp [hbad]
  · simp [hlen]

def format : Format UInt8 (List UInt8) where
  front := front
  length_pos q m n h := by
    have hn := (front_eq_frame.1 h).2.2.2.2
    omega
  length_le q m n h := by
    obtain ⟨-, -, hle, -, hn⟩ := front_eq_frame.1 h
    omega
  frame_append q d m n h := by
    obtain ⟨hlen, hvalid, hle, hm, hn⟩ := front_eq_frame.1 h
    rw [front_eq_frame, headerLength_append hlen, List.length_append]
    refine ⟨by omega, hvalid, by omega, ?_, hn⟩
    rw [List.drop_append_of_le_length hlen, List.take_append_of_le_length, hm]
    rw [List.length_drop]
    omega
  bad_append q d h := by
    obtain ⟨hlen, hbad⟩ := front_eq_bad.1 h
    rw [front_eq_bad, headerLength_append hlen, List.length_append]
    exact ⟨by omega, hbad⟩

theorem length_encode (m : List UInt8) : (encode m).length = m.length + 4 := by
  rw [encode, List.length_append, length_beBytes]
  omega

/-- A message that is not too long is the frame in front of its text. -/
theorem front_encode (hm : m.length ≤ 65536) (q : List UInt8) :
    front (encode m ++ q) = .frame m (encode m).length := by
  have htext : (beBytes 4 (BitVec.ofNat 32 m.length)).length = 4 := length_beBytes 4 _
  have hheader : headerLength (encode m ++ q) = m.length := by
    rw [headerLength, encode, List.append_assoc, List.take_left' htext, beBytes,
      List.reverse_reverse, ofLeBytes_leBytes, BitVec.toNat_ofNat]
    omega
  rw [front_eq_frame, hheader, length_encode, List.length_append, length_encode]
  refine ⟨by omega, hm, by omega, ?_, rfl⟩
  rw [encode, List.append_assoc, List.drop_left' htext, List.take_left]

/-- What `send` writes is the text of the message. -/
theorem send_eq (order : HostOrder) (m : List UInt8) : send order m = .ok (encode m) := by
  obtain ⟨b, hb, hq⟩ := Buffer.new_represents.append m
  have hroom : 4 ≤ b.prependableBytes := by
    have hreader := Buffer.append_reader hb
    have hcheap : Buffer.new.readerIndex_ = Buffer.kCheapPrepend := rfl
    rw [Buffer.prependableBytes]
    unfold Buffer.kCheapPrepend at hreader hcheap
    omega
  have hlen : (memory order 4 (hostToNetwork order 4 (BitVec.ofNat 32 m.length))).length ≤
      b.prependableBytes := by
    rw [length_memory]
    exact hroom
  obtain ⟨b', hb', hq'⟩ := hq.prepend _ hlen
  rw [send, hb, ok_bind]
  change (b.prepend (memory order 4 (hostToNetwork order 4 (BitVec.ofNat 32 m.length))) >>=
    fun buf => pure buf.readable) = _
  rw [hb', ok_bind, hq'.readable_eq, memory_hostToNetwork]
  rfl

/-- The length that the program reads is the one that the header says. -/
theorem len_eq (h : b.Represents q) (hlen : 4 ≤ q.length) :
    networkToHost order 4 (load order 4 (b.readable.take 4)) =
      BitVec.ofNat 32 (headerLength q) := by
  rw [h.readable_eq]
  exact networkToHost_load_eq order 4 _ (List.length_take_of_le hlen)

theorem invalid_iff (q : List UInt8) :
    (65536 < (BitVec.ofNat 32 (headerLength q)).toInt ∨
      (BitVec.ofNat 32 (headerLength q)).toInt < 0) ↔ 65536 < headerLength q := by
  have hlt := headerLength_lt q
  rw [BitVec.toInt_eq_toNat_cond, BitVec.toNat_ofNat, Nat.mod_eq_of_lt hlt]
  split <;> omega

/-- One round of the loop, by what is in front. -/
theorem rounds_succ (order : HostOrder) (h : b.Represents q) (fuel : ℕ) :
    (front q = .more → rounds order (fuel + 1) b = .ok ([], b)) ∧
    (front q = .bad → rounds order (fuel + 1) b = .ok ([.shutdown], b)) ∧
    ∀ m n, front q = .frame m n → rounds order (fuel + 1) b = (b.retrieve 4 >>= fun buf =>
      buf.retrieve (n - 4) >>= fun buf' => rounds order fuel buf' >>= fun r =>
        pure (.messageCallback_ (buf.readable.take (n - 4)) :: r.1, r.2)) := by
  unfold front
  rw [rounds, h.readableBytes_eq]
  by_cases hlen : 4 ≤ q.length
  · have hnat : (BitVec.ofNat 32 (headerLength q)).toNat = headerLength q := by
      rw [BitVec.toNat_ofNat]
      exact Nat.mod_eq_of_lt (headerLength_lt q)
    simp only [kHeaderLen, if_pos hlen, len_eq h hlen, invalid_iff, hnat]
    by_cases hbad : 65536 < headerLength q
    · simp only [if_pos hbad]
      exact ⟨fun h => (by cases h), fun _ => rfl, fun _ _ h => (by cases h)⟩
    · by_cases hall : headerLength q + 4 ≤ q.length
      · simp only [if_neg hbad, if_pos hall]
        refine ⟨fun h => (by cases h), fun h => (by cases h), fun m n hframe => ?_⟩
        rw [← (Front.frame.inj hframe).2, Nat.add_sub_cancel]
      · simp only [if_neg hbad, if_neg hall]
        exact ⟨fun _ => rfl, fun h => (by cases h), fun _ _ h => (by cases h)⟩
  · rw [if_neg (show ¬ kHeaderLen ≤ q.length from hlen), if_neg hlen]
    exact ⟨fun _ => rfl, fun h => (by cases h), fun _ _ h => (by cases h)⟩

/-- The calls for a stream: its messages, and `shutdown` before a length that is not valid. -/
def callsOf (q : List UInt8) : List Call :=
  (format.frames q).1.map .messageCallback_ ++
    if front (format.frames q).2 = .bad then [.shutdown] else []

theorem callsOf_frame (h : front q = .frame m n) :
    callsOf q = .messageCallback_ m :: callsOf (q.drop n) := by
  have hframes : format.frames q = _ := format.frames_frame h
  rw [callsOf, hframes]
  rfl

theorem rounds_represents (h : b.Represents q) (hfuel : q.length ≤ fuel) :
    ∃ b', rounds order fuel b = .ok (callsOf q, b') ∧ b'.Represents (format.frames q).2 := by
  induction fuel generalizing b q with
  | zero =>
    obtain rfl := List.length_eq_zero_iff.1 (Nat.le_zero.1 hfuel)
    exact ⟨b, rfl, h⟩
  | succ fuel ih =>
    obtain ⟨hmore, hbad, hframe⟩ := rounds_succ order h fuel
    cases hfront : front q with
    | more =>
      have hframes : format.frames q = ([], q) := format.frames_stuck fun m n hm => by
        rw [show format.front q = front q from rfl, hfront] at hm
        cases hm
      refine ⟨b, ?_, ?_⟩
      · rw [hmore hfront, callsOf, hframes, hfront]
        rfl
      · rw [hframes]
        exact h
    | bad =>
      have hframes : format.frames q = ([], q) := format.frames_stuck fun m n hm => by
        rw [show format.front q = front q from rfl, hfront] at hm
        cases hm
      refine ⟨b, ?_, ?_⟩
      · rw [hbad hfront, callsOf, hframes, hfront]
        rfl
      · rw [hframes]
        exact h
    | frame m n =>
      obtain ⟨hlen, -, hle, hm, hn⟩ := front_eq_frame.1 hfront
      obtain ⟨b₁, hb₁, hq₁⟩ := h.retrieve hlen
      have hle₁ : n - 4 ≤ (q.drop 4).length := by
        rw [List.length_drop]
        omega
      obtain ⟨b₂, hb₂, hq₂⟩ := hq₁.retrieve hle₁
      rw [List.drop_drop, show 4 + (n - 4) = n by omega] at hq₂
      have hshort : (q.drop n).length ≤ fuel := by
        rw [List.length_drop]
        omega
      obtain ⟨b₃, hb₃, hq₃⟩ := ih hq₂ hshort
      have hmessage : b₁.readable.take (n - 4) = m := by
        rw [hq₁.readable_eq, ← hm, ← hn, Nat.add_sub_cancel]
      have hframes : format.frames q = _ := format.frames_frame hfront
      refine ⟨b₃, ?_, ?_⟩
      · rw [hframe m n hfront, hb₁, ok_bind, hb₂, ok_bind, hb₃, ok_bind, hmessage,
          callsOf_frame hfront]
        rfl
      · rw [hframes]
        exact hq₃

/-- `onMessage` takes the frames from the front of its buffer. -/
theorem onMessage_represents (order : HostOrder) (h : b.Represents q) :
    ∃ b', onMessage order b = .ok (callsOf q, b') ∧ b'.Represents (format.frames q).2 := by
  rw [onMessage, h.readableBytes_eq]
  exact rounds_represents h (Nat.le_refl _)

/-- No message is longer than the codec allows. -/
theorem length_le_of_frames (q : List UInt8) : ∀ m ∈ (format.frames q).1, m.length ≤ 65536 := by
  refine format.forall_frames (P := fun m => m.length ≤ 65536) (fun q m n h => ?_) q
  obtain ⟨-, hvalid, -, hm, -⟩ := front_eq_frame.1 h
  have htake := List.length_take_le (headerLength q) (q.drop 4)
  rw [hm] at htake
  omega

/-- Reads of a stream with nothing in it that is not a frame. -/
theorem receive_represents (order : HostOrder) {pieces : List (List UInt8)} (h : b.Represents q)
    (hstuck : format.Stuck q) (hgood : front (format.frames (q ++ pieces.flatten)).2 ≠ .bad) :
    ∃ b', receive order b pieces =
        .ok ((format.frames (q ++ pieces.flatten)).1.map .messageCallback_, b') ∧
      b'.Represents (format.frames (q ++ pieces.flatten)).2 := by
  induction pieces generalizing b q with
  | nil =>
    rw [List.flatten_nil, List.append_nil, format.frames_stuck hstuck]
    exact ⟨b, rfl, h⟩
  | cons piece pieces ih =>
    rw [List.flatten_cons, ← List.append_assoc] at hgood ⊢
    obtain ⟨b₁, hb₁, hq₁⟩ := h.readFd piece
    obtain ⟨b₂, hb₂, hq₂⟩ := onMessage_represents order hq₁
    have hfirst : front (format.frames (q ++ piece)).2 ≠ .bad := fun hbad =>
      hgood (format.front_frames_append hbad pieces.flatten)
    have hsplit := format.frames_append (q ++ piece) pieces.flatten
    rw [hsplit] at hgood ⊢
    obtain ⟨b₃, hb₃, hq₃⟩ := ih hq₂ (format.stuck_frames _) hgood
    refine ⟨b₃, ?_, hq₃⟩
    rw [receive, hb₁, ok_bind, hb₂, ok_bind, hb₃, ok_bind, callsOf, if_neg hfirst, List.append_nil,
      List.map_append]
    rfl

/-- A part of what was sent gives the first messages, and all of it gives all of them. -/
theorem receive_prefix (order : HostOrder) {ms pieces : List (List UInt8)}
    (hms : ∀ m ∈ ms, m.length ≤ 65536) (hpieces : pieces.flatten <+: ms.flatMap encode) :
    ∃ got b, receive order Buffer.new pieces = .ok (got.map .messageCallback_, b) ∧ got <+: ms ∧
      (pieces.flatten = ms.flatMap encode → got = ms ∧ b.readable = []) := by
  have hall : format.frames (ms.flatMap encode) = (ms, []) := by
    have hfront : ∀ m ∈ ms, ∀ q, format.front (encode m ++ q) = .frame m (encode m).length :=
      fun m hm q => front_encode (hms m hm) q
    have henc := format.frames_flatMap hfront []
    rw [List.append_nil, format.frames_stuck format.stuck_nil, List.append_nil] at henc
    exact henc
  obtain ⟨more, hmore⟩ := hpieces
  have hsplit := format.frames_append pieces.flatten more
  rw [hmore, hall] at hsplit
  have hgood : front (format.frames ([] ++ pieces.flatten)).2 ≠ .bad := by
    intro hbad
    have hend := format.front_frames_append hbad more
    rw [List.nil_append, hmore, hall] at hend
    cases hend
  obtain ⟨b, hb, hq⟩ := receive_represents order Buffer.new_represents format.stuck_nil hgood
  rw [List.nil_append] at hb hq
  refine ⟨_, b, hb, ⟨_, (Prod.mk.inj hsplit).1.symm⟩, fun heq => ?_⟩
  rw [heq, hall]
  rw [heq, hall] at hq
  exact ⟨rfl, hq.readable_eq⟩

end MuduoServer.LengthHeaderCodec
