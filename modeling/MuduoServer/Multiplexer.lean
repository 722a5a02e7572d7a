import Mathlib.Data.List.GetD
import MuduoServer.BufferHeadroom
import MuduoServer.Framing

/-!
The packets of the multiplexer: what the clients send goes in packets of at most 255 bytes, with
the client's number, through one connection, and the loop at the other end gives every packet to
the connection of that number. Nothing that a client sends is lost, changed or mixed with the
bytes of another one, however the one stream is cut.
-/
namespace MuduoServer.Multiplexer

open FaultMachine Framing

def kMaxPacketLen : ℕ := 255

def kHeaderLen : ℕ := 3

inductive Fault
  | buffer (fault : Buffer.Fault)
  | packetTooLong
  deriving DecidableEq

/-- The bytes before a packet. -/
def header (len id : ℕ) : List UInt8 :=
  [UInt8.ofNat len, UInt8.ofNat (id &&& 0xFF), UInt8.ofNat ((id &&& 0xFF00) >>> 8)]

/-- What is given to the backend, and the buffer after it. -/
def sendBackendPacket (backendConn_ : Bool) (id : ℕ) (buf : Buffer) :
    Except Fault (List UInt8 × Buffer) := do
  let len := buf.readableBytes
  check (len ≤ kMaxPacketLen) Fault.packetTooLong
  let buf ← (buf.prepend (header len id)).mapError .buffer
  if backendConn_ then pure (buf.readable, buf.retrieveAll) else pure ([], buf)

/-- The loop of `sendBackendBuffer` and the last packet. -/
def sendRounds (backendConn_ : Bool) (id : ℕ) :
    ℕ → Buffer → Except Fault (List UInt8 × Buffer)
  | 0, buf => pure ([], buf)
  | fuel + 1, buf =>
      if kMaxPacketLen < buf.readableBytes then do
        let packet ← (Buffer.new.append (buf.readable.take kMaxPacketLen)).mapError .buffer
        let buf ← (buf.retrieve kMaxPacketLen).mapError .buffer
        let first ← sendBackendPacket backendConn_ id packet
        let rest ← sendRounds backendConn_ id fuel buf
        pure (first.1 ++ rest.1, rest.2)
      else if 0 < buf.readableBytes then sendBackendPacket backendConn_ id buf
      else pure ([], buf)

def sendBackendBuffer (backendConn_ : Bool) (id : ℕ) (buf : Buffer) :
    Except Fault (List UInt8 × Buffer) :=
  sendRounds backendConn_ id (buf.readableBytes + 1) buf

/-- The rounds of the loop that takes packets from a buffer. -/
def takeRounds : ℕ → Buffer → Except Buffer.Fault (List (ℕ × List UInt8) × Buffer)
  | 0, buf => pure ([], buf)
  | fuel + 1, buf =>
      if kHeaderLen < buf.readableBytes then
        let len := (buf.readable.getD 0 0).toNat
        if buf.readableBytes < len + kHeaderLen then pure ([], buf)
        else do
          let id := (buf.readable.getD 1 0).toNat ||| ((buf.readable.getD 2 0).toNat <<< 8)
          let data := (buf.readable.drop kHeaderLen).take len
          let buf ← buf.retrieve (len + kHeaderLen)
          let r ← takeRounds fuel buf
          pure ((id, data) :: r.1, r.2)
      else pure ([], buf)

def takePackets (buf : Buffer) : Except Buffer.Fault (List (ℕ × List UInt8) × Buffer) :=
  takeRounds buf.readableBytes buf

def sendBackendString (backendConn_ : Bool) (id : ℕ) (msg : List UInt8) :
    Except Fault (List UInt8) := do
  check (msg.length ≤ kMaxPacketLen) Fault.packetTooLong
  let buf ← (Buffer.new.append msg).mapError .buffer
  let r ← sendBackendPacket backendConn_ id buf
  pure r.1

/-- The bytes in the packets of one number. -/
def dataFor (id : ℕ) (packets : List (ℕ × List UInt8)) : List UInt8 :=
  (packets.filter (·.1 = id)).flatMap (·.2)

/-- The connection to the backend; `arrived` bytes of what was sent are at the other end, where
`buf` is the input buffer and `out` is given to the connection of each number. `read` is what
came from each client; the commands have the number 0. -/
structure Tunnel where
  inputBuffer_ : ℕ → Buffer
  sent : List UInt8
  arrived : ℕ
  buf : Buffer
  out : ℕ → List UInt8
  read : ℕ → List UInt8

inductive Event
  | onClientMessage (id : ℕ) (data : List UInt8)
  | command (msg : List UInt8)
  | onBackendMessage (n : ℕ)

def kMaxConns : ℕ := 10

namespace Tunnel

def new : Tunnel :=
  { inputBuffer_ := fun _ => Buffer.new
    sent := []
    arrived := 0
    buf := Buffer.new
    out := fun _ => []
    read := fun _ => [] }

def step (t : Tunnel) : Event → Except Fault Tunnel
  | .onClientMessage id data => do
      let buf ← ((t.inputBuffer_ id).readFd (.bytes data)).mapError .buffer
      let r ← sendBackendBuffer true id buf
      pure { t with
        inputBuffer_ := Function.update t.inputBuffer_ id r.2
        sent := t.sent ++ r.1
        read := Function.update t.read id (t.read id ++ data) }
  | .command msg => do
      let bytes ← sendBackendString true 0 msg
      pure { t with
        sent := t.sent ++ bytes
        read := Function.update t.read 0 (t.read 0 ++ msg) }
  | .onBackendMessage n => do
      let buf ← (t.buf.readFd (.bytes ((t.sent.drop t.arrived).take n))).mapError .buffer
      let r ← (takePackets buf).mapError .buffer
      pure { t with
        arrived := t.arrived + n
        buf := r.2
        out := fun id => t.out id ++ dataFor id r.1 }

/-- The numbers of the clients begin at 1; a command is a line. -/
def machine : Machine Tunnel Event Fault where
  init t := t = new
  enabled t
    | .onClientMessage id _ => 0 < id ∧ id ≤ kMaxConns
    | .command msg => 0 < msg.length ∧ msg.length ≤ kMaxPacketLen
    | .onBackendMessage n => 0 < n ∧ t.arrived + n ≤ t.sent.length
  step := step

end Tunnel

def encode (p : ℕ × List UInt8) : List UInt8 := header p.2.length p.1 ++ p.2

/-- What is in front of a stream of packets. -/
def front (q : List UInt8) : Front (ℕ × List UInt8) :=
  if 3 < q.length ∧ (q.getD 0 0).toNat + 3 ≤ q.length then
    .frame ((q.getD 1 0).toNat ||| ((q.getD 2 0).toNat <<< 8), (q.drop 3).take (q.getD 0 0).toNat)
      ((q.getD 0 0).toNat + 3)
  else .more

variable {b b' : Buffer} {q d : List UInt8} {p : ℕ × List UInt8} {id n fuel : ℕ}
  {ps qs : List (ℕ × List UInt8)}

theorem front_eq_frame : front q = .frame p n ↔
    (3 < q.length ∧ (q.getD 0 0).toNat + 3 ≤ q.length) ∧
      ((q.getD 1 0).toNat ||| ((q.getD 2 0).toNat <<< 8),
        (q.drop 3).take (q.getD 0 0).toNat) = p ∧ (q.getD 0 0).toNat + 3 = n := by
  unfold front
  split_ifs with h
  · simp only [Front.frame.injEq, h, and_self, true_and]
  · simp only [h, false_and]

def format : Format UInt8 (ℕ × List UInt8) where
  front := front
  length_pos q p n h := by
    have hn := (front_eq_frame.1 h).2.2
    omega
  length_le q p n h := by
    obtain ⟨⟨-, hle⟩, -, hn⟩ := front_eq_frame.1 h
    omega
  frame_append q d p n h := by
    obtain ⟨⟨hlen, hle⟩, hp, hn⟩ := front_eq_frame.1 h
    rw [front_eq_frame, List.getD_append q d 0 0 (by omega), List.getD_append q d 0 1 (by omega),
      List.getD_append q d 0 2 (by omega), List.length_append]
    refine ⟨⟨by omega, by omega⟩, ?_, hn⟩
    rw [List.drop_append_of_le_length (by omega), List.take_append_of_le_length, hp]
    rw [List.length_drop]
    omega
  bad_append q d h := by
    have h : front q = .bad := h
    unfold front at h
    split at h
    · cases h
    · cases h

theorem toNat_header (hid : id < 65536) :
    (UInt8.ofNat (id &&& 0xFF)).toNat ||| ((UInt8.ofNat ((id &&& 0xFF00) >>> 8)).toNat <<< 8) =
      id := by
  have hlow : id &&& 0xFF = id % 256 := Nat.and_two_pow_sub_one_eq_mod id 8
  have hhigh : (id &&& 0xFF00) >>> 8 = id / 256 := by
    rw [Nat.shiftRight_and_distrib, Nat.shiftRight_eq_div_pow]
    have hmask : id / 2 ^ 8 &&& 0xFF = id / 2 ^ 8 % 256 :=
      Nat.and_two_pow_sub_one_eq_mod (id / 2 ^ 8) 8
    change id / 2 ^ 8 &&& 0xFF = id / 256
    rw [hmask]
    omega
  rw [hlow, hhigh, UInt8.toNat_ofNat', UInt8.toNat_ofNat', Nat.or_comm,
    ← Nat.shiftLeft_add_eq_or_of_lt (by omega), Nat.shiftLeft_eq]
  omega

/-- A packet with something in it is read back. -/
theorem front_encode (hid : p.1 < 65536) (hpos : 0 < p.2.length) (hle : p.2.length ≤ 255)
    (q : List UInt8) : front (encode p ++ q) = .frame p (encode p).length := by
  have hlen : (UInt8.ofNat p.2.length).toNat = p.2.length := by
    rw [UInt8.toNat_ofNat']
    omega
  have hsplit : encode p ++ q = UInt8.ofNat p.2.length :: UInt8.ofNat (p.1 &&& 0xFF) ::
      UInt8.ofNat ((p.1 &&& 0xFF00) >>> 8) :: (p.2 ++ q) := rfl
  have hlength : (encode p).length = p.2.length + 3 := by
    rw [encode, List.length_append]
    exact Nat.add_comm 3 _
  rw [front_eq_frame, hlength, hsplit]
  simp only [List.getD_cons_zero, List.getD_cons_succ, hlen, toNat_header hid, List.drop_succ_cons,
    List.drop_zero, List.take_left, List.length_cons, List.length_append, and_true]
  omega

theorem takeRounds_represents (h : b.Represents q) (hfuel : q.length ≤ fuel) :
    ∃ b', takeRounds fuel b = .ok ((format.frames q).1, b') ∧
      b'.Represents (format.frames q).2 := by
  induction fuel generalizing b q with
  | zero =>
    obtain rfl := List.length_eq_zero_iff.1 (Nat.le_zero.1 hfuel)
    exact ⟨b, rfl, h⟩
  | succ fuel ih =>
    rw [takeRounds, h.readableBytes_eq, h.readable_eq]
    by_cases hwhole : 3 < q.length ∧ (q.getD 0 0).toNat + 3 ≤ q.length
    · obtain ⟨hlen, hle⟩ := hwhole
      have hframe : format.frames q = _ := format.frames_frame
        (front_eq_frame.2 ⟨⟨hlen, hle⟩, rfl, rfl⟩ : format.front q = _)
      obtain ⟨b₁, hb₁, hq₁⟩ := h.retrieve hle
      have hshort : (q.drop ((q.getD 0 0).toNat + 3)).length ≤ fuel := by
        rw [List.length_drop]
        omega
      obtain ⟨b₂, hb₂, hq₂⟩ := ih hq₁ hshort
      refine ⟨b₂, ?_, ?_⟩
      · rw [if_pos (show kHeaderLen < q.length from hlen),
          if_neg (show ¬ q.length < (q.getD 0 0).toNat + kHeaderLen from Nat.not_lt.2 hle), hframe]
        change (b.retrieve ((q.getD 0 0).toNat + 3) >>= _) = _
        rw [hb₁, ok_bind, hb₂, ok_bind]
        rfl
      · rw [hframe]
        exact hq₂
    · have hstuck : format.Stuck q := fun p n hp => hwhole (front_eq_frame.1 hp).1
      rw [format.frames_stuck hstuck]
      refine ⟨b, ?_, h⟩
      by_cases hlen : kHeaderLen < q.length
      · have hpart : q.length < (q.getD 0 0).toNat + kHeaderLen := by
          unfold kHeaderLen at hlen ⊢
          omega
        rw [if_pos hlen, if_pos hpart]
        rfl
      · rw [if_neg hlen]
        rfl

theorem retrieve_reader (h : b.retrieve n = .ok b') (hb : Buffer.kCheapPrepend ≤ b.readerIndex_) :
    Buffer.kCheapPrepend ≤ b'.readerIndex_ := by
  rw [Buffer.retrieve, bind_eq_ok] at h
  obtain ⟨-, -, h⟩ := h
  split at h
  · obtain rfl := pure_eq_ok.1 h
    exact Nat.le_add_right_of_le hb
  · obtain rfl := pure_eq_ok.1 h
    exact Nat.le_refl _

theorem reader_of_append (h : Buffer.new.append d = .ok b) :
    Buffer.kCheapPrepend ≤ b.readerIndex_ := by
  rcases Buffer.append_reader h with heq | heq
  · exact Nat.le_of_eq heq.symm
  · exact Nat.le_of_eq heq.symm

/-- A packet is its header and its text, and the buffer is empty afterwards. -/
theorem sendBackendPacket_eq (h : b.Represents q) (hb : Buffer.kCheapPrepend ≤ b.readerIndex_)
    (hle : q.length ≤ 255) (id : ℕ) : ∃ b', sendBackendPacket true id b = .ok (encode (id, q), b') ∧
      b'.Represents [] ∧ Buffer.kCheapPrepend ≤ b'.readerIndex_ := by
  have hroom : (header q.length id).length ≤ b.prependableBytes := by
    have hthree : 3 ≤ Buffer.kCheapPrepend := by decide
    exact Nat.le_trans hthree hb
  obtain ⟨b₁, hb₁, hq₁⟩ := h.prepend _ hroom
  refine ⟨b₁.retrieveAll, ?_, hq₁.retrieveAll, Nat.le_refl _⟩
  rw [sendBackendPacket, h.readableBytes_eq, check_of (show q.length ≤ kMaxPacketLen from hle),
    ok_bind, hb₁, mapError_ok, ok_bind, if_pos rfl, hq₁.readable_eq]
  rfl

/-- A packet that the loop sends for the client `id`. -/
structure Packet (id : ℕ) (p : ℕ × List UInt8) : Prop where
  id_eq : p.1 = id
  pos : 0 < p.2.length
  le : p.2.length ≤ 255

theorem sendRounds_represents (h : b.Represents q) (hb : Buffer.kCheapPrepend ≤ b.readerIndex_)
    (hfuel : q.length < fuel) (id : ℕ) : ∃ (ps : List (ℕ × List UInt8)) (b' : Buffer),
      sendRounds true id fuel b = .ok (ps.flatMap encode, b') ∧ b'.Represents [] ∧
      Buffer.kCheapPrepend ≤ b'.readerIndex_ ∧ (∀ p ∈ ps, Packet id p) ∧
      ps.flatMap Prod.snd = q := by
  induction fuel generalizing b q with
  | zero => omega
  | succ fuel ih =>
    rw [sendRounds, h.readableBytes_eq, h.readable_eq]
    by_cases hlong : kMaxPacketLen < q.length
    · have hle : kMaxPacketLen ≤ q.length := Nat.le_of_lt hlong
      obtain ⟨b₁, hb₁, hq₁⟩ := Buffer.new_represents.append (q.take kMaxPacketLen)
      rw [List.nil_append] at hq₁
      have hroom := reader_of_append hb₁
      have hshort : (q.take kMaxPacketLen).length = 255 := List.length_take_of_le hle
      obtain ⟨b₂, hb₂, -⟩ := sendBackendPacket_eq hq₁ hroom (Nat.le_of_eq hshort) id
      obtain ⟨b₃, hb₃, hq₃⟩ := h.retrieve hle
      have hrest : (q.drop kMaxPacketLen).length < fuel := by
        rw [List.length_drop]
        unfold kMaxPacketLen at hlong ⊢
        omega
      obtain ⟨ps, b₄, hb₄, hq₄, hroom₄, hps, hdata⟩ := ih hq₃ (retrieve_reader hb₃ hb) hrest
      refine ⟨(id, q.take kMaxPacketLen) :: ps, b₄, ?_, hq₄, hroom₄, ?_, ?_⟩
      · rw [if_pos hlong, hb₁, mapError_ok, ok_bind, hb₃, mapError_ok, ok_bind, hb₂, ok_bind, hb₄,
          ok_bind, List.flatMap_cons]
        rfl
      · intro p hp
        rcases List.mem_cons.1 hp with rfl | hp
        · exact ⟨rfl, Nat.lt_of_lt_of_eq (by omega) hshort.symm, Nat.le_of_eq hshort⟩
        · exact hps p hp
      · rw [List.flatMap_cons, hdata]
        exact List.take_append_drop _ _
    · rw [if_neg hlong]
      by_cases hpos : 0 < q.length
      · obtain ⟨b₁, hb₁, hq₁, hroom⟩ := sendBackendPacket_eq h hb (Nat.not_lt.1 hlong) id
        refine ⟨[(id, q)], b₁, ?_, hq₁, hroom, ?_, by simp⟩
        · rw [if_pos hpos, hb₁, List.flatMap_singleton]
        · intro p hp
          rw [List.mem_singleton] at hp
          subst hp
          exact ⟨rfl, hpos, Nat.not_lt.1 hlong⟩
      · obtain rfl := List.length_eq_zero_iff.1 (Nat.eq_zero_of_not_pos hpos)
        refine ⟨[], b, ?_, h, hb, ?_, rfl⟩
        · rw [if_neg hpos]
          rfl
        · intro p hp
          cases hp

theorem dataFor_append (id : ℕ) (ps qs : List (ℕ × List UInt8)) :
    dataFor id (ps ++ qs) = dataFor id ps ++ dataFor id qs := by
  rw [dataFor, dataFor, dataFor, List.filter_append, List.flatMap_append]

/-- The packets of one client are all for it. -/
theorem dataFor_packets {k : ℕ} (hps : ∀ p ∈ ps, Packet k p) (id : ℕ) :
    dataFor id ps = if id = k then ps.flatMap Prod.snd else [] := by
  by_cases hid : id = k
  · have hall : ps.filter (·.1 = id) = ps := List.filter_eq_self.2 fun p hp => by
      simpa [hid] using (hps p hp).id_eq
    rw [if_pos hid, dataFor, hall]
  · have hnone : ps.filter (·.1 = id) = [] := List.filter_eq_nil_iff.2 fun p hp => by
      simpa [(hps p hp).id_eq] using Ne.symm hid
    rw [if_neg hid, dataFor, hnone]
    rfl

/-- What was sent is the packets of what was read, and what has arrived is given out. -/
structure Carries (t : Tunnel) : Prop where
  input : ∀ id, (t.inputBuffer_ id).Represents [] ∧
    Buffer.kCheapPrepend ≤ (t.inputBuffer_ id).readerIndex_
  packets : ∃ ps : List (ℕ × List UInt8), t.sent = ps.flatMap encode ∧
    (∀ p ∈ ps, ∃ k, k < 65536 ∧ Packet k p) ∧ ∀ id, dataFor id ps = t.read id
  arrived : t.arrived ≤ t.sent.length
  buf : t.buf.Represents (format.frames (t.sent.take t.arrived)).2
  out : ∀ id, t.out id = dataFor id (format.frames (t.sent.take t.arrived)).1

variable {t t' : Tunnel}

theorem new_carries : Carries Tunnel.new where
  input _ := ⟨Buffer.new_represents, Nat.le_refl _⟩
  packets := ⟨[], rfl, fun _ h => (by cases h), fun _ => rfl⟩
  arrived := Nat.le_refl _
  buf := Buffer.new_represents
  out _ := rfl

/-- More packets of one number. -/
theorem Carries.push (h : Carries t) {k : ℕ} (hk : k < 65536) {data : List UInt8}
    (hps : ∀ p ∈ ps, Packet k p) (hdata : ps.flatMap Prod.snd = data)
    {input : ℕ → Buffer} (hinput : ∀ id, (input id).Represents [] ∧
      Buffer.kCheapPrepend ≤ (input id).readerIndex_) :
    Carries { t with
      inputBuffer_ := input
      sent := t.sent ++ ps.flatMap encode
      read := Function.update t.read k (t.read k ++ data) } := by
  have htake : (t.sent ++ ps.flatMap encode).take t.arrived = t.sent.take t.arrived :=
    List.take_append_of_le_length h.arrived
  obtain ⟨qs, hsent, hqs, hread⟩ := h.packets
  refine ⟨hinput, ⟨qs ++ ps, ?_, ?_, ?_⟩, ?_, ?_, ?_⟩
  · rw [List.flatMap_append, hsent]
  · intro p hp
    rcases List.mem_append.1 hp with hp | hp
    · exact hqs p hp
    · exact ⟨k, hk, hps p hp⟩
  · intro id
    rw [dataFor_append, hread, dataFor_packets hps, hdata]
    change _ = Function.update t.read k (t.read k ++ data) id
    by_cases hid : id = k
    · subst hid
      rw [if_pos rfl, Function.update_self]
    · rw [if_neg hid, Function.update_of_ne hid, List.append_nil]
  · rw [List.length_append]
    exact Nat.le_add_right_of_le h.arrived
  · rw [htake]
    exact h.buf
  · rw [htake]
    exact h.out

theorem Carries.step (h : Carries t) {a : Event} (ha : Tunnel.machine.enabled t a) :
    ∃ t', t.step a = .ok t' ∧ Carries t' := by
  cases a with
  | onClientMessage id data =>
    obtain ⟨hpos, hle⟩ : 0 < id ∧ id ≤ kMaxConns := ha
    have hid : id < 65536 := by
      unfold kMaxConns at hle
      omega
    obtain ⟨b₁, hb₁, hq₁⟩ := (h.input id).1.readFd data
    rw [List.nil_append] at hq₁
    have hroom : Buffer.kCheapPrepend ≤ b₁.readerIndex_ := by
      rcases Buffer.readFd_reader hb₁ with heq | heq
      · rw [heq]
        exact (h.input id).2
      · exact Nat.le_of_eq heq.symm
    obtain ⟨ps, b₂, hb₂, hq₂, hroom₂, hps, hdata⟩ :=
      sendRounds_represents hq₁ hroom (Nat.lt_succ_self _) id
    have hinput : ∀ i, (Function.update t.inputBuffer_ id b₂ i).Represents [] ∧
        Buffer.kCheapPrepend ≤ (Function.update t.inputBuffer_ id b₂ i).readerIndex_ := by
      intro i
      by_cases hi : i = id
      · subst hi
        rw [Function.update_self]
        exact ⟨hq₂, hroom₂⟩
      · rw [Function.update_of_ne hi]
        exact h.input i
    refine ⟨_, ?_, h.push hid hps hdata hinput⟩
    rw [Tunnel.step, hb₁, mapError_ok, ok_bind, sendBackendBuffer, hq₁.readableBytes_eq, hb₂]
    rfl
  | command msg =>
    obtain ⟨hpos, hle⟩ : 0 < msg.length ∧ msg.length ≤ kMaxPacketLen := ha
    obtain ⟨b₁, hb₁, hq₁⟩ := Buffer.new_represents.append msg
    rw [List.nil_append] at hq₁
    have hroom := reader_of_append hb₁
    obtain ⟨b₂, hb₂, -⟩ := sendBackendPacket_eq hq₁ hroom hle 0
    have hps : ∀ p ∈ [(0, msg)], Packet 0 p := by
      intro p hp
      rw [List.mem_singleton] at hp
      subst hp
      exact ⟨rfl, hpos, hle⟩
    have hdata : [((0 : ℕ), msg)].flatMap Prod.snd = msg := List.append_nil msg
    refine ⟨_, ?_, h.push (by omega) hps hdata h.input⟩
    rw [Tunnel.step, sendBackendString, check_of hle, ok_bind, hb₁, mapError_ok, ok_bind, hb₂,
      List.flatMap_singleton]
    rfl
  | onBackendMessage n =>
    obtain ⟨hpos, hle⟩ : 0 < n ∧ t.arrived + n ≤ t.sent.length := ha
    obtain ⟨b₁, hb₁, hq₁⟩ := h.buf.readFd ((t.sent.drop t.arrived).take n)
    obtain ⟨b₂, hb₂, hq₂⟩ := takeRounds_represents hq₁ (Nat.le_refl _)
    have hsplit := format.frames_append (t.sent.take t.arrived) ((t.sent.drop t.arrived).take n)
    rw [← List.take_add] at hsplit
    refine ⟨{ t with
        arrived := t.arrived + n
        buf := b₂
        out := fun id => t.out id ++ dataFor id (format.frames ((format.frames
          (t.sent.take t.arrived)).2 ++ (t.sent.drop t.arrived).take n)).1 }, ?_, ?_⟩
    · rw [Tunnel.step, hb₁, mapError_ok, ok_bind, takePackets, hq₁.readableBytes_eq, hb₂,
        mapError_ok, ok_bind]
      rfl
    · refine ⟨h.input, h.packets, hle, ?_, fun id => ?_⟩
      · rw [hsplit]
        exact hq₂
      · rw [hsplit, dataFor_append, ← h.out id]

theorem carries_of_reachable (h : Tunnel.machine.Reachable t) : Carries t := by
  apply h.invariant
  · rintro t rfl
    exact new_carries
  · intro t a t' hcarries ha hs
    obtain ⟨u, hu, hnext⟩ := hcarries.step ha
    obtain rfl := Except.ok.inj (hu.symm.trans hs)
    exact hnext

/-- No assertion fails, and at the other end comes out, for every client, a first part of what
it has sent, and all of it when nothing is on the way. -/
theorem data_kept (h : Tunnel.machine.Reachable t) :
    (∀ a, Tunnel.machine.enabled t a → ∃ t', Tunnel.machine.step t a = .ok t') ∧
    ∀ id, t.out id <+: t.read id ∧ (t.arrived = t.sent.length → t.out id = t.read id) := by
  have hcarries := carries_of_reachable h
  constructor
  · intro a ha
    obtain ⟨t', ht', -⟩ := hcarries.step ha
    exact ⟨t', ht'⟩
  · intro id
    obtain ⟨ps, hsent, hps, hread⟩ := hcarries.packets
    have hfront : ∀ p ∈ ps, ∀ q, format.front (encode p ++ q) = .frame p (encode p).length := by
      intro p hp q
      obtain ⟨k, hk, hpacket⟩ := hps p hp
      have hid := hpacket.id_eq
      exact front_encode (by omega) hpacket.pos hpacket.le q
    have hall : format.frames t.sent = (ps, []) := by
      have henc := format.frames_flatMap hfront []
      rw [List.append_nil, format.frames_stuck format.stuck_nil, List.append_nil, ← hsent] at henc
      exact henc
    have hsplit := format.frames_append (t.sent.take t.arrived) (t.sent.drop t.arrived)
    rw [List.take_append_drop, hall] at hsplit
    rw [hcarries.out id, ← hread id]
    constructor
    · rw [(Prod.mk.inj hsplit).1, dataFor_append]
      exact List.prefix_append _ _
    · intro hend
      rw [hend, List.take_length, hall]

instance (t : Tunnel) (a : Event) : Decidable (Tunnel.machine.enabled t a) :=
  match a with
  | .onClientMessage id _ => inferInstanceAs (Decidable (0 < id ∧ id ≤ kMaxConns))
  | .command msg => inferInstanceAs (Decidable (0 < msg.length ∧ msg.length ≤ kMaxPacketLen))
  | .onBackendMessage n => inferInstanceAs (Decidable (0 < n ∧ t.arrived + n ≤ t.sent.length))

/-- Two clients and a command; the stream arrives in two pieces. -/
def sampleEvents : List Event :=
  [.onClientMessage 1 [7, 8], .command [67], .onBackendMessage 4, .onClientMessage 2 [9],
    .onClientMessage 1 [10], .onBackendMessage 13]

theorem data_kept_two : ∃ t, Tunnel.machine.Run .new sampleEvents t ∧ t.read 1 = [7, 8, 10] ∧
    t.out 1 = [7, 8, 10] := by
  have hview : (Tunnel.machine.execute .new sampleEvents).map (fun t =>
      (t.read 1, t.arrived, t.sent.length)) = some ([7, 8, 10], 17, 17) := by
    decide +kernel
  obtain ⟨t, ht, hview⟩ := Option.map_eq_some_iff.1 hview
  simp only [Prod.mk.injEq] at hview
  obtain ⟨hread, harrived, hlength⟩ := hview
  have hrun := Machine.run_of_execute _ ht
  have hout := ((data_kept ⟨_, _, rfl, hrun⟩).2 1).2 (harrived.trans hlength.symm)
  exact ⟨t, hrun, hread, hout.trans hread⟩

end MuduoServer.Multiplexer
