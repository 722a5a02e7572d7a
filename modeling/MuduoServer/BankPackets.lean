import MuduoServer.JStreams

/-!
The packets of `ABCBank` and how the two programs receive them. Requests and responses
start with heads of different sizes and end with a hash of what stands before it, whose
length and place follow from the length in the head. Access to the receive buffer outside
its bounds is a fault of its own, apart from the exceptions that the program throws.
-/
namespace MuduoServer.BankPackets

open Block Endian FaultMachine WireFormat

/-- `MD5Make`. -/
abbrev MD5 := List UInt8 → Sized UInt8 16

/-- `(cmd >> (i%2)) & 0xff`. -/
def mask (cmd : BitVec 16) (i : ℕ) : UInt8 := UInt8.ofNat ((cmd.toNat >>> (i % 2)) % 256)

/-- The trailer of a packet whose bytes before it are `data`. -/
def hash (md5Make : MD5) (cmd : BitVec 16) (data : List UInt8) : List UInt8 :=
  let hash := (md5Make data).val
  (List.range 8).map fun i => hash.getD i 0 ^^^ hash.getD (i + 8) 0 ^^^ mask cmd i

theorem length_hash (md5Make : MD5) (cmd : BitVec 16) (data : List UInt8) :
    (hash md5Make cmd data).length = 8 := by
  simp [hash]

/-- What the programs throw: the peer has closed, the size of a packet is wrong, its hash is. -/
inductive Exception
  | peerClosed
  | wrongSize
  | wrongPacket
  deriving DecidableEq

inductive Fault
  | exception (e : Exception)
  | outOfBounds
  | stream (f : JInStream.Fault)
  deriving DecidableEq

/-- `sizeof buffer_`. -/
def bufferSize : ℕ := 2048

/-- A session sees the bytes that will come in, and whether an error or the end of the
stream follows them. -/
structure BankSession where
  incoming : List UInt8
  broken : Bool
  buffer_ : Sized UInt8 bufferSize

abbrev Session := StateT BankSession (Except Fault)

/-- Write `data` into the buffer from index `i` on. -/
def store (i : ℕ) (data : List UInt8) : Session Unit := fun s =>
  if h : i + data.length ≤ bufferSize then
    .ok ((), { s with
      buffer_ := ⟨overwrite s.buffer_.val i data, by
        rw [length_overwrite _ _ _ (by rw [s.buffer_.property]; exact h), s.buffer_.property]⟩ })
  else .error .outOfBounds

/-- Read `n` bytes of the buffer from index `i` on. -/
def fetch (i n : ℕ) : Session (List UInt8) := fun s =>
  if i + n ≤ bufferSize then .ok (slice s.buffer_.val i (i + n), s) else .error .outOfBounds

/-- What `RecvN` returns: the length, 0 at the end of the stream, or `SOCKET_ERROR`. -/
def RecvN (i len : ℕ) : Session ℤ := do
  let s ← get
  let data := s.incoming.take len
  store i data
  modify fun s => { s with incoming := s.incoming.drop len }
  pure (if data.length = len then len else if s.broken then -1 else 0)

/-- The tests of the value that `RecvN` has returned. -/
def expect (ret : ℤ) (len : ℕ) : Session Unit :=
  if ret = 0 then throw (.exception .peerClosed)
  else if ret ≠ len then throw (.exception .wrongSize)
  else pure ()

section Recv

variable (order : HostOrder) (md5Make : MD5)

/-- A field of 16 bits in the head of the packet. -/
def headField (i : ℕ) : Session (BitVec 16) := do
  let be16 ← fetch i 2
  pure (networkToHost order 2 (load order 2 be16))

/-- `sizeof(head)+len-8` is computed with 32 bits and without a sign. -/
def checkHash (headSize : ℕ) (cmd len : BitVec 16) : Session Unit := do
  let front ← fetch 0 ((headSize + len.toNat + (2 ^ 32 - 8)) % 2 ^ 32)
  let tail ← fetch (headSize + len.toNat - 8) 8
  if hash md5Make cmd front ≠ tail then throw (.exception .wrongPacket) else pure ()

/-- Command and length are put into the order of the host. -/
def setHead (cmd len : BitVec 16) : Session Unit := do
  store 0 (memory order 2 cmd)
  store 2 (memory order 2 len)

/-- Receive the body and the trailer behind a head. -/
def recvBody (headSize : ℕ) (cmd len : BitVec 16) : Session Unit := do
  let ret ← RecvN headSize len.toNat
  expect ret len.toNat
  checkHash md5Make headSize cmd len
  setHead order cmd len

/-- `sizeof(RequestHead)`. -/
def requestHeadSize : ℕ := 4

/-- `sizeof(ResponseHead)`. -/
def responseHeadSize : ℕ := 40

/-- `BankSession::Recv` of the server. -/
def serverRecv : Session Unit := do
  let ret ← RecvN 0 requestHeadSize
  expect ret requestHeadSize
  let cmd ← headField order 0
  let len ← headField order 2
  recvBody order md5Make requestHeadSize cmd len

/-- `BankSession::Recv` of the client, which takes a length of 0 for a packet. -/
def clientRecv : Session Unit := do
  let ret ← RecvN 0 responseHeadSize
  expect ret responseHeadSize
  let cmd ← headField order 0
  let len ← headField order 2
  if len = 0 then pure () else recvBody order md5Make responseHeadSize cmd len

end Recv

theorem run_bind {α β : Type} (p : Session α) (f : α → Session β) (s : BankSession) :
    (p >>= f) s = p s >>= fun r => f r.1 r.2 := rfl

variable {s s' : BankSession} {i n len : ℕ}

theorem store_of_le (data : List UInt8) (h : i + data.length ≤ bufferSize) :
    ∃ s', store i data s = .ok ((), s') ∧ s'.incoming = s.incoming ∧ s'.broken = s.broken ∧
      s'.buffer_.val = overwrite s.buffer_.val i data := by
  unfold store
  rw [dif_pos h]
  exact ⟨_, rfl, rfl, rfl, rfl⟩

theorem fetch_of_le (h : i + n ≤ bufferSize) :
    fetch i n s = .ok (slice s.buffer_.val i (i + n), s) := by
  rw [fetch, if_pos h]

/-- What comes in is stored, as far as it comes. -/
theorem RecvN_of_le (h : i + (s.incoming.take len).length ≤ bufferSize) :
    ∃ s', RecvN i len s = .ok (if len ≤ s.incoming.length then (len : ℤ)
        else if s.broken then -1 else 0, s') ∧
      s'.incoming = s.incoming.drop len ∧ s'.broken = s.broken ∧
      s'.buffer_.val = overwrite s.buffer_.val i (s.incoming.take len) := by
  obtain ⟨s₁, hs₁, hin, hbroken, hbuffer⟩ := store_of_le (s := s) _ h
  refine ⟨{ s₁ with incoming := s₁.incoming.drop len }, ?_, by rw [hin], hbroken, hbuffer⟩
  have hall : (s.incoming.take len).length = len ↔ len ≤ s.incoming.length := by
    rw [List.length_take]
    omega
  have hrun : RecvN i len s = store i (s.incoming.take len) s >>= fun r =>
      .ok (if (s.incoming.take len).length = len then (len : ℤ) else if s.broken then -1 else 0,
        { r.2 with incoming := r.2.incoming.drop len }) := rfl
  rw [hrun, hs₁, ok_bind]
  simp only [hall]

theorem RecvN_outOfBounds (h : ¬ i + (s.incoming.take len).length ≤ bufferSize) :
    RecvN i len s = .error .outOfBounds := by
  have hstore : store i (s.incoming.take len) s = .error .outOfBounds := by
    rw [store, dif_neg h]
  have hrun : RecvN i len s = store i (s.incoming.take len) s >>= fun r =>
      .ok (if (s.incoming.take len).length = len then (len : ℤ) else if s.broken then -1 else 0,
        { r.2 with incoming := r.2.incoming.drop len }) := rfl
  rw [hrun, hstore]
  rfl

theorem expect_of_eq (h : n ≠ 0) : expect n n s = .ok ((), s) := by
  unfold expect
  rw [if_neg (by simpa using h), if_neg (by simp)]
  rfl

/-- Anything but a length other than 0 is refused. -/
theorem expect_of_ne (ret : ℤ) (h : ret ≠ n ∨ n = 0) :
    ∃ e, expect ret n s = .error (.exception e) := by
  unfold expect
  split
  · exact ⟨_, rfl⟩
  · split
    · exact ⟨_, rfl⟩
    · omega

section Recv

variable (order : HostOrder) (md5Make : MD5)

theorem headField_of_le (h : i + 2 ≤ bufferSize) :
    headField order i s =
      .ok (BitVec.ofNat 16 (ofLeBytes (slice s.buffer_.val i (i + 2)).reverse), s) := by
  have hlen : (slice s.buffer_.val i (i + 2)).length = 2 := by
    rw [length_slice _ _ _ (by rw [s.buffer_.property]; exact h)]
    omega
  rw [headField, run_bind, fetch_of_le h, ok_bind]
  change Except.ok (networkToHost order 2 (load order 2 (slice s.buffer_.val i (i + 2))), s) = _
  rw [networkToHost_load_eq order 2 _ hlen]

theorem setHead_eq (cmd len : BitVec 16) :
    ∃ s', setHead order cmd len s = .ok ((), s') ∧ s'.incoming = s.incoming ∧
      s'.buffer_.val = memory order 2 cmd ++ memory order 2 len ++ s.buffer_.val.drop 4 := by
  have hsize := s.buffer_.property
  have hcmd := length_memory order 2 cmd
  have hlen := length_memory order 2 len
  obtain ⟨s₁, hs₁, hin₁, -, hbuffer₁⟩ := store_of_le (s := s) (i := 0) (memory order 2 cmd)
    (by rw [hcmd]; decide)
  obtain ⟨s₂, hs₂, hin₂, -, hbuffer₂⟩ := store_of_le (s := s₁) (i := 2)
    (memory order 2 len) (by rw [hlen]; decide)
  refine ⟨s₂, ?_, hin₂.trans hin₁, ?_⟩
  · rw [setHead, run_bind, hs₁, ok_bind]
    exact hs₂
  · rw [hbuffer₂, hbuffer₁, overwrite, overwrite, hcmd, hlen, List.take_zero, List.nil_append,
      List.take_left' hcmd, List.drop_append, hcmd, List.drop_of_length_le (by omega),
      List.nil_append, List.drop_drop]

/-- What the code computes of a packet in `recvBody`, when `q` comes in behind `head`. -/
inductive Received (headSize : ℕ) (cmd len : BitVec 16) (head q : List UInt8) :
    Except Fault (Unit × BankSession) → Prop
  | overrun (long : bufferSize < headSize + (q.take len.toNat).length) :
      Received headSize cmd len head q (.error .outOfBounds)
  | refused (fits : headSize + (q.take len.toNat).length ≤ bufferSize)
      (short : q.length < len.toNat ∨ len.toNat = 0) (e : Exception) :
      Received headSize cmd len head q (.error (.exception e))
  | wrapped (fits : headSize + len.toNat ≤ bufferSize) (arrived : len.toNat ≤ q.length)
      (some : 1 ≤ len.toNat) (few : headSize + len.toNat < 8) :
      Received headSize cmd len head q (.error .outOfBounds)
  | wrong (fits : headSize + len.toNat ≤ bufferSize) (arrived : len.toNat ≤ q.length)
      (some : 1 ≤ len.toNat) (many : 8 ≤ headSize + len.toNat)
      (ne : hash md5Make cmd ((head ++ q.take len.toNat).take (headSize + len.toNat - 8)) ≠
        (head ++ q.take len.toNat).drop (headSize + len.toNat - 8)) :
      Received headSize cmd len head q (.error (.exception .wrongPacket))
  | accepted (fits : headSize + len.toNat ≤ bufferSize) (arrived : len.toNat ≤ q.length)
      (some : 1 ≤ len.toNat) (many : 8 ≤ headSize + len.toNat)
      (eq : hash md5Make cmd ((head ++ q.take len.toNat).take (headSize + len.toNat - 8)) =
        (head ++ q.take len.toNat).drop (headSize + len.toNat - 8))
      (s' : BankSession) (incoming : s'.incoming = q.drop len.toNat)
      (buffer : s'.buffer_.val.take (headSize + len.toNat) =
        memory order 2 cmd ++ memory order 2 len ++ (head ++ q.take len.toNat).drop 4) :
      Received headSize cmd len head q (.ok ((), s'))

theorem recvBody_received {headSize : ℕ} (hsize : 4 ≤ headSize) (hfit : headSize ≤ bufferSize)
    (cmd len : BitVec 16) {head : List UInt8} (hhead : s.buffer_.val.take headSize = head) :
    Received order md5Make headSize cmd len head s.incoming
      (recvBody order md5Make headSize cmd len s) := by
  have hbuffer := s.buffer_.property
  have hheadlen : head.length = headSize := by
    rw [← hhead, List.length_take, hbuffer, Nat.min_eq_left hfit]
  by_cases hlong : headSize + (s.incoming.take len.toNat).length ≤ bufferSize
  swap
  · rw [recvBody, run_bind, RecvN_outOfBounds hlong]
    exact .overrun (by omega)
  obtain ⟨s₁, hs₁, hin₁, -, hbuffer₁⟩ := RecvN_of_le hlong
  rw [recvBody, run_bind, hs₁, ok_bind, run_bind]
  by_cases harrived : len.toNat ≤ s.incoming.length ∧ 1 ≤ len.toNat
  swap
  · obtain ⟨e, he⟩ := expect_of_ne (s := s₁) (n := len.toNat)
      (if len.toNat ≤ s.incoming.length then (len.toNat : ℤ)
        else if s.broken then -1 else 0) (by
        by_cases hall : len.toNat ≤ s.incoming.length
        · right
          omega
        · left
          rw [if_neg hall]
          split <;> omega)
    rw [he]
    exact .refused hlong (by omega) e
  obtain ⟨hall, hsome⟩ := harrived
  have htake : (s.incoming.take len.toNat).length = len.toNat := by
    rw [List.length_take, Nat.min_eq_left hall]
  rw [htake] at hlong
  rw [if_pos hall, expect_of_eq (by omega), ok_bind, run_bind, checkHash, run_bind]
  have hbits := len.isLt
  by_cases hfew : headSize + len.toNat < 8
  · have hwrap : ¬ 0 + (headSize + len.toNat + (2 ^ 32 - 8)) % 2 ^ 32 ≤ bufferSize := by
      rw [Nat.mod_eq_of_lt (by omega), bufferSize]
      omega
    rw [fetch, if_neg hwrap]
    exact .wrapped hlong hall hsome hfew
  have hsmall : headSize ≤ 2048 := hfit
  have hlength : (headSize + len.toNat + (2 ^ 32 - 8)) % 2 ^ 32 = headSize + len.toNat - 8 := by
    omega
  -- the packet is in the buffer from its start on
  have hpacket : s₁.buffer_.val.take (headSize + len.toNat) = head ++ s.incoming.take len.toNat := by
    rw [hbuffer₁, overwrite, hhead]
    apply List.take_left'
    rw [List.length_append, hheadlen, htake]
  have hfront : slice s₁.buffer_.val 0 (0 + (headSize + len.toNat - 8)) =
      (head ++ s.incoming.take len.toNat).take (headSize + len.toNat - 8) := by
    rw [slice, List.drop_zero, ← hpacket, List.take_take, Nat.zero_add, Nat.min_eq_left (by omega)]
  have htail : slice s₁.buffer_.val (headSize + len.toNat - 8) (headSize + len.toNat - 8 + 8) =
      (head ++ s.incoming.take len.toNat).drop (headSize + len.toNat - 8) := by
    rw [slice, Nat.sub_add_cancel (by omega), hpacket]
  rw [hlength, fetch_of_le (by omega), ok_bind, run_bind, fetch_of_le (by omega), ok_bind, hfront,
    htail]
  by_cases heq : hash md5Make cmd
      ((head ++ s.incoming.take len.toNat).take (headSize + len.toNat - 8)) =
      (head ++ s.incoming.take len.toNat).drop (headSize + len.toNat - 8)
  swap
  · rw [if_pos heq]
    exact .wrong hlong hall hsome (by omega) heq
  obtain ⟨s₂, hs₂, hin₂, hbuffer₂⟩ := setHead_eq order cmd len (s := s₁)
  rw [if_neg (not_not.mpr heq)]
  change Received order md5Make headSize cmd len head s.incoming (setHead order cmd len s₁)
  rw [hs₂]
  refine .accepted hlong hall hsome (by omega) heq s₂ (hin₂.trans hin₁) ?_
  have hhead4 : (memory order 2 cmd ++ memory order 2 len).length = 4 := by
    rw [List.length_append, length_memory, length_memory]
  rw [hbuffer₂, List.take_append, hhead4, List.take_of_length_le (by omega), List.take_drop,
    Nat.add_sub_cancel' (by omega), hpacket]

/-- The field of 16 bits at index `i` of a packet. -/
def wireField (q : List UInt8) (i : ℕ) : BitVec 16 :=
  BitVec.ofNat 16 (ofLeBytes ((q.drop i).take 2).reverse)

/-- Receive a head and go on with its command and length. -/
def recvHead (headSize : ℕ) (next : BitVec 16 → BitVec 16 → Session Unit) : Session Unit := do
  let ret ← RecvN 0 headSize
  expect ret headSize
  let cmd ← headField order 0
  let len ← headField order 2
  next cmd len

theorem recvHead_cases {headSize : ℕ} (hsize : 4 ≤ headSize) (hfit : headSize ≤ bufferSize)
    (next : BitVec 16 → BitVec 16 → Session Unit) (s : BankSession) :
    s.incoming.length < headSize ∧
      (∃ e, recvHead order headSize next s = .error (.exception e)) ∨
    headSize ≤ s.incoming.length ∧ ∃ s₁ : BankSession,
      s₁.incoming = s.incoming.drop headSize ∧
      s₁.buffer_.val.take headSize = s.incoming.take headSize ∧
      recvHead order headSize next s =
        next (wireField s.incoming 0) (wireField s.incoming 2) s₁ := by
  have hlong : 0 + (s.incoming.take headSize).length ≤ bufferSize := by
    rw [List.length_take]
    omega
  obtain ⟨s₁, hs₁, hin₁, -, hbuffer₁⟩ := RecvN_of_le hlong
  rw [recvHead, run_bind, hs₁, ok_bind, run_bind]
  by_cases hall : headSize ≤ s.incoming.length
  swap
  · obtain ⟨e, he⟩ := expect_of_ne (s := s₁) (n := headSize)
      (if headSize ≤ s.incoming.length then (headSize : ℤ)
        else if s.broken then -1 else 0) (by
        left
        rw [if_neg hall]
        split <;> omega)
    rw [he]
    exact Or.inl ⟨by omega, e, rfl⟩
  have htake : (s.incoming.take headSize).length = headSize := by
    rw [List.length_take, Nat.min_eq_left hall]
  have hhead : s₁.buffer_.val.take headSize = s.incoming.take headSize := by
    rw [hbuffer₁, overwrite, List.take_zero, List.nil_append, List.take_left' htake]
  have hfield : ∀ i, i + 2 ≤ headSize → BitVec.ofNat 16
      (ofLeBytes (slice s₁.buffer_.val i (i + 2)).reverse) = wireField s.incoming i := by
    intro i hi
    have hslice : slice s₁.buffer_.val i (i + 2) = (s.incoming.drop i).take 2 := by
      rw [slice, ← Nat.min_eq_left hi, ← List.take_take, hhead, List.take_take, Nat.min_eq_left hi,
        List.take_drop]
    rw [hslice, wireField]
  refine Or.inr ⟨hall, s₁, hin₁, hhead, ?_⟩
  rw [if_pos hall, expect_of_eq (by omega), ok_bind, run_bind, headField_of_le order (by omega),
    ok_bind, run_bind, headField_of_le order (by omega), ok_bind, hfield 0 (by omega),
    hfield 2 (by omega)]

/-- The call throws, or it has accepted a packet with a length of 8 at least that fits into the
buffer and ends with the hash of the rest; there is no access outside the buffer. -/
def Safe (headSize : ℕ) (s : BankSession) : Except Fault (Unit × BankSession) → Prop
  | .error .outOfBounds => False
  | .error _ => True
  | .ok (_, s') => ∃ front trailer, s.incoming = front ++ trailer ++ s'.incoming ∧
      8 ≤ (wireField s.incoming 2).toNat ∧
      headSize + (wireField s.incoming 2).toNat ≤ bufferSize ∧
      (front ++ trailer).length = headSize + (wireField s.incoming 2).toNat ∧
      trailer.length = 8 ∧ trailer = hash md5Make (wireField s.incoming 0) front

/-- The 8 bytes before the end that the length of the packet gives are the hash of the bytes
before them. -/
def HashMatches (headSize : ℕ) (q : List UInt8) : Prop :=
  let size := headSize + (wireField q 2).toNat
  hash md5Make (wireField q 0) (q.take (size - 8)) = (q.take size).drop (size - 8)

/-- A body that is too long for the buffer, or a length below 8 that passes the hash. -/
def BodyUnsafe (headSize : ℕ) (q : List UInt8) : Prop :=
  let len := (wireField q 2).toNat
  let body := (q.drop headSize).take len
  bufferSize < headSize + body.length ∨
    1 ≤ len ∧ len < 8 ∧ body.length = len ∧
      (headSize + len < 8 ∨ HashMatches md5Make headSize q)

theorem safe_of_accepted {headSize : ℕ} (hfits : headSize + (wireField s.incoming 2).toNat ≤ bufferSize)
    (hmany : 8 ≤ (wireField s.incoming 2).toNat)
    (htotal : headSize + (wireField s.incoming 2).toNat ≤ s.incoming.length)
    (hmatch : HashMatches md5Make headSize s.incoming)
    (hin : s'.incoming = s.incoming.drop (headSize + (wireField s.incoming 2).toNat)) :
    Safe md5Make headSize s (.ok ((), s')) := by
  have hsplit : ∀ n, 8 ≤ n → s.incoming.take (n - 8) ++ (s.incoming.take n).drop (n - 8) =
      s.incoming.take n := by
    intro n hn
    have hfront : s.incoming.take (n - 8) = (s.incoming.take n).take (n - 8) := by
      rw [List.take_take, Nat.min_eq_left (Nat.sub_le n 8)]
    rw [hfront, List.take_append_drop]
  refine ⟨_, _, ?_, hmany, hfits, ?_, ?_, hmatch.symm⟩
  · rw [hsplit _ (by omega), hin, List.take_append_drop]
  · rw [hsplit _ (by omega), List.length_take, Nat.min_eq_left htotal]
  · rw [List.length_drop, List.length_take, Nat.min_eq_left htotal]
    omega

theorem recvBody_safe_iff {headSize : ℕ} (hsize : 4 ≤ headSize) (hfit : headSize ≤ bufferSize)
    (hall : headSize ≤ s.incoming.length) {s₁ : BankSession}
    (hin : s₁.incoming = s.incoming.drop headSize)
    (hbuffer : s₁.buffer_.val.take headSize = s.incoming.take headSize) {cmd len : BitVec 16}
    (hcmd : wireField s.incoming 0 = cmd) (hlen : wireField s.incoming 2 = len) :
    Safe md5Make headSize s (recvBody order md5Make headSize cmd len s₁) ↔
      ¬ BodyUnsafe md5Make headSize s.incoming := by
  have hreceived := recvBody_received order md5Make hsize hfit cmd len hbuffer
  have hpacket : s.incoming.take headSize ++ s₁.incoming.take len.toNat =
      s.incoming.take (headSize + len.toNat) := by
    rw [hin, ← List.take_add]
  have hrest : s₁.incoming.length = s.incoming.length - headSize := by
    rw [hin, List.length_drop]
  have hsmall : headSize ≤ 2048 := hfit
  have hmatches : HashMatches md5Make headSize s.incoming ↔
      hash md5Make cmd ((s.incoming.take headSize ++ s₁.incoming.take len.toNat).take
        (headSize + len.toNat - 8)) =
      (s.incoming.take headSize ++ s₁.incoming.take len.toNat).drop
        (headSize + len.toNat - 8) := by
    rw [HashMatches, hpacket, List.take_take, Nat.min_eq_left (Nat.sub_le _ _), hcmd, hlen]
  have htake : (s₁.incoming.take len.toNat).length = min len.toNat s₁.incoming.length :=
    List.length_take
  have hbad : BodyUnsafe md5Make headSize s.incoming ↔
      bufferSize < headSize + min len.toNat s₁.incoming.length ∨
        1 ≤ len.toNat ∧ len.toNat < 8 ∧ len.toNat ≤ s₁.incoming.length ∧
          (headSize + len.toNat < 8 ∨ HashMatches md5Make headSize s.incoming) := by
    simp only [BodyUnsafe, hlen, ← hin, htake, min_eq_left_iff]
  rw [hbad]
  generalize recvBody order md5Make headSize cmd len s₁ = r at hreceived ⊢
  cases hreceived with
  | overrun long => exact iff_of_false id (not_not.mpr (Or.inl (htake ▸ long)))
  | refused fits short e =>
    rw [htake] at fits
    refine iff_of_true trivial ?_
    rintro (hlong | ⟨hsome, -, harrived, -⟩)
    · omega
    · omega
  | wrapped fits arrived some few =>
    exact iff_of_false id (not_not.mpr (Or.inr ⟨some, by omega, arrived, Or.inl few⟩))
  | wrong fits arrived some many ne =>
    refine iff_of_true trivial ?_
    rintro (hlong | ⟨-, -, -, hfew | hmatch⟩)
    · omega
    · omega
    · exact ne (hmatches.mp hmatch)
  | accepted fits arrived some many eq s' incoming buffer =>
    have hmatch := hmatches.mpr eq
    by_cases hfew : len.toNat < 8
    · refine iff_of_false ?_ (not_not.mpr (Or.inr ⟨some, hfew, arrived, Or.inr hmatch⟩))
      rintro ⟨front, trailer, -, hmany, -⟩
      rw [hlen] at hmany
      omega
    · refine iff_of_true ?_ ?_
      · rw [← hlen] at fits incoming arrived hfew
        refine safe_of_accepted md5Make fits (by omega) (by omega) hmatch ?_
        rw [incoming, hin, List.drop_drop]
      · rintro (hlong | ⟨-, hless, -⟩)
        · omega
        · exact hfew hless

/-- What makes the server unsafe: a head and then an unsafe body. -/
def ServerUnsafe (q : List UInt8) : Prop :=
  requestHeadSize ≤ q.length ∧ BodyUnsafe md5Make requestHeadSize q

/-- The client takes a head with the length 0 for a packet as well. -/
def ClientUnsafe (q : List UInt8) : Prop :=
  responseHeadSize ≤ q.length ∧
    ((wireField q 2).toNat = 0 ∨ BodyUnsafe md5Make responseHeadSize q)

theorem serverRecv_safe_iff (s : BankSession) :
    Safe md5Make requestHeadSize s (serverRecv order md5Make s) ↔
      ¬ ServerUnsafe md5Make s.incoming := by
  change Safe md5Make requestHeadSize s (recvHead order requestHeadSize
    (recvBody order md5Make requestHeadSize) s) ↔ _
  rcases recvHead_cases order (by decide : 4 ≤ requestHeadSize) (by decide)
    (recvBody order md5Make requestHeadSize) s with
    ⟨hshort, e, he⟩ | ⟨hall, s₁, hin, hbuffer, hrun⟩
  · rw [he]
    exact iff_of_true trivial fun hbad => absurd hbad.1 (Nat.not_le.mpr hshort)
  · rw [hrun, recvBody_safe_iff order md5Make (by decide) (by decide) hall hin hbuffer rfl rfl,
      ServerUnsafe]
    simp only [hall, true_and]

theorem clientRecv_safe_iff (s : BankSession) :
    Safe md5Make responseHeadSize s (clientRecv order md5Make s) ↔
      ¬ ClientUnsafe md5Make s.incoming := by
  change Safe md5Make responseHeadSize s (recvHead order responseHeadSize
    (fun cmd len => if len = 0 then pure () else
      recvBody order md5Make responseHeadSize cmd len) s) ↔ _
  rcases recvHead_cases order (by decide : 4 ≤ responseHeadSize) (by decide)
    (fun cmd len => if len = 0 then pure () else
      recvBody order md5Make responseHeadSize cmd len) s with
    ⟨hshort, e, he⟩ | ⟨hall, s₁, hin, hbuffer, hrun⟩
  · rw [he]
    exact iff_of_true trivial fun hbad => absurd hbad.1 (Nat.not_le.mpr hshort)
  rw [hrun, ClientUnsafe]
  by_cases hzero : wireField s.incoming 2 = 0
  · rw [if_pos hzero]
    refine iff_of_false ?_ ?_
    · rintro ⟨front, trailer, -, hmany, -⟩
      rw [hzero] at hmany
      exact absurd hmany (by decide)
    · exact not_not.mpr ⟨hall, Or.inl (by rw [hzero]; rfl)⟩
  · have hlen : (wireField s.incoming 2).toNat ≠ 0 := by
      intro hnil
      exact hzero (BitVec.eq_of_toNat_eq hnil)
    rw [if_neg hzero, recvBody_safe_iff order md5Make (by decide) (by decide) hall hin hbuffer
      rfl rfl]
    simp only [hall, hlen, true_and, false_or]

/-- Whatever a peer sends, the server and the client receive it safely exactly when it is not
of these kinds. -/
theorem recv_safe_iff (s : BankSession) :
    (Safe md5Make requestHeadSize s (serverRecv order md5Make s) ↔
      ¬ ServerUnsafe md5Make s.incoming) ∧
    (Safe md5Make responseHeadSize s (clientRecv order md5Make s) ↔
      ¬ ClientUnsafe md5Make s.incoming) :=
  ⟨serverRecv_safe_iff order md5Make s, clientRecv_safe_iff order md5Make s⟩

end Recv

/-- A request head with the length 3000, and a body. -/
def longRequest (body : List UInt8) : List UInt8 := [0, 1, 11, 184] ++ body

theorem serverUnsafe_longRequest (md5Make : MD5) {body : List UInt8} (h : body.length = 3000) :
    ServerUnsafe md5Make (longRequest body) := by
  have hlen : (wireField (longRequest body) 2).toNat = 3000 := rfl
  have hbody : (longRequest body).drop requestHeadSize = body := rfl
  refine ⟨by simp [longRequest, requestHeadSize, h], Or.inl ?_⟩
  simp only [hlen, hbody, List.length_take, h]
  decide

/-- The server writes behind its buffer. -/
theorem recv_overruns :
    ¬ ∀ (order : HostOrder) (md5Make : MD5) (s : BankSession),
      Safe md5Make requestHeadSize s (serverRecv order md5Make s) ∧
        Safe md5Make responseHeadSize s (clientRecv order md5Make s) := by
  intro hall
  obtain ⟨body, hbody⟩ : ∃ body : List UInt8, body.length = 3000 :=
    ⟨List.replicate 3000 0, List.length_replicate⟩
  let md5Make : MD5 := fun _ => ⟨List.replicate 16 0, List.length_replicate⟩
  have hsafe := (hall .little md5Make
    { incoming := longRequest body
      broken := false
      buffer_ := ⟨List.replicate bufferSize 0, List.length_replicate⟩ }).1
  rw [serverRecv_safe_iff] at hsafe
  exact hsafe (serverUnsafe_longRequest md5Make hbody)

end MuduoServer.BankPackets
