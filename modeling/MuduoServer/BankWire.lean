import MuduoServer.BankPackets
import MuduoServer.Idea
import Mathlib.Data.List.TakeWhile

/-!
How the two programs of `ABCBank` build their packets, and what is received of one. A
packet is written with a gap for its length, which is filled in when the body is complete;
the hash follows. The program that receives it finds the body in its buffer and nothing
of what comes behind the packet. Passwords are encrypted with a key made from the command.
-/
namespace MuduoServer.BankWire

open Block Endian FaultMachine WireFormat BankPackets

/-- The algorithms that both programs are built with. -/
structure Algorithms where
  md5Make : MD5
  Key : Type
  IdeaExpandKey : List UInt8 → Key
  IdeaCipher : List UInt8 → Key → List UInt8

/-- What may differ between the two programs: the byte order, the bytes of a new `Idea`
object, and what stands in memory behind the characters of each string. -/
structure Host (A : Algorithms) where
  order : HostOrder
  cfb : IdeaCfbContext A.Key
  behind : ℕ → Sized UInt8 19

/-- A C string. -/
def cstr (l : List UInt8) : List UInt8 := l.takeWhile (· ≠ 0)

theorem cstr_append {str : List UInt8} (h : 0 ∉ str) (l : List UInt8) :
    cstr (str ++ 0 :: l) = str := by
  induction str with
  | nil => simp [cstr]
  | cons b str ih =>
    rw [List.mem_cons, not_or] at h
    have hb : b ≠ 0 := Ne.symm h.1
    rw [List.cons_append, cstr, List.takeWhile_cons, if_pos (by simpa using hb), ← cstr, ih h.2]

/-- Terminating a C string whose bytes are all taken. -/
theorem cstr_of_notMem {str : List UInt8} (h : 0 ∉ str) : cstr str = str := by
  rw [cstr, List.takeWhile_eq_self_iff]
  intro b hb
  have hne : b ≠ 0 := by
    rintro rfl
    exact h hb
  simpa using hne

section Build

variable {A : Algorithms} (host : Host A)

/-- The `n` bytes at `c_str()` of the string `str`, the `i`-th that is looked at so. -/
def Host.c_str (i : ℕ) (str : List UInt8) (n : ℕ) : List UInt8 :=
  (str ++ 0 :: (host.behind i).val).take n

/-- `ideaKey` for a command. -/
def ideaKey (md5Make : MD5) (cmd : BitVec 16) : List UInt8 :=
  let buf := [UInt8.ofNat (cmd.toNat / 256 % 256), UInt8.ofNat (cmd.toNat % 256)]
  let ideaKey := (md5Make buf).val
  let first := fun i => ideaKey.getD i 0 ^^^ ideaKey.getD (i + 8) 0 ^^^ mask cmd i
  (List.range 8).map first ++
    (List.range 8).map fun i => first i ^^^ ideaKey.getD (i + 8) 0 ^^^ mask cmd i

/-- `encryptedPass` of the `i`-th password. -/
def Host.encrypt (i : ℕ) (cmd : BitVec 16) (pass : List UInt8) : List UInt8 :=
  Idea.crypt A.IdeaExpandKey A.IdeaCipher host.cfb (ideaKey A.md5Make cmd) (host.c_str i pass 16)
    true

/-- `pass`, used as a C string. -/
def Host.decrypt (cmd : BitVec 16) (encryptedPass : List UInt8) : List UInt8 :=
  cstr (Idea.crypt A.IdeaExpandKey A.IdeaCipher host.cfb (ideaKey A.md5Make cmd) encryptedPass
    false)

/-- Fill in the length and add the trailer. -/
def Host.seal (cmd : BitVec 16) (lengthPos headSize : ℕ) (jos : JOutStream) : JOutStream :=
  let tailPos := jos.length
  let jos := jos.reposition lengthPos
  let jos := jos.writeUInt16 host.order (BitVec.ofNat 16 (tailPos + 8 - headSize))
  let jos := jos.reposition tailPos
  jos.writeBytes (hash A.md5Make cmd jos.data)

/-- A request, whose fields `fields` writes. -/
def Host.request (cmd : BitVec 16) (fields : JOutStream → JOutStream) : List UInt8 :=
  let jos := JOutStream.new.writeUInt16 host.order cmd
  let lengthPos := jos.length
  let jos := fields (jos.skip 2)
  (host.seal cmd lengthPos requestHeadSize jos).data

/-- A response; `error_msg` is the array without its last byte. -/
def Host.response (cmd cnt seq error_code : BitVec 16) (error_msg : List UInt8)
    (fields : JOutStream → JOutStream) : List UInt8 :=
  let jos := JOutStream.new.writeUInt16 host.order cmd
  let lengthPos := jos.length
  let jos := jos.skip 2
  let jos := jos.writeUInt16 host.order cnt
  let jos := jos.writeUInt16 host.order seq
  let jos := jos.writeUInt16 host.order error_code
  let jos := jos.writeBytes error_msg
  let jos := fields jos
  (host.seal cmd lengthPos responseHeadSize jos).data

end Build

/-- A packet: the command, the length, `rest`, and the hash of all of it. -/
def hashedPart (cmd : BitVec 16) (headSize : ℕ) (rest : List UInt8) : List UInt8 :=
  beBytes 2 cmd ++ beBytes 2 (BitVec.ofNat 16 (4 + rest.length + 8 - headSize)) ++ rest

def packet (md5Make : MD5) (cmd : BitVec 16) (headSize : ℕ) (rest : List UInt8) : List UInt8 :=
  hashedPart cmd headSize rest ++ hash md5Make cmd (hashedPart cmd headSize rest)

theorem length_front (cmd : BitVec 16) (headSize : ℕ) (rest : List UInt8) :
    (hashedPart cmd headSize rest).length = 4 + rest.length := by
  simp only [hashedPart, List.length_append, length_beBytes]

theorem length_packet (md5Make : MD5) (cmd : BitVec 16) (headSize : ℕ) (rest : List UInt8) :
    (packet md5Make cmd headSize rest).length = 4 + rest.length + 8 := by
  rw [packet, List.length_append, length_front, length_hash]

section Build

variable {A : Algorithms} (host : Host A) {jos : JOutStream} {gap rest body : List UInt8}

theorem seal_data (cmd : BitVec 16) (headSize : ℕ) (h : jos.Inv) (hgap : gap.length = 2)
    (hdata : jos.data = beBytes 2 cmd ++ gap ++ rest) :
    (host.seal cmd 2 headSize jos).data = packet A.md5Make cmd headSize rest := by
  have hpos : jos.length = 4 + rest.length := by
    rw [JOutStream.length, ← h.length_data, hdata]
    simp only [List.length_append, length_beBytes, hgap]
  let len := BitVec.ofNat 16 (jos.length + 8 - headSize)
  have hmem : (memory host.order 2 (hostToNetwork host.order 2 len)).length = gap.length := by
    rw [length_memory, hgap]
  obtain ⟨hinv, hfilled⟩ := h.fillIn hdata hmem
  rw [length_beBytes] at hinv hfilled
  have hfront : (((jos.reposition 2).writeUInt16 host.order len).reposition jos.length).data =
      hashedPart cmd headSize rest := by
    rw [JOutStream.writeUInt16, hfilled, memory_hostToNetwork, hashedPart]
    simp only [len, hpos]
  have hwrites := (JOutStream.writes_writeBytes (hash A.md5Make cmd (hashedPart cmd headSize rest))
    (((jos.reposition 2).writeUInt16 host.order len).reposition jos.length) hinv).2
  rw [hfront] at hwrites
  rw [packet, ← hwrites]
  simp only [Host.seal, len, hfront]

/-- What stands behind the length of a response. -/
def responseRest (cnt seq error_code : BitVec 16) (error_msg body : List UInt8) : List UInt8 :=
  beBytes 2 cnt ++ (beBytes 2 seq ++ (beBytes 2 error_code ++ (error_msg ++ body)))

/-- The stream after the command and the gap for the length. -/
theorem head_start (cmd : BitVec 16) :
    (JOutStream.new.writeUInt16 host.order cmd).length = 2 ∧
      ((JOutStream.new.writeUInt16 host.order cmd).skip 2).Inv ∧
      ∃ gap, gap.length = 2 ∧ ((JOutStream.new.writeUInt16 host.order cmd).skip 2).data =
        beBytes 2 cmd ++ gap := by
  obtain ⟨hinv, hdata⟩ := JOutStream.writes_writeUInt16 host.order cmd _ JOutStream.new_inv
  rw [JOutStream.new_data, List.nil_append] at hdata
  obtain ⟨hskip, gap, hgap, hskipped⟩ := hinv.skip 2
  refine ⟨?_, hskip, gap, hgap, by rw [hskipped, hdata]⟩
  rw [JOutStream.length, ← hinv.length_data, hdata, length_beBytes]

theorem request_eq (cmd : BitVec 16) {fields : JOutStream → JOutStream}
    (hf : JOutStream.Writes fields body) :
    host.request cmd fields = packet A.md5Make cmd requestHeadSize body := by
  obtain ⟨hpos, hskip, gap, hgap, hskipped⟩ := head_start host cmd
  obtain ⟨hinv, hfields⟩ := hf _ hskip
  rw [hskipped] at hfields
  simp only [Host.request, hpos]
  exact seal_data host cmd requestHeadSize hinv hgap hfields

theorem response_eq (cmd cnt seq error_code : BitVec 16) (error_msg : List UInt8)
    {fields : JOutStream → JOutStream} (hf : JOutStream.Writes fields body) :
    host.response cmd cnt seq error_code error_msg fields =
      packet A.md5Make cmd responseHeadSize (responseRest cnt seq error_code error_msg body) := by
  obtain ⟨hpos, hskip, gap, hgap, hskipped⟩ := head_start host cmd
  have hrest := (JOutStream.writes_writeUInt16 host.order cnt).comp
    ((JOutStream.writes_writeUInt16 host.order seq).comp
      ((JOutStream.writes_writeUInt16 host.order error_code).comp
        ((JOutStream.writes_writeBytes error_msg).comp hf)))
  obtain ⟨hinv, hfields⟩ := hrest _ hskip
  rw [hskipped] at hfields
  simp only [Host.response, hpos]
  exact seal_data host cmd responseHeadSize hinv hgap hfields

end Build

section Receive

variable (order : HostOrder) (md5Make : MD5) {s s₁ : BankSession} {rest more : List UInt8}

/-- A packet that fits is accepted, behind its head. -/
theorem recvBody_packet {headSize : ℕ} (hsize : 4 ≤ headSize) (cmd : BitVec 16)
    (hrest : headSize ≤ 4 + rest.length) (hfits : 4 + rest.length + 8 ≤ bufferSize)
    (hin : s.incoming = packet md5Make cmd headSize rest ++ more)
    (hin₁ : s₁.incoming = s.incoming.drop headSize)
    (hbuffer : s₁.buffer_.val.take headSize = s.incoming.take headSize) :
    ∃ s', recvBody order md5Make headSize cmd
        (BitVec.ofNat 16 (4 + rest.length + 8 - headSize)) s₁ = .ok ((), s') ∧
      s'.incoming = more ∧
      s'.buffer_.val.take (4 + rest.length + 8) = memory order 2 cmd ++
        memory order 2 (BitVec.ofNat 16 (4 + rest.length + 8 - headSize)) ++ rest ++
        hash md5Make cmd (hashedPart cmd headSize rest) := by
  have hbound : 4 + rest.length + 8 ≤ 2048 := hfits
  have hlen : (BitVec.ofNat 16 (4 + rest.length + 8 - headSize)).toNat =
      4 + rest.length + 8 - headSize := by
    rw [BitVec.toNat_ofNat, Nat.mod_eq_of_lt (by omega)]
  have hpacket := length_packet md5Make cmd headSize rest
  have hreceived := recvBody_received order md5Make hsize (by omega) cmd
    (BitVec.ofNat 16 (4 + rest.length + 8 - headSize)) hbuffer
  have hall : s.incoming.take headSize ++ s₁.incoming.take (4 + rest.length + 8 - headSize) =
      packet md5Make cmd headSize rest := by
    rw [hin₁, ← List.take_add, Nat.add_sub_cancel' (by omega), hin, List.take_left' hpacket]
  have hcount : s₁.incoming.length = 4 + rest.length + 8 - headSize + more.length := by
    rw [hin₁, List.length_drop, hin, List.length_append, hpacket]
    omega
  have hsum : headSize + (4 + rest.length + 8 - headSize) = 4 + rest.length + 8 := by omega
  have height : 4 + rest.length + 8 - 8 = 4 + rest.length := by omega
  have hfront := length_front cmd headSize rest
  generalize hr : recvBody order md5Make headSize cmd
    (BitVec.ofNat 16 (4 + rest.length + 8 - headSize)) s₁ = r at hreceived
  cases hreceived with
  | overrun long =>
    rw [hlen, List.length_take] at long
    omega
  | refused fits short e => omega
  | wrapped fits arrived some few => omega
  | wrong fits arrived some many ne =>
    rw [hlen, hsum, hall, height, packet, List.take_left' hfront, List.drop_left' hfront] at ne
    exact absurd rfl ne
  | accepted fits arrived some many eq s' incoming buffer =>
    refine ⟨s', rfl, ?_, ?_⟩
    · rw [incoming, hlen, hin₁, List.drop_drop, hsum, hin, List.drop_left' hpacket]
    · have hdrop : (packet md5Make cmd headSize rest).drop 4 =
          rest ++ hash md5Make cmd (hashedPart cmd headSize rest) := by
        have hhead : (beBytes 2 cmd ++
            beBytes 2 (BitVec.ofNat 16 (4 + rest.length + 8 - headSize))).length = 4 := by
          rw [List.length_append, length_beBytes, length_beBytes]
        rw [packet, hashedPart, List.append_assoc _ rest, List.drop_left' hhead]
      rw [hlen, hsum, hall, hdrop] at buffer
      rw [buffer, ← List.append_assoc]

theorem wireField_be (x : BitVec 16) (first : List UInt8) {l : List UInt8} {i : ℕ}
    (hi : first.length = i) :
    wireField (first ++ (beBytes 2 x ++ l)) i = x := by
  rw [wireField, List.drop_left' hi, List.take_left' (length_beBytes 2 x), beBytes,
    List.reverse_reverse]
  exact ofNat_ofLeBytes_leBytes 2 x

theorem wireField_packet (cmd : BitVec 16) (headSize : ℕ) (rest more : List UInt8) :
    wireField (packet md5Make cmd headSize rest ++ more) 0 = cmd ∧
      wireField (packet md5Make cmd headSize rest ++ more) 2 =
        BitVec.ofNat 16 (4 + rest.length + 8 - headSize) := by
  constructor
  · rw [packet, hashedPart, List.append_assoc, List.append_assoc, List.append_assoc]
    exact wireField_be cmd [] rfl
  · rw [packet, hashedPart, List.append_assoc, List.append_assoc, List.append_assoc]
    exact wireField_be _ (beBytes 2 cmd) (length_beBytes 2 cmd)

/-- The packet in the buffer of a session: command and length in the order of the host. -/
structure Holds (s : BankSession) (cmd : BitVec 16) (headSize : ℕ) (rest : List UInt8) : Prop where
  fits : 4 + rest.length + 8 ≤ bufferSize
  head_le : headSize ≤ 4 + rest.length
  buffer : s.buffer_.val.take (4 + rest.length + 8) = memory order 2 cmd ++
    memory order 2 (BitVec.ofNat 16 (4 + rest.length + 8 - headSize)) ++ rest ++
    hash md5Make cmd (hashedPart cmd headSize rest)

theorem recvHead_packet {headSize : ℕ} (hsize : 4 ≤ headSize) (cmd : BitVec 16)
    (hrest : headSize ≤ 4 + rest.length) (hfits : 4 + rest.length + 8 ≤ bufferSize)
    (next : BitVec 16 → BitVec 16 → Session Unit)
    (hnext : next cmd (BitVec.ofNat 16 (4 + rest.length + 8 - headSize)) =
      recvBody order md5Make headSize cmd (BitVec.ofNat 16 (4 + rest.length + 8 - headSize)))
    (hin : s.incoming = packet md5Make cmd headSize rest ++ more) :
    ∃ s', recvHead order headSize next s = .ok ((), s') ∧ s'.incoming = more ∧
      Holds order md5Make s' cmd headSize rest := by
  obtain ⟨hcmd, hlen⟩ := wireField_packet md5Make cmd headSize rest more
  rcases recvHead_cases order hsize (by omega) next s with
    ⟨hshort, -⟩ | ⟨-, s₁, hin₁, hbuffer₁, hrun⟩
  · rw [hin, List.length_append, length_packet] at hshort
    omega
  · obtain ⟨s', hbody, hmore, hbuffer⟩ :=
      recvBody_packet order md5Make hsize cmd hrest hfits hin hin₁ hbuffer₁
    rw [hin, hcmd, hlen, hnext] at hrun
    exact ⟨s', hrun.trans hbody, hmore, hfits, hrest, hbuffer⟩

theorem serverRecv_packet (cmd : BitVec 16) (hfits : 4 + rest.length + 8 ≤ bufferSize)
    (hin : s.incoming = packet md5Make cmd requestHeadSize rest ++ more) :
    ∃ s', serverRecv order md5Make s = .ok ((), s') ∧ s'.incoming = more ∧
      Holds order md5Make s' cmd requestHeadSize rest :=
  recvHead_packet order md5Make (by decide) cmd (by rw [requestHeadSize]; omega) hfits
    (recvBody order md5Make requestHeadSize) rfl hin

theorem clientRecv_packet (cmd : BitVec 16) (hrest : responseHeadSize ≤ 4 + rest.length)
    (hfits : 4 + rest.length + 8 ≤ bufferSize)
    (hin : s.incoming = packet md5Make cmd responseHeadSize rest ++ more) :
    ∃ s', clientRecv order md5Make s = .ok ((), s') ∧ s'.incoming = more ∧
      Holds order md5Make s' cmd responseHeadSize rest := by
  have hbound : 4 + rest.length + 8 ≤ 2048 := hfits
  have hlen : BitVec.ofNat 16 (4 + rest.length + 8 - responseHeadSize) ≠ 0 := by
    intro hzero
    have htoNat := congrArg BitVec.toNat hzero
    rw [BitVec.toNat_ofNat, Nat.mod_eq_of_lt (by omega)] at htoNat
    have hnone : 4 + rest.length + 8 - responseHeadSize = 0 := htoNat
    omega
  exact recvHead_packet order md5Make (by decide) cmd hrest hfits
    (fun cmd len => if len = 0 then pure () else recvBody order md5Make responseHeadSize cmd len)
    (if_neg hlen) hin

/-- `head.cmd` and `head.len` of a packet that has been received. -/
def hostField (i : ℕ) : Session (BitVec 16) := do
  let x ← fetch i 2
  pure (load order 2 x)

/-- `jis(GetRequestPack()->buf, GetRequestPack()->head.len)` of the server. -/
def requestStream : Session JInStream := do
  let len ← hostField order 2
  let data ← fetch requestHeadSize len.toNat
  pure (JInStream.setData data)

/-- `jis(GetResponsePack(), GetResponsePack()->head.len+sizeof(ResponseHead))` of the client. -/
def responseStream : Session JInStream := do
  let len ← hostField order 2
  let data ← fetch 0 (len.toNat + responseHeadSize)
  pure (JInStream.setData data)

/-- Decode with a stream. -/
def parse {α : Type} (p : JInStream.Reader α) (jis : JInStream) : Session α :=
  match p jis with
  | .ok r => pure r.1
  | .error f => throw (.stream f)

variable {order md5Make} {cmd : BitVec 16} {headSize : ℕ}

theorem Holds.length (h : Holds order md5Make s cmd headSize rest) :
    (BitVec.ofNat 16 (4 + rest.length + 8 - headSize)).toNat = 4 + rest.length + 8 - headSize := by
  have hbound : 4 + rest.length + 8 ≤ 2048 := h.fits
  rw [BitVec.toNat_ofNat, Nat.mod_eq_of_lt (by omega)]

/-- A part of the packet in the buffer. -/
theorem Holds.slice_eq (h : Holds order md5Make s cmd headSize rest) {i n : ℕ}
    (first part last : List UInt8) (hsplit : memory order 2 cmd ++
      memory order 2 (BitVec.ofNat 16 (4 + rest.length + 8 - headSize)) ++ rest ++
      hash md5Make cmd (hashedPart cmd headSize rest) = first ++ part ++ last)
    (hi : first.length = i) (hn : part.length = n) :
    fetch i n s = .ok (part, s) := by
  have hlen : 4 + rest.length + 8 = i + n + last.length := by
    have hcount := congrArg List.length hsplit
    simp only [List.length_append, length_memory, length_hash, hi, hn] at hcount
    omega
  have hfits := h.fits
  have hend : (first ++ part).length = i + n := by rw [List.length_append, hi, hn]
  rw [fetch_of_le (by omega), slice,
    show s.buffer_.val.take (i + n) = (s.buffer_.val.take (4 + rest.length + 8)).take (i + n) by
      rw [List.take_take, Nat.min_eq_left (by omega)],
    h.buffer, hsplit, List.take_left' hend, List.drop_left' hi]

theorem Holds.cmd_eq (h : Holds order md5Make s cmd headSize rest) :
    hostField order 0 s = .ok (cmd, s) := by
  have hfetch := h.slice_eq (i := 0) [] (memory order 2 cmd) _ (by
    rw [List.nil_append, List.append_assoc, List.append_assoc]) rfl (length_memory order 2 cmd)
  rw [hostField, run_bind, hfetch, ok_bind]
  change Except.ok (load order 2 (memory order 2 cmd), s) = _
  rw [load_memory]

theorem Holds.len_eq (h : Holds order md5Make s cmd headSize rest) :
    hostField order 2 s = .ok (BitVec.ofNat 16 (4 + rest.length + 8 - headSize), s) := by
  have hfetch := h.slice_eq (memory order 2 cmd)
    (memory order 2 (BitVec.ofNat 16 (4 + rest.length + 8 - headSize))) _ (by
    rw [List.append_assoc (memory order 2 cmd ++ _)]) (length_memory order 2 cmd)
    (length_memory order 2 _)
  rw [hostField, run_bind, hfetch, ok_bind]
  change Except.ok (load order 2 (memory order 2 _), s) = _
  rw [load_memory]

theorem Holds.requestStream_eq (h : Holds order md5Make s cmd requestHeadSize rest) :
    requestStream order s =
      .ok (JInStream.setData
        (rest ++ hash md5Make cmd (hashedPart cmd requestHeadSize rest)), s) := by
  have hfetch := h.slice_eq (i := requestHeadSize) (n := 4 + rest.length + 8 - requestHeadSize)
    (memory order 2 cmd ++
      memory order 2 (BitVec.ofNat 16 (4 + rest.length + 8 - requestHeadSize)))
    (rest ++ hash md5Make cmd (hashedPart cmd requestHeadSize rest)) [] (by
    rw [List.append_nil, ← List.append_assoc]) (by
    rw [List.length_append, length_memory, length_memory]
    rfl) (by
    rw [List.length_append, length_hash, requestHeadSize]
    omega)
  rw [requestStream, run_bind, h.len_eq, ok_bind, run_bind, h.length, hfetch]
  rfl

theorem Holds.responseStream_eq (h : Holds order md5Make s cmd responseHeadSize rest) :
    responseStream order s = .ok (JInStream.setData (memory order 2 cmd ++
      memory order 2 (BitVec.ofNat 16 (4 + rest.length + 8 - responseHeadSize)) ++ rest ++
      hash md5Make cmd (hashedPart cmd responseHeadSize rest)), s) := by
  have hle := h.head_le
  have hfetch := h.slice_eq (i := 0)
    (n := 4 + rest.length + 8 - responseHeadSize + responseHeadSize) []
    (memory order 2 cmd ++
      memory order 2 (BitVec.ofNat 16 (4 + rest.length + 8 - responseHeadSize)) ++ rest ++
      hash md5Make cmd (hashedPart cmd responseHeadSize rest)) [] (List.append_nil _).symm rfl
    (by
      simp only [List.length_append, length_memory, length_hash]
      omega)
  rw [responseStream, run_bind, h.len_eq, ok_bind, run_bind, h.length, hfetch]
  rfl

theorem parse_of_reads {α : Type} {p : JInStream.Reader α} {q more : List UInt8} {x : α}
    (h : JInStream.Reads p q x) (s : BankSession) :
    parse p (JInStream.setData (q ++ more)) s = .ok (x, s) := by
  obtain ⟨jis, hjis, -⟩ := h (JInStream.setData (q ++ more)) more rfl
  rw [parse, hjis]
  rfl

end Receive

end MuduoServer.BankWire
