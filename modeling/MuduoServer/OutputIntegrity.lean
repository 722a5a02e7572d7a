import MuduoServer.TcpConnection

/-!
The byte stream that a connection puts out. The invariant relates the bytes the
kernel took, the output buffer and the data offered to `sendInLoop`; it also
says that the connection waits for `POLLOUT` exactly while it has output, which
is what makes the direct write of `sendInLoop` legal. Each operation has one
specification lemma, which later modules use as well.
-/
namespace MuduoServer

open FaultMachine

namespace Socket
variable (s : Socket) (data : List UInt8)

@[simp] theorem writeShut_write (w : WriteResult) : (s.write data w).writeShut = s.writeShut := by
  rcases w with n | errno
  · rfl
  · cases errno <;> rfl

theorem written_write (w : WriteResult) :
    (s.write data w).written = s.written ++ data.take w.nwrote := by
  rcases w with n | errno
  · rfl
  · cases errno <;> simp [write, WriteResult.nwrote]

theorem broken_write (w : WriteResult) :
    (s.write data w).broken = (s.broken || decide (w = .failed .EPIPE)) := by
  rcases w with n | errno
  · simp [write]
  · cases errno <;> simp [write]

theorem written_prefix_write (w : WriteResult) : s.written <+: (s.write data w).written := by
  rw [written_write]
  exact List.prefix_append _ _

variable {s}

theorem Accepts.nwrote_le {len : ℕ} {w : WriteResult} (h : s.Accepts len w) : w.nwrote ≤ len := by
  rcases w with n | errno
  · exact h.1
  · exact Nat.zero_le _

theorem Accepts.nwrote_eq_zero {len : ℕ} {w : WriteResult} (h : s.Accepts len w)
    (hb : s.broken ≠ false) : w.nwrote = 0 := by
  rcases w with n | errno
  · exact absurd h.2 hb
  · rfl

end Socket

namespace TcpConnection

/-- The data of a `sendInLoop` that count as offered: the connection is not
disconnected and no write has failed with `EPIPE`. -/
def offers (c : TcpConnection) (data : List UInt8) : List UInt8 :=
  if c.state_ ≠ .kDisconnected ∧ c.socket_.broken = false then data else []

/-- `offered` is what went out and what is still buffered. -/
structure Integrity (c : TcpConnection) (offered : List UInt8) : Prop where
  input : c.inputBuffer_.Inv
  output : c.outputBuffer_.Inv
  stream : c.socket_.broken = false →
    c.socket_.written ++ c.outputBuffer_.readable = offered
  sent : c.socket_.written <+: offered
  writing : c.channel_.isWriting ↔ c.state_ ≠ .kDisconnected ∧ c.outputBuffer_.readable ≠ []

variable {c : TcpConnection} {offered : List UInt8}

theorem new_integrity (writeComplete highWater : Bool) (highWaterMark : ℕ) :
    (new writeComplete highWater highWaterMark).Integrity [] where
  input := Buffer.new_represents.inv
  output := Buffer.new_represents.inv
  stream _ := Buffer.new_represents.readable_eq
  sent := List.prefix_refl _
  writing := by
    have hempty : Buffer.new.readable = [] := Buffer.new_represents.readable_eq
    simp [new, hempty]

theorem Integrity.represents (h : c.Integrity offered) :
    c.outputBuffer_.Represents c.outputBuffer_.readable := ⟨h.output, rfl⟩

theorem Integrity.readableBytes_eq_zero (h : c.Integrity offered) :
    c.outputBuffer_.readableBytes = 0 ↔ c.outputBuffer_.readable = [] := by
  rw [h.represents.readableBytes_eq, List.length_eq_zero_iff]

theorem appendRemaining_spec (hb : c.outputBuffer_.Inv) (rest : List UInt8) :
    ∃ c', c.appendRemaining rest = .ok c' ∧ c'.state_ = c.state_ ∧ c'.socket_ = c.socket_ ∧
      c'.inputBuffer_ = c.inputBuffer_ ∧
      c'.outputBuffer_.Represents (c.outputBuffer_.readable ++ rest) ∧
      c'.channel_.isWriting := by
  have hrep : c.outputBuffer_.Represents c.outputBuffer_.readable := ⟨hb, rfl⟩
  obtain ⟨b, happend, hrest⟩ := hrep.append rest
  obtain ⟨notices, hnote⟩ := noteHighWaterMark_eq c rest.length
  unfold appendRemaining
  simp only [hnote, happend, mapError_ok, ok_bind]
  by_cases hw : c.channel_.isWriting
  · refine ⟨{ c with notices := notices, outputBuffer_ := b }, ?_, rfl, rfl, rfl, hrest, hw⟩
    rw [if_pos hw]
    rfl
  · refine ⟨{ c with
      notices := notices
      outputBuffer_ := b
      channel_ := c.channel_.enableWriting }, ?_, rfl, rfl, rfl, hrest, ?_⟩
    · rw [if_neg hw]
      rfl
    · exact Channel.isWriting_enableWriting _

theorem appendRemaining_frame {rest : List UInt8} {c' : TcpConnection}
    (h : c.appendRemaining rest = .ok c') : c'.state_ = c.state_ ∧ c'.socket_ = c.socket_ := by
  obtain ⟨notices, hnote⟩ := noteHighWaterMark_eq c rest.length
  simp only [appendRemaining, hnote, bind_eq_ok] at h
  obtain ⟨b, -, h⟩ := h
  split at h
  all_goals
    rw [← pure_eq_ok.mp h]
    exact ⟨rfl, rfl⟩

/-- What `sendInLoop` does to the rest of the connection: the state is kept, and
the socket sees one write at most. -/
theorem sendInLoop_frame {data : List UInt8} {w : WriteResult} {c' : TcpConnection}
    (h : c.sendInLoop data w = .ok c') :
    c'.state_ = c.state_ ∧ (c'.socket_ = c.socket_ ∨ c'.socket_ = c.socket_.write data w) := by
  obtain ⟨notices, hdirect⟩ := writeDirectly_eq c data w
  by_cases hstate : c.state_ = .kDisconnected
  · rw [TcpConnection.sendInLoop, if_pos hstate] at h
    rw [← pure_eq_ok.mp h]
    exact ⟨rfl, Or.inl rfl⟩
  by_cases hcond : ¬ c.channel_.isWriting ∧ c.outputBuffer_.readableBytes = 0
  · simp only [TcpConnection.sendInLoop, if_neg hstate, if_pos hcond, hdirect, bind_eq_ok] at h
    obtain ⟨-, -, h⟩ := h
    split at h
    · obtain ⟨hs, hsocket⟩ := appendRemaining_frame h
      exact ⟨hs, Or.inr hsocket⟩
    · rw [← pure_eq_ok.mp h]
      exact ⟨rfl, Or.inr rfl⟩
  · simp only [TcpConnection.sendInLoop, if_neg hstate, if_neg hcond, bind_eq_ok] at h
    obtain ⟨-, -, h⟩ := h
    split at h
    · obtain ⟨hs, hsocket⟩ := appendRemaining_frame h
      exact ⟨hs, Or.inl hsocket⟩
    · rw [← pure_eq_ok.mp h]
      exact ⟨rfl, Or.inl rfl⟩

/-- The direct write, legal because nothing is buffered. -/
theorem Integrity.sendDirectly (h : c.Integrity offered) {data : List UInt8} {w : WriteResult}
    (hw : c.socket_.Accepts data.length w) (hstate : c.state_ ≠ .kDisconnected)
    (hidle : ¬ c.channel_.isWriting) (hempty : c.outputBuffer_.readable = []) :
    ∃ c', c.sendInLoop data w = .ok c' ∧ c'.Integrity (offered ++ c.offers data) := by
  obtain ⟨notices, hdirect⟩ := writeDirectly_eq c data w
  have hbytes : c.outputBuffer_.readableBytes = 0 := h.readableBytes_eq_zero.mpr hempty
  have hsent : (c.socket_.write data w).written <+: offered ++ c.offers data := by
    rw [Socket.written_write]
    by_cases hb : c.socket_.broken = false
    · have hall := h.stream hb
      rw [hempty, List.append_nil] at hall
      rw [hall, offers, if_pos ⟨hstate, hb⟩]
      exact (List.prefix_append_right_inj offered).mpr (List.take_prefix _ _)
    · rw [hw.nwrote_eq_zero hb, List.take_zero, List.append_nil]
      exact h.sent.trans (List.prefix_append _ _)
  have hstream : (c.socket_.write data w).broken = false →
      (c.socket_.write data w).written ++ data.drop w.nwrote = offered ++ c.offers data := by
    intro hb
    rw [Socket.broken_write, Bool.or_eq_false_iff] at hb
    have hall := h.stream hb.1
    rw [hempty, List.append_nil] at hall
    rw [Socket.written_write, List.append_assoc, List.take_append_drop, hall, offers,
      if_pos ⟨hstate, hb.1⟩]
  simp only [TcpConnection.sendInLoop, if_neg hstate, if_pos (And.intro hidle hbytes), hdirect,
    check_of hw.nwrote_le, ok_bind]
  by_cases hrest : decide (w = .failed .EPIPE) = false ∧ 0 < data.length - w.nwrote
  · obtain ⟨c', hc', hs, hsock, hin, hout, hwr⟩ :=
      appendRemaining_spec (c := { c with
        socket_ := c.socket_.write data w
        notices := notices }) h.output (data.drop w.nwrote)
    simp only [hempty, List.nil_append] at hout
    refine ⟨c', by rw [if_pos hrest, hc'], ?_⟩
    constructor
    · rw [hin]
      exact h.input
    · exact hout.inv
    · rw [hsock, hout.readable_eq]
      exact hstream
    · rw [hsock]
      exact hsent
    · rw [hs, hout.readable_eq]
      refine ⟨fun _ => ⟨hstate, ?_⟩, fun _ => hwr⟩
      intro hnil
      have hlen := List.drop_eq_nil_iff.mp hnil
      omega
  · refine ⟨{ c with socket_ := c.socket_.write data w, notices := notices }, ?_, h.input,
      h.output, ?_, hsent, h.writing⟩
    · rw [if_neg hrest]
      rfl
    · intro hb
      have hok := hb
      simp only [Socket.broken_write, Bool.or_eq_false_iff] at hok
      have hdone : data.drop w.nwrote = [] := by
        rw [List.drop_eq_nil_iff]
        by_contra hlt
        exact hrest ⟨hok.2, by omega⟩
      have hall := hstream hb
      rw [hdone, List.append_nil] at hall
      simp only [hempty, List.append_nil]
      exact hall

/-- Under the invariant `sendInLoop` does not fault, whatever the kernel answers. -/
theorem Integrity.sendInLoop (h : c.Integrity offered) {data : List UInt8} {w : WriteResult}
    (hw : c.socket_.Accepts data.length w) :
    ∃ c', c.sendInLoop data w = .ok c' ∧ c'.Integrity (offered ++ c.offers data) := by
  by_cases hstate : c.state_ = .kDisconnected
  · refine ⟨c, ?_, ?_⟩
    · rw [TcpConnection.sendInLoop, if_pos hstate]
      rfl
    · simpa [offers, hstate] using h
  by_cases hdirect : ¬ c.channel_.isWriting ∧ c.outputBuffer_.readable = []
  · exact h.sendDirectly hw hstate hdirect.1 hdirect.2
  -- something is buffered, so the kernel is not asked
  have hbuffered : c.outputBuffer_.readable ≠ [] := by
    intro hnil
    exact hdirect ⟨fun hwr => (h.writing.mp hwr).2 hnil, hnil⟩
  have hcond : ¬ (¬ c.channel_.isWriting ∧ c.outputBuffer_.readableBytes = 0) := by
    rw [h.readableBytes_eq_zero]
    exact hdirect
  simp only [TcpConnection.sendInLoop, if_neg hstate, if_neg hcond,
    check_of (Nat.zero_le data.length), ok_bind, Nat.sub_zero, List.drop_zero, true_and]
  have hoffers : c.socket_.broken = false → c.offers data = data := by
    intro hb
    rw [offers, if_pos ⟨hstate, hb⟩]
  by_cases hdata : 0 < data.length
  · obtain ⟨c', hc', hs, hsock, hin, hout, hwr⟩ := appendRemaining_spec h.output data
    refine ⟨c', by rw [if_pos hdata, hc'], ?_⟩
    constructor
    · rw [hin]
      exact h.input
    · exact hout.inv
    · rw [hsock, hout.readable_eq]
      intro hb
      rw [← List.append_assoc, h.stream hb, hoffers hb]
    · rw [hsock]
      exact h.sent.trans (List.prefix_append _ _)
    · rw [hs, hout.readable_eq]
      exact ⟨fun _ => ⟨hstate, by simp [hbuffered]⟩, fun _ => hwr⟩
  · have hnil : data = [] := List.length_eq_zero_iff.mp (by omega)
    refine ⟨c, by rw [if_neg hdata]; rfl, ?_⟩
    simpa [offers, hnil] using h

/-- `handleWrite` drains the output buffer with this answer of the kernel. -/
def Drains (c : TcpConnection) (w : WriteResult) : Prop :=
  c.channel_.isWriting ∧ c.outputBuffer_.readableBytes ≤ w.nwrote

instance (c : TcpConnection) (w : WriteResult) : Decidable (c.Drains w) :=
  inferInstanceAs (Decidable (_ ∧ _))

theorem shutdownInLoop_frame (c : TcpConnection) :
    c.shutdownInLoop.state_ = c.state_ ∧
      c.shutdownInLoop.socket_.written = c.socket_.written ∧
      c.shutdownInLoop.outputBuffer_ = c.outputBuffer_ := by
  unfold shutdownInLoop
  split
  · exact ⟨rfl, rfl, rfl⟩
  · exact ⟨rfl, rfl, rfl⟩

theorem Integrity.shutdownInLoop (h : c.Integrity offered) : c.shutdownInLoop.Integrity offered := by
  unfold TcpConnection.shutdownInLoop
  split
  · exact h
  · exact ⟨h.input, h.output, h.stream, h.sent, h.writing⟩

theorem Integrity.shutdown (h : c.Integrity offered) {c' : TcpConnection}
    (hs : c.shutdown = some c') : c'.Integrity offered := by
  unfold TcpConnection.shutdown at hs
  split at hs
  · rename_i hstate
    obtain rfl := Option.some.inj hs
    refine ⟨h.input, h.output, h.stream, h.sent, ?_⟩
    have hwriting := h.writing
    simpa [setState, hstate] using hwriting
  · cases hs

/-- A disconnected connection that watches nothing keeps the invariant. -/
theorem Integrity.disconnected (h : c.Integrity offered) {c' : TcpConnection}
    (hstate : c'.state_ = .kDisconnected) (hidle : ¬ c'.channel_.isWriting)
    (hsock : c'.socket_ = c.socket_) (hin : c'.inputBuffer_ = c.inputBuffer_)
    (hout : c'.outputBuffer_ = c.outputBuffer_) : c'.Integrity offered := by
  constructor
  · rw [hin]
    exact h.input
  · rw [hout]
    exact h.output
  · rw [hsock, hout]
    exact h.stream
  · rw [hsock]
    exact h.sent
  · simp [hstate, hidle]

theorem Integrity.handleClose (h : c.Integrity offered) {c' : TcpConnection}
    (hs : c.handleClose = .ok c') : c'.Integrity offered := by
  obtain ⟨-, rfl⟩ := handleClose_eq_ok.mp hs
  exact h.disconnected rfl (Channel.isWriting_disableAll c.channel_) rfl rfl rfl

theorem Integrity.connectEstablished (h : c.Integrity offered) {c' : TcpConnection}
    (hs : c.connectEstablished = .ok c') : c'.Integrity offered := by
  obtain ⟨hstate, rfl⟩ := connectEstablished_eq_ok.mp hs
  refine ⟨h.input, h.output, h.stream, h.sent, ?_⟩
  have hwriting := h.writing
  simpa [hstate] using hwriting

theorem Integrity.connectDestroyed (h : c.Integrity offered) {c' : TcpConnection}
    (hs : c.connectDestroyed = .ok c') : c'.Integrity offered := by
  by_cases hstate : c.state_ = .kConnected
  · rw [connectDestroyed_of_connected hstate] at hs
    obtain rfl := Except.ok.inj hs
    exact h.disconnected rfl (Channel.isWriting_disableAll c.channel_) rfl rfl rfl
  · obtain ⟨-, -, rfl⟩ := (connectDestroyed_of_ne hstate).mp hs
    exact ⟨h.input, h.output, h.stream, h.sent, h.writing⟩

/-- A read leaves the output alone, and ends an open connection when the peer
has closed. -/
theorem handleRead_frame {r : Buffer.ReadResult} {c' : TcpConnection}
    (h : c.handleRead r = .ok c') :
    c'.socket_ = c.socket_ ∧ c'.outputBuffer_ = c.outputBuffer_ ∧
      (c'.state_ = c.state_ ∨ r.n = 0 ∧ c'.state_ = .kDisconnected ∧
        (c.state_ = .kConnected ∨ c.state_ = .kDisconnecting)) := by
  obtain ⟨b, -, hcases⟩ := handleRead_cases h
  rcases hcases with ⟨-, rfl⟩ | ⟨hn, hclose⟩ | ⟨-, rfl⟩
  · exact ⟨rfl, rfl, Or.inl rfl⟩
  · obtain ⟨hstate, rfl⟩ := handleClose_eq_ok.mp hclose
    exact ⟨rfl, rfl, Or.inr ⟨hn, rfl, hstate⟩⟩
  · exact ⟨rfl, rfl, Or.inl rfl⟩

theorem connectDestroyed_frame {c' : TcpConnection} (h : c.connectDestroyed = .ok c') :
    c'.socket_ = c.socket_ ∧ c'.outputBuffer_ = c.outputBuffer_ ∧
      (c.state_ ≠ .kConnected ∧ c'.state_ = c.state_ ∨
        c.state_ = .kConnected ∧ c'.state_ = .kDisconnected) := by
  by_cases hstate : c.state_ = .kConnected
  · rw [connectDestroyed_of_connected hstate] at h
    obtain rfl := Except.ok.inj h
    exact ⟨rfl, rfl, Or.inr ⟨hstate, rfl⟩⟩
  · obtain ⟨-, -, rfl⟩ := (connectDestroyed_of_ne hstate).mp h
    exact ⟨rfl, rfl, Or.inl ⟨hstate, rfl⟩⟩

theorem Integrity.handleRead (h : c.Integrity offered) {r : Buffer.ReadResult} {c' : TcpConnection}
    (hs : c.handleRead r = .ok c') : c'.Integrity offered := by
  obtain ⟨b, hb, hs⟩ := handleRead_cases hs
  have hinput : b.Inv := by
    have hrep : c.inputBuffer_.Represents c.inputBuffer_.readable := ⟨h.input, rfl⟩
    rcases r with data | errno
    · obtain ⟨b', hb', hr⟩ := hrep.readFd data
      obtain rfl := Except.ok.inj (hb.symm.trans hb')
      exact hr.inv
    · obtain rfl := pure_eq_ok.mp hb
      exact h.input
  have hread : ({ c with inputBuffer_ := b } : TcpConnection).Integrity offered :=
    ⟨hinput, h.output, h.stream, h.sent, h.writing⟩
  rcases hs with ⟨-, rfl⟩ | ⟨-, hclose⟩ | ⟨-, rfl⟩
  · exact ⟨hinput, h.output, h.stream, h.sent, h.writing⟩
  · exact hread.handleClose hclose
  · exact hread

theorem exists_wrote_of_ne_zero {w : WriteResult} (h : w.nwrote ≠ 0) :
    ∃ n, w = .wrote (n + 1) := by
  rcases w with (_ | n) | errno
  · exact absurd rfl h
  · exact ⟨n, rfl⟩
  · exact absurd rfl h

theorem handleWrite_of_failed (hwr : c.channel_.isWriting) {w : WriteResult}
    (hw : w.nwrote = 0) :
    c.handleWrite w = .ok { c with socket_ := c.socket_.write c.outputBuffer_.readable w } := by
  unfold TcpConnection.handleWrite
  rw [if_pos hwr]
  rcases w with n | errno
  · obtain rfl : n = 0 := hw
    rfl
  · rfl

/-- A write with progress: the bytes leave the output buffer, and when it is
drained the connection stops waiting for `POLLOUT`. -/
theorem handleWrite_of_wrote (hwr : c.channel_.isWriting) {n : ℕ} {b : Buffer}
    (hb : c.outputBuffer_.retrieve (n + 1) = .ok b) :
    ∃ c', c.handleWrite (.wrote (n + 1)) = .ok c' ∧ c'.state_ = c.state_ ∧
      c'.inputBuffer_ = c.inputBuffer_ ∧ c'.outputBuffer_ = b ∧
      c'.socket_.written = c.socket_.written ++ c.outputBuffer_.readable.take (n + 1) ∧
      c'.socket_.broken = c.socket_.broken ∧
      (c'.channel_.isWriting ↔ b.readableBytes ≠ 0) ∧
      (c'.socket_.writeShut = c.socket_.writeShut ∨
        c.state_ = .kDisconnecting ∧ b.readableBytes = 0) := by
  unfold TcpConnection.handleWrite
  simp only [if_pos hwr, hb, mapError_ok, ok_bind]
  by_cases hdrained : b.readableBytes = 0
  · obtain ⟨notices, hnote⟩ := noteWriteComplete_eq { c with
      socket_ := c.socket_.write c.outputBuffer_.readable (.wrote (n + 1))
      outputBuffer_ := b
      channel_ := c.channel_.disableWriting }
    have hidle : ¬ c.channel_.disableWriting.isWriting := Channel.isWriting_disableWriting _
    rw [if_pos hdrained, hnote]
    by_cases hstate : c.state_ = .kDisconnecting
    · rw [if_pos hstate]
      unfold shutdownInLoop
      rw [if_neg hidle]
      refine ⟨_, rfl, ?_⟩
      simp [Socket.shutdownWrite, Socket.write, hidle, hdrained, hstate]
    · rw [if_neg hstate]
      refine ⟨_, rfl, ?_⟩
      simp [Socket.write, hidle, hdrained]
  · rw [if_neg hdrained]
    refine ⟨_, rfl, ?_⟩
    simp [Socket.write, hwr, hdrained]

/-- Without the invariant: the state is kept, no written byte is lost, and the
write side stays open unless the connection is in `kDisconnecting`. -/
theorem handleWrite_frame {w : WriteResult} {c' : TcpConnection} (h : c.handleWrite w = .ok c') :
    c'.state_ = c.state_ ∧ c.socket_.written <+: c'.socket_.written ∧
      (w ≠ .failed .EPIPE → c'.socket_.broken = c.socket_.broken) ∧
      (c.state_ ≠ .kDisconnecting → c'.socket_.writeShut = c.socket_.writeShut) := by
  by_cases hwr : c.channel_.isWriting
  swap
  · rw [handleWrite, if_neg hwr] at h
    rw [← pure_eq_ok.mp h]
    exact ⟨rfl, List.prefix_refl _, fun _ => rfl, fun _ => rfl⟩
  by_cases hzero : w.nwrote = 0
  · rw [handleWrite_of_failed hwr hzero] at h
    obtain rfl := Except.ok.inj h
    refine ⟨rfl, Socket.written_prefix_write _ _ _, ?_, fun _ => Socket.writeShut_write _ _ _⟩
    intro hne
    simp [Socket.broken_write, hne]
  · obtain ⟨n, rfl⟩ := exists_wrote_of_ne_zero hzero
    have hsome := h
    simp only [handleWrite, if_pos hwr, bind_eq_ok, mapError_ok_iff] at hsome
    obtain ⟨b, hb, -⟩ := hsome
    obtain ⟨c₁, hc₁, hs, -, -, hwritten, hbroken, -, hshut⟩ := handleWrite_of_wrote hwr hb
    obtain rfl := Except.ok.inj (h.symm.trans hc₁)
    refine ⟨hs, ?_, fun _ => hbroken, ?_⟩
    · rw [hwritten]
      exact List.prefix_append _ _
    · intro hne
      rcases hshut with hshut | ⟨hdis, -⟩
      · exact hshut
      · exact absurd hdis hne

/-- Under the invariant `handleWrite` does not fault. The write side is shut
down only when the output is drained in `kDisconnecting`. -/
theorem Integrity.handleWrite (h : c.Integrity offered) {w : WriteResult}
    (hw : c.socket_.Accepts c.outputBuffer_.readableBytes w) :
    ∃ c', c.handleWrite w = .ok c' ∧ c'.Integrity offered ∧ c'.state_ = c.state_ ∧
      (c'.socket_.writeShut = c.socket_.writeShut ∨
        c.state_ = .kDisconnecting ∧ c.Drains w ∧ c'.outputBuffer_.readable = []) := by
  by_cases hwr : c.channel_.isWriting
  swap
  · refine ⟨c, ?_, h, rfl, Or.inl rfl⟩
    rw [TcpConnection.handleWrite, if_neg hwr]
    rfl
  obtain ⟨hstate, hbuffered⟩ := h.writing.mp hwr
  by_cases hzero : w.nwrote = 0
  · refine ⟨_, handleWrite_of_failed hwr hzero, ?_, rfl, Or.inl (Socket.writeShut_write _ _ _)⟩
    have hwritten : (c.socket_.write c.outputBuffer_.readable w).written = c.socket_.written := by
      rw [Socket.written_write, hzero, List.take_zero, List.append_nil]
    refine ⟨h.input, h.output, ?_, ?_, h.writing⟩
    · intro hb
      simp only [Socket.broken_write, Bool.or_eq_false_iff] at hb
      simp only [hwritten]
      exact h.stream hb.1
    · simp only [hwritten]
      exact h.sent
  · obtain ⟨n, rfl⟩ := exists_wrote_of_ne_zero hzero
    have hle : n + 1 ≤ c.outputBuffer_.readable.length := by
      rw [← h.represents.readableBytes_eq]
      exact hw.nwrote_le
    obtain ⟨b, hb, hrep⟩ := h.represents.retrieve hle
    obtain ⟨c', hc', hs, hin, hout, hwritten, hbroken, hwriting, hshut⟩ :=
      handleWrite_of_wrote hwr hb
    have hempty : b.readableBytes = 0 ↔ b.readable = [] := by
      rw [hrep.readableBytes_eq, hrep.readable_eq, List.length_eq_zero_iff]
    have hstream := h.stream hw.2
    have hsplit : c'.socket_.written ++ b.readable = offered := by
      rw [hwritten, hrep.readable_eq, List.append_assoc, List.take_append_drop, hstream]
    refine ⟨c', hc', ?_, hs, ?_⟩
    · constructor
      · rw [hin]
        exact h.input
      · rw [hout]
        exact hrep.inv
      · rw [hout]
        exact fun _ => hsplit
      · rw [← hsplit]
        exact List.prefix_append _ _
      · rw [hwriting, hs, hout, ne_eq, hempty]
        exact ⟨fun hne => ⟨hstate, hne⟩, fun hne => hne.2⟩
    · rcases hshut with hshut | ⟨hdis, hdrained⟩
      · exact Or.inl hshut
      · refine Or.inr ⟨hdis, ⟨hwr, ?_⟩, ?_⟩
        · rw [h.represents.readableBytes_eq]
          have hlen := congrArg List.length (hrep.readable_eq.symm.trans (hempty.mp hdrained))
          simp only [List.length_drop, List.length_nil] at hlen
          simp only [WriteResult.nwrote]
          omega
        · rw [hout]
          exact hempty.mp hdrained

end TcpConnection

namespace OutputIntegrity

open TcpConnection

inductive Op
  | connectEstablished
  | sendInLoop (data : List UInt8) (w : WriteResult)
  | handleWrite (w : WriteResult)
  | handleRead (r : Buffer.ReadResult)
  | shutdown
  | shutdownInLoop
  | handleClose
  | connectDestroyed

/-- `offered` is the concatenation of the data of the calls of `sendInLoop` that
were made while the connection was not disconnected and before any `EPIPE`. -/
structure Stream where
  conn : TcpConnection
  offered : List UInt8

def step (s : Stream) : Op → Except Fault Stream
  | .connectEstablished => do
      let c ← s.conn.connectEstablished
      pure { s with conn := c }
  | .sendInLoop data w => do
      let c ← s.conn.sendInLoop data w
      pure { conn := c, offered := s.offered ++ s.conn.offers data }
  | .handleWrite w => do
      let c ← s.conn.handleWrite w
      pure { s with conn := c }
  | .handleRead r => do
      let c ← s.conn.handleRead r
      pure { s with conn := c }
  | .shutdown => pure { s with conn := s.conn.shutdown.getD s.conn }
  | .shutdownInLoop => pure { s with conn := s.conn.shutdownInLoop }
  | .handleClose => do
      let c ← s.conn.handleClose
      pure { s with conn := c }
  | .connectDestroyed => do
      let c ← s.conn.connectDestroyed
      pure { s with conn := c }

/-- The kernel takes at most what a write offers, and nothing after an `EPIPE`. -/
def Enabled (s : Stream) : Op → Prop
  | .sendInLoop data w => s.conn.socket_.Accepts data.length w
  | .handleWrite w => s.conn.socket_.Accepts s.conn.outputBuffer_.readableBytes w
  | _ => True

instance (s : Stream) (op : Op) : Decidable (Enabled s op) := by
  cases op <;> (simp only [Enabled]; infer_instance)

def machine : Machine Stream Op Fault where
  init s := ∃ writeComplete highWater highWaterMark,
    s = ⟨TcpConnection.new writeComplete highWater highWaterMark, []⟩
  enabled := Enabled
  step := step

instance (s : Stream) (op : Op) : Decidable (machine.enabled s op) :=
  inferInstanceAs (Decidable (Enabled s op))

theorem step_integrity (s : Stream) (op : Op) (s' : Stream) (h : s.conn.Integrity s.offered)
    (he : machine.enabled s op) (hs : machine.step s op = .ok s') :
    s'.conn.Integrity s'.offered := by
  cases op with
  | connectEstablished =>
    obtain ⟨c, hc, rfl⟩ := map_eq_ok.mp hs
    exact h.connectEstablished hc
  | sendInLoop data w =>
    have hw : s.conn.socket_.Accepts data.length w := he
    obtain ⟨c, hc, hi⟩ := h.sendInLoop hw
    simp only [machine, step, hc, ok_bind, pure_eq_ok] at hs
    rw [← hs]
    exact hi
  | handleWrite w =>
    have hw : s.conn.socket_.Accepts s.conn.outputBuffer_.readableBytes w := he
    obtain ⟨c, hc, hi, -⟩ := h.handleWrite hw
    simp only [machine, step, hc, ok_bind, pure_eq_ok] at hs
    rw [← hs]
    exact hi
  | handleRead r =>
    obtain ⟨c, hc, rfl⟩ := map_eq_ok.mp hs
    exact h.handleRead hc
  | shutdown =>
    rw [← pure_eq_ok.mp hs]
    cases hc : s.conn.shutdown with
    | none => simpa [hc] using h
    | some c => simpa [hc] using h.shutdown hc
  | shutdownInLoop =>
    rw [← pure_eq_ok.mp hs]
    exact h.shutdownInLoop
  | handleClose =>
    obtain ⟨c, hc, rfl⟩ := map_eq_ok.mp hs
    exact h.handleClose hc
  | connectDestroyed =>
    obtain ⟨c, hc, rfl⟩ := map_eq_ok.mp hs
    exact h.connectDestroyed hc

theorem reachable_integrity {s : Stream} (h : machine.Reachable s) :
    s.conn.Integrity s.offered := by
  apply h.invariant _ step_integrity
  intro s hinit
  obtain ⟨writeComplete, highWater, highWaterMark, rfl⟩ := hinit
  exact new_integrity writeComplete highWater highWaterMark

/-- Before any `EPIPE` the bytes written and the output buffer make up what was
offered; the bytes written are a prefix of it ever after; and an open connection
waits for `POLLOUT` exactly while it has output. -/
theorem output_integrity {s : Stream} (h : machine.Reachable s) :
    (s.conn.socket_.broken = false →
      s.conn.socket_.written ++ s.conn.outputBuffer_.readable = s.offered) ∧
    s.conn.socket_.written <+: s.offered ∧
    (s.conn.state_ = .kConnected ∨ s.conn.state_ = .kDisconnecting →
      (s.conn.channel_.isWriting ↔ s.conn.outputBuffer_.readable ≠ [])) := by
  have hi := reachable_integrity h
  refine ⟨hi.stream, hi.sent, ?_⟩
  intro hstate
  rw [hi.writing]
  constructor
  · intro hne
    exact hne.2
  · intro hne
    refine ⟨?_, hne⟩
    rcases hstate with hstate | hstate <;> simp [hstate]

/-- A partial write, a full buffer in the kernel, a drain after `shutdown`. -/
def sampleOps : List Op :=
  [.connectEstablished, .sendInLoop [1, 2, 3] (.wrote 1),
    .sendInLoop [4] (.failed .EWOULDBLOCK), .shutdown, .shutdownInLoop, .handleWrite (.wrote 3)]

def sampleStart : Stream := ⟨TcpConnection.new true true 2, []⟩

theorem output_integrity_sample :
    ∃ s, machine.Reachable s ∧ s.offered = [1, 2, 3, 4] ∧
      s.conn.socket_.broken = false ∧
      s.conn.socket_.written ++ s.conn.outputBuffer_.readable = [1, 2, 3, 4] := by
  have h : ((machine.execute sampleStart sampleOps).map
      fun s => (s.offered, s.conn.socket_.broken)) = some ([1, 2, 3, 4], false) := by
    decide +kernel
  obtain ⟨s, hs, hview⟩ := Option.map_eq_some_iff.mp h
  obtain ⟨hoffered, hbroken⟩ := Prod.mk.inj hview
  have hreach : machine.Reachable s :=
    ⟨sampleStart, sampleOps, ⟨true, true, 2, rfl⟩, Machine.run_of_execute _ hs⟩
  refine ⟨s, hreach, hoffered, hbroken, ?_⟩
  rw [(output_integrity hreach).1 hbroken, hoffered]

end OutputIntegrity

end MuduoServer
