import MuduoServer.Buffer
import MuduoServer.Channel

/-!
A connection of `muduo/net/TcpConnection.h` and `TcpConnection.cc`. The socket
is seen from the kernel: the bytes it took, whether a write failed with `EPIPE`
and whether the write side is shut down. What the kernel answers to a read or a
write is an argument. User callbacks, called or queued, are entries of
`notices`; what they do to the connection are further steps.
-/
namespace MuduoServer

open FaultMachine

inductive Errno
  | EWOULDBLOCK
  | EPIPE
  | other (errno : ℕ)
  deriving DecidableEq

inductive WriteResult
  | wrote (n : ℕ)
  | failed (errno : Errno)
  deriving DecidableEq

/-- `nwrote` after the call, with errors counted as nothing written. -/
def WriteResult.nwrote : WriteResult → ℕ
  | .wrote n => n
  | .failed _ => 0

structure Socket where
  written : List UInt8
  broken : Bool
  writeShut : Bool
  deriving DecidableEq

namespace Socket

def new : Socket := { written := [], broken := false, writeShut := false }

def write (s : Socket) (data : List UInt8) : WriteResult → Socket
  | .wrote n => { s with written := s.written ++ data.take n }
  | .failed .EPIPE => { s with broken := true }
  | .failed _ => s

def shutdownWrite (s : Socket) : Socket := { s with writeShut := true }

/-- A write takes at most what it was given, and nothing after an `EPIPE`. -/
def Accepts (s : Socket) (len : ℕ) : WriteResult → Prop
  | .wrote n => n ≤ len ∧ s.broken = false
  | .failed _ => True

instance (s : Socket) (len : ℕ) (w : WriteResult) : Decidable (s.Accepts len w) := by
  cases w <;> (simp only [Accepts]; infer_instance)

end Socket

inductive StateE
  | kDisconnected
  | kConnecting
  | kConnected
  | kDisconnecting
  deriving DecidableEq

inductive Notice
  | connectionCallback (connected : Bool)
  | messageCallback
  | closeCallback
  | writeCompleteCallback
  | highWaterMarkCallback (len : ℕ)
  deriving DecidableEq

/-- The last two callbacks are optional, the others are always set. -/
structure TcpConnection where
  state_ : StateE
  socket_ : Socket
  channel_ : Channel
  writeCompleteCallback_ : Bool
  highWaterMarkCallback_ : Bool
  highWaterMark_ : ℕ
  inputBuffer_ : Buffer
  outputBuffer_ : Buffer
  notices : List Notice

namespace TcpConnection

inductive Fault
  | buffer (fault : Buffer.Fault)
  | channel (fault : Channel.Fault)
  | remainingGtLen
  | notConnecting
  | notConnected
  deriving DecidableEq

def new (writeComplete highWater : Bool) (highWaterMark : ℕ) : TcpConnection :=
  { state_ := .kConnecting
    socket_ := Socket.new
    channel_ := Channel.new
    writeCompleteCallback_ := writeComplete
    highWaterMarkCallback_ := highWater
    highWaterMark_ := highWaterMark
    inputBuffer_ := Buffer.new
    outputBuffer_ := Buffer.new
    notices := [] }

def connected (c : TcpConnection) : Prop := c.state_ = .kConnected

instance (c : TcpConnection) : Decidable c.connected := inferInstanceAs (Decidable (_ = _))

def setState (c : TcpConnection) (s : StateE) : TcpConnection := { c with state_ := s }

def notify (c : TcpConnection) (n : Notice) : TcpConnection := { c with notices := c.notices ++ [n] }

/-- Queue `writeCompleteCallback_` when it is set. -/
def noteWriteComplete (c : TcpConnection) : TcpConnection :=
  if c.writeCompleteCallback_ then c.notify .writeCompleteCallback else c

/-- The write of `sendInLoop` past the output buffer, with `nwrote` and `error`. -/
def writeDirectly (c : TcpConnection) (data : List UInt8) (w : WriteResult) :
    TcpConnection × ℕ × Bool :=
  let c := { c with socket_ := c.socket_.write data w }
  match w with
  | .wrote n =>
      (if n = data.length then c.noteWriteComplete else c, w.nwrote, false)
  | .failed errno => (c, w.nwrote, errno = .EPIPE)

/-- The high water mark is crossed by `remaining` more bytes of output. -/
def noteHighWaterMark (c : TcpConnection) (remaining : ℕ) : TcpConnection :=
  let oldLen := c.outputBuffer_.readableBytes
  if c.highWaterMark_ ≤ oldLen + remaining ∧ oldLen < c.highWaterMark_ ∧
      c.highWaterMarkCallback_ then
    c.notify (.highWaterMarkCallback (oldLen + remaining))
  else
    c

/-- The end of `sendInLoop`: what is left goes to the output buffer. -/
def appendRemaining (c : TcpConnection) (rest : List UInt8) : Except Fault TcpConnection := do
  let c := c.noteHighWaterMark rest.length
  let b ← (c.outputBuffer_.append rest).mapError .buffer
  let c := { c with outputBuffer_ := b }
  if c.channel_.isWriting then
    pure c
  else
    pure { c with channel_ := c.channel_.enableWriting }

/-- `remaining` is a `size_t`: it exceeds `len` when `nwrote` does. -/
def sendInLoop (c : TcpConnection) (data : List UInt8) (w : WriteResult) :
    Except Fault TcpConnection := do
  if c.state_ = .kDisconnected then
    pure c
  else
    let (c, nwrote, error) :=
      if ¬ c.channel_.isWriting ∧ c.outputBuffer_.readableBytes = 0 then c.writeDirectly data w
      else (c, 0, false)
    check (nwrote ≤ data.length) .remainingGtLen
    if error = false ∧ 0 < data.length - nwrote then
      c.appendRemaining (data.drop nwrote)
    else
      pure c

/-- The connection after `setState`, when `shutdownInLoop` is to run in the loop. -/
def shutdown (c : TcpConnection) : Option TcpConnection :=
  if c.state_ = .kConnected then some (c.setState .kDisconnecting) else none

def shutdownInLoop (c : TcpConnection) : TcpConnection :=
  if c.channel_.isWriting then c else { c with socket_ := c.socket_.shutdownWrite }

def connectEstablished (c : TcpConnection) : Except Fault TcpConnection := do
  check (c.state_ = .kConnecting) .notConnecting
  let c := c.setState .kConnected
  let c := { c with channel_ := c.channel_.enableReading }
  pure (c.notify (.connectionCallback true))

def connectDestroyed (c : TcpConnection) : Except Fault TcpConnection := do
  let c :=
    if c.state_ = .kConnected then
      ({ c.setState .kDisconnected with channel_ := c.channel_.disableAll } : TcpConnection).notify
        (.connectionCallback false)
    else c
  let channel ← c.channel_.remove.mapError .channel
  pure { c with channel_ := channel }

def handleClose (c : TcpConnection) : Except Fault TcpConnection := do
  check (c.state_ = .kConnected ∨ c.state_ = .kDisconnecting) .notConnected
  let c := c.setState .kDisconnected
  let c := { c with channel_ := c.channel_.disableAll }
  let c := c.notify (.connectionCallback false)
  pure (c.notify .closeCallback)

/-- `SO_ERROR` is read and logged. -/
def handleError (c : TcpConnection) : TcpConnection := c

def handleRead (c : TcpConnection) (r : Buffer.ReadResult) : Except Fault TcpConnection := do
  let b ← (c.inputBuffer_.readFd r).mapError .buffer
  let c := { c with inputBuffer_ := b }
  if 0 < r.n then
    pure (c.notify .messageCallback)
  else if r.n = 0 then
    c.handleClose
  else
    pure c.handleError

def handleWrite (c : TcpConnection) (w : WriteResult) : Except Fault TcpConnection := do
  if c.channel_.isWriting then
    let c := { c with socket_ := c.socket_.write c.outputBuffer_.readable w }
    match w with
    | .wrote (n + 1) =>
        let b ← (c.outputBuffer_.retrieve (n + 1)).mapError .buffer
        let c := { c with outputBuffer_ := b }
        if c.outputBuffer_.readableBytes = 0 then
          let c := { c with channel_ := c.channel_.disableWriting }
          let c := c.noteWriteComplete
          if c.state_ = .kDisconnecting then
            pure c.shutdownInLoop
          else
            pure c
        else
          pure c
    | _ => pure c
  else
    pure c

/-- One poll result on the channel of the connection. -/
def handleEvent (c : TcpConnection) (revents : Finset Poll) (r : Buffer.ReadResult)
    (w : WriteResult) : Except Fault TcpConnection :=
  Channel.handleEventWithGuard
    { closeCallback_ := handleClose
      errorCallback_ := fun c => pure c.handleError
      readCallback_ := fun c => c.handleRead r
      writeCallback_ := fun c => c.handleWrite w }
    revents c

variable {c : TcpConnection}

theorem noteWriteComplete_eq (c : TcpConnection) :
    ∃ notices, c.noteWriteComplete = { c with notices := notices } := by
  unfold noteWriteComplete
  split
  · exact ⟨_, rfl⟩
  · exact ⟨c.notices, rfl⟩

/-- Noting the high water mark only queues a callback. -/
theorem noteHighWaterMark_eq (c : TcpConnection) (n : ℕ) :
    ∃ notices, c.noteHighWaterMark n = { c with notices := notices } := by
  unfold noteHighWaterMark
  simp only
  split
  · exact ⟨_, rfl⟩
  · exact ⟨c.notices, rfl⟩

/-- The direct write touches the socket and queues a callback at most. -/
theorem writeDirectly_eq (c : TcpConnection) (data : List UInt8) (w : WriteResult) :
    ∃ notices, c.writeDirectly data w =
      ({ c with socket_ := c.socket_.write data w, notices := notices }, w.nwrote,
        decide (w = .failed .EPIPE)) := by
  unfold writeDirectly
  rcases w with n | errno
  · simp only
    split
    · obtain ⟨notices, hnote⟩ :=
        noteWriteComplete_eq { c with socket_ := c.socket_.write data (.wrote n) }
      exact ⟨notices, by rw [hnote]; rfl⟩
    · exact ⟨c.notices, rfl⟩
  · exact ⟨c.notices, by simp⟩

theorem connectDestroyed_of_connected (h : c.state_ = .kConnected) :
    c.connectDestroyed = .ok { c with
      state_ := .kDisconnected
      channel_ := { events_ := Channel.kNoneEvent, added := false }
      notices := c.notices ++ [.connectionCallback false] } := by
  unfold connectDestroyed
  rw [if_pos h]
  rfl

/-- Outside `kConnected` the channel is removed as it is. -/
theorem connectDestroyed_of_ne (h : c.state_ ≠ .kConnected) {c' : TcpConnection} :
    c.connectDestroyed = .ok c' ↔ c.channel_.isNoneEvent ∧ c.channel_.added ∧
      c' = { c with channel_ := { c.channel_ with added := false } } := by
  unfold connectDestroyed
  rw [if_neg h]
  simp only [bind_eq_ok, mapError_ok_iff, pure_eq_ok, Channel.remove_eq_ok]
  constructor
  · intro h
    obtain ⟨channel, ⟨hnone, hadded, rfl⟩, rfl⟩ := h
    exact ⟨hnone, hadded, rfl⟩
  · intro h
    obtain ⟨hnone, hadded, rfl⟩ := h
    exact ⟨_, ⟨hnone, hadded, rfl⟩, rfl⟩

theorem connectEstablished_eq_ok {c' : TcpConnection} :
    c.connectEstablished = .ok c' ↔ c.state_ = .kConnecting ∧
      c' = { c with
        state_ := .kConnected
        channel_ := c.channel_.enableReading
        notices := c.notices ++ [.connectionCallback true] } := by
  unfold connectEstablished
  simp only [bind_eq_ok, check_eq_ok, pure_eq_ok, @eq_comm _ c']
  constructor
  · intro h
    obtain ⟨-, hstate, rfl⟩ := h
    exact ⟨hstate, rfl⟩
  · intro h
    obtain ⟨hstate, rfl⟩ := h
    exact ⟨(), hstate, rfl⟩

theorem handleClose_eq_ok {c' : TcpConnection} :
    c.handleClose = .ok c' ↔ (c.state_ = .kConnected ∨ c.state_ = .kDisconnecting) ∧
      c' = { c with
        state_ := .kDisconnected
        channel_ := c.channel_.disableAll
        notices := c.notices ++ [.connectionCallback false] ++ [.closeCallback] } := by
  unfold handleClose
  simp only [bind_eq_ok, check_eq_ok, pure_eq_ok, @eq_comm _ c']
  constructor
  · intro h
    obtain ⟨-, hstate, rfl⟩ := h
    exact ⟨hstate, rfl⟩
  · intro h
    obtain ⟨hstate, rfl⟩ := h
    exact ⟨(), hstate, rfl⟩

/-- A read ends as a message, as a close or as a logged error. -/
theorem handleRead_cases {r : Buffer.ReadResult} {c' : TcpConnection}
    (h : c.handleRead r = .ok c') :
    ∃ b, c.inputBuffer_.readFd r = .ok b ∧
      (0 < r.n ∧ c' = { c with
          inputBuffer_ := b
          notices := c.notices ++ [.messageCallback] } ∨
        r.n = 0 ∧ ({ c with inputBuffer_ := b } : TcpConnection).handleClose = .ok c' ∨
        r.n < 0 ∧ c' = { c with inputBuffer_ := b }) := by
  unfold handleRead at h
  simp only [bind_eq_ok, mapError_ok_iff] at h
  obtain ⟨b, hb, h⟩ := h
  refine ⟨b, hb, ?_⟩
  split at h
  · rename_i hn
    exact Or.inl ⟨hn, (pure_eq_ok.mp h).symm⟩
  · rename_i hpos
    split at h
    · rename_i hn
      exact Or.inr (Or.inl ⟨hn, h⟩)
    · rename_i hzero
      exact Or.inr (Or.inr ⟨by omega, (pure_eq_ok.mp h).symm⟩)

end TcpConnection

end MuduoServer
