import MuduoServer.BatchQueue
import MuduoServer.OutputIntegrity

/-!
Calls of `send` and `shutdown` from any set of threads on one established
connection. Reading `state_`, setting it and handing the work over are separate
steps of a call. The loop's own thread runs the work at once; the other threads
queue it. Messages are numbered in the order in which their `send` returns.
-/
namespace MuduoServer.GracefulShutdown

open FaultMachine TcpConnection

inductive Functor
  | sendInLoop (tag : ℕ) (data : List UInt8)
  | shutdownInLoop
  deriving DecidableEq

def Functor.data : Functor → List UInt8
  | .sendInLoop _ data => data
  | .shutdownInLoop => []

/-- Where a thread is inside a call. -/
inductive Call
  | idle
  | sendSaw (data : List UInt8)
  | shutdownSaw
  | shutdownSet
  deriving DecidableEq

/-- `accepted` are the messages whose `send` saw `kConnected` and returned before
`shutdown` was called; `handed` are those that `sendInLoop` took up, in order. -/
structure Session (T : Type) where
  conn : TcpConnection
  queue : BatchQueue Functor
  calls : T → Call
  nextTag : ℕ
  shutdownCalled : Bool
  accepted : List ℕ
  handed : List (ℕ × List UInt8)

inductive Act (T : Type)
  | sendCheck (t : T) (data : List UInt8)
  | sendHand (t : T) (data : List UInt8) (w : WriteResult)
  | shutdownCheck (t : T)
  | shutdownSet (t : T)
  | shutdownHand (t : T)
  | swap
  | runFunctor (w : WriteResult)
  | finish
  | handleWrite (w : WriteResult)
  | handleRead (r : Buffer.ReadResult)
  | handleClose
  | connectDestroyed

namespace Session

def start {T : Type} (c : TcpConnection) : Session T :=
  { conn := c
    queue := BatchQueue.empty
    calls := fun _ => .idle
    nextTag := 0
    shutdownCalled := false
    accepted := []
    handed := [] }

section Steps
variable {T : Type} [DecidableEq T]

def setCall (s : Session T) (t : T) (call : Call) : Session T :=
  { s with calls := Function.update s.calls t call }

/-- `sendInLoop` of one message in the loop thread. -/
def hand (s : Session T) (tag : ℕ) (data : List UInt8) (w : WriteResult) :
    Except Fault (Session T) := do
  let c ← s.conn.sendInLoop data w
  let taken := s.conn.state_ ≠ .kDisconnected ∧ s.conn.socket_.broken = false
  pure { s with
    conn := c
    handed := s.handed ++ (if taken then [(tag, data)] else []) }

def sendReturns (s : Session T) (t : T) : Session T :=
  { s.setCall t .idle with
    nextTag := s.nextTag + 1
    accepted := if s.shutdownCalled then s.accepted else s.accepted ++ [s.nextTag] }

def runOne (s : Session T) (w : WriteResult) : Functor → Except Fault (Session T)
  | .sendInLoop tag data => s.hand tag data w
  | .shutdownInLoop => pure { s with conn := s.conn.shutdownInLoop }

/-- Run a step of the connection. -/
def onConn (s : Session T) (f : TcpConnection → Except Fault TcpConnection) :
    Except Fault (Session T) := do
  let c ← f s.conn
  pure { s with conn := c }

/-- The last part of `send`: in the loop thread, or through the queue. -/
def handOver (loopThread : T) (s : Session T) (t : T) (data : List UInt8) (w : WriteResult) :
    Except Fault (Session T) :=
  if t = loopThread then s.hand s.nextTag data w
  else pure { s with queue := s.queue.push (.sendInLoop s.nextTag data) }

def step (loopThread : T) (s : Session T) : Act T → Except Fault (Session T)
  | .sendCheck t data => pure (if s.conn.connected then s.setCall t (.sendSaw data) else s)
  | .sendHand t data w => do
      let s ← s.handOver loopThread t data w
      pure (s.sendReturns t)
  | .shutdownCheck t =>
      let s := { s with shutdownCalled := true }
      pure (if s.conn.connected then s.setCall t .shutdownSaw else s)
  | .shutdownSet t =>
      pure ({ s with conn := s.conn.setState .kDisconnecting }.setCall t .shutdownSet)
  | .shutdownHand t =>
      let s :=
        if t = loopThread then { s with conn := s.conn.shutdownInLoop }
        else { s with queue := s.queue.push .shutdownInLoop }
      pure (s.setCall t .idle)
  | .swap => pure { s with queue := s.queue.swap }
  | .runFunctor w =>
      match s.queue.pop? with
      | some (f, queue) => runOne { s with queue := queue } w f
      | none => pure s
  | .finish => pure { s with queue := s.queue.finish }
  | .handleWrite w => s.onConn (fun c => c.handleWrite w)
  | .handleRead r => s.onConn (fun c => c.handleRead r)
  | .handleClose => s.onConn TcpConnection.handleClose
  | .connectDestroyed => s.onConn TcpConnection.connectDestroyed

end Steps

/-- The kernel takes something of every write until the write side is shut down,
and answers with `EPIPE` from then on. -/
def Answers (socket : Socket) (len : ℕ) : WriteResult → Prop
  | .wrote n => socket.writeShut = false ∧ n ≤ len ∧ (0 < n ∨ len = 0)
  | .failed errno => socket.writeShut = true ∧ errno = .EPIPE

instance (socket : Socket) (len : ℕ) (w : WriteResult) : Decidable (Answers socket len w) :=
  match w with
  | .wrote _ => inferInstanceAs (Decidable (_ ∧ _ ∧ _))
  | .failed _ => inferInstanceAs (Decidable (_ ∧ _))

/-- The loop thread takes a step of the loop only outside its own calls, and
handles events only outside `doPendingFunctors`. -/
def Enabled {T : Type} (loopThread : T) (s : Session T) : Act T → Prop
  | .sendCheck t _ => s.calls t = .idle
  | .sendHand t data w => s.calls t = .sendSaw data ∧
      (t = loopThread → Answers s.conn.socket_ data.length w)
  | .shutdownCheck t => s.calls t = .idle
  | .shutdownSet t => s.calls t = .shutdownSaw
  | .shutdownHand t => s.calls t = .shutdownSet
  | .swap => s.calls loopThread = .idle ∧ s.queue.batch = none
  | .runFunctor w => s.calls loopThread = .idle ∧
      ∃ p ∈ s.queue.pop?, Answers s.conn.socket_ p.1.data.length w
  | .finish => s.calls loopThread = .idle ∧ s.queue.batch = some []
  | .handleWrite w => s.calls loopThread = .idle ∧ s.queue.batch = none ∧
      Answers s.conn.socket_ s.conn.outputBuffer_.readableBytes w
  | .handleRead _ => s.calls loopThread = .idle ∧ s.queue.batch = none
  | .handleClose => s.calls loopThread = .idle ∧ s.queue.batch = none
  | .connectDestroyed => s.calls loopThread = .idle

instance {T : Type} [DecidableEq T] (loopThread : T) (s : Session T) (a : Act T) :
    Decidable (s.Enabled loopThread a) := by
  cases a <;> (simp only [Enabled]; infer_instance)

end Session

section Machine
variable {T : Type} [DecidableEq T] (loopThread : T)

def machine : Machine (Session T) (Act T) Fault where
  init s := ∃ writeComplete highWater highWaterMark c,
    (TcpConnection.new writeComplete highWater highWaterMark).connectEstablished = .ok c ∧
      s = Session.start c
  enabled s a := s.Enabled loopThread a
  step s a := s.step loopThread a

/-- The message is completely written: all the bytes up to its end are out. -/
def Complete (s : Session T) (tag : ℕ) : Prop :=
  ∃ before data after, s.handed = before ++ (tag, data) :: after ∧
    before.flatMap Prod.snd ++ data <+: s.conn.socket_.written

/-- The functor is the `sendInLoop` of an accepted message. -/
def Accepted (accepted : List ℕ) : Functor → Prop
  | .sendInLoop tag _ => tag ∈ accepted
  | .shutdownInLoop => False

instance (accepted : List ℕ) (f : Functor) : Decidable (Accepted accepted f) := by
  cases f <;> (simp only [Accepted]; infer_instance)

def NoneQueued (s : Session T) : Prop := ∀ f ∈ s.queue.contents, ¬ Accepted s.accepted f

instance (s : Session T) : Decidable (NoneQueued s) := inferInstanceAs (Decidable (∀ f ∈ _, _))

/-- A step that ends the connection comes before any `shutdown`, after the write
side was shut down, or when nothing accepted is left to write. -/
def MayClose (s : Session T) : Prop :=
  s.shutdownCalled → s.conn.socket_.writeShut ∨
    NoneQueued s ∧ s.conn.outputBuffer_.readableBytes = 0

instance (s : Session T) : Decidable (MayClose s) := inferInstanceAs (Decidable (_ → _))

/-- No step shuts the write side down past a queued message. -/
def Orderly (s : Session T) : Act T → Prop
  | .shutdownHand t => t = loopThread → ¬ s.conn.channel_.isWriting → NoneQueued s
  | .handleWrite w => s.conn.state_ = .kDisconnecting → s.conn.Drains w → NoneQueued s
  | .handleRead r => r.n = 0 → MayClose s
  | .handleClose => MayClose s
  | .connectDestroyed => s.conn.state_ = .kConnected → MayClose s
  | _ => True

instance (s : Session T) (a : Act T) : Decidable (Orderly loopThread s a) := by
  cases a <;> (simp only [Orderly]; infer_instance)

/-- Before the write side is shut down on an open connection. -/
structure Open (s : Session T) : Prop where
  integrity : s.conn.Integrity (s.handed.flatMap Prod.snd)
  alive : s.conn.state_ = .kConnected ∨ s.conn.state_ = .kDisconnecting
  notShut : s.conn.socket_.writeShut = false
  notBroken : s.conn.socket_.broken = false
  numbered : ∀ tag ∈ s.accepted, tag < s.nextTag
  known : ∀ tag ∈ s.accepted,
    (∃ data, (tag, data) ∈ s.handed) ∨ ∃ data, .sendInLoop tag data ∈ s.queue.contents
  ordered : s.queue.contents.Pairwise fun f g => f = .shutdownInLoop → ¬ Accepted s.accepted g
  called : s.conn.state_ = .kDisconnecting ∨ .shutdownInLoop ∈ s.queue.contents ∨
    (∃ t, s.calls t = .shutdownSaw ∨ s.calls t = .shutdownSet) → s.shutdownCalled

/-- Closed before any call of `shutdown` got past its check. -/
structure Dead (s : Session T) : Prop where
  closed : s.conn.state_ = .kDisconnected
  notShut : s.conn.socket_.writeShut = false
  noneQueued : .shutdownInLoop ∉ s.queue.contents
  noneCalling : ∀ t, s.calls t ≠ .shutdownSaw ∧ s.calls t ≠ .shutdownSet

/-- All accepted messages were written, and no more are accepted. -/
structure Done (s : Session T) : Prop where
  called : s.shutdownCalled
  complete : ∀ tag ∈ s.accepted, Complete s tag

end Machine

end MuduoServer.GracefulShutdown
