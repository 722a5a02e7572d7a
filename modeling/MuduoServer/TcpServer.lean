import MuduoServer.BatchQueue
import MuduoServer.TcpConnection
import Mathlib.Data.List.AList
import Mathlib.Logic.Function.Basic

/-!
A server of `muduo/net/TcpServer.cc` with its thread pool, its connections and
the functor queues of all its loops. Any thread may queue functors and call
`send`, `shutdown` and `quit`; a loop's own thread handles events, swaps its
functors out and runs them. Connections are numbered as they are accepted and
stay in the model after their last pointer has gone.
-/
namespace MuduoServer

open FaultMachine

abbrev Name := List Char

/-- The pool of `muduo/net/EventLoopThreadPool.h`; `next_` is in range. -/
structure EventLoopThreadPool (L : Type) where
  baseLoop_ : L
  loops_ : List L
  next_ : ℕ
  inRange : loops_ ≠ [] → next_ < loops_.length

namespace EventLoopThreadPool
variable {L : Type}

def start (baseLoop_ : L) (loops_ : List L) : EventLoopThreadPool L :=
  { baseLoop_ := baseLoop_
    loops_ := loops_
    next_ := 0
    inRange := List.length_pos_of_ne_nil }

/-- Round robin; without pool threads every connection is in the base loop. -/
def getNextLoop (p : EventLoopThreadPool L) : L × EventLoopThreadPool L :=
  if h : p.loops_ = [] then (p.baseLoop_, p)
  else
    (p.loops_.get ⟨p.next_, p.inRange h⟩,
      { p with
        next_ := if p.loops_.length ≤ p.next_ + 1 then 0 else p.next_ + 1
        inRange := by
          intro hne
          have hpos := List.length_pos_of_ne_nil hne
          split <;> omega })

end EventLoopThreadPool

structure TcpServer (L : Type) where
  hostport_ : List Char
  name_ : Name
  threadPool_ : EventLoopThreadPool L
  writeCompleteCallback_ : Bool
  nextConnId_ : ℕ
  connections_ : AList fun _ : Name => ℕ

namespace TcpServer
variable {L : Type}

/-- The acceptor's loop is the base loop of the pool. -/
def loop_ (t : TcpServer L) : L := t.threadPool_.baseLoop_

/-- What `snprintf(buf, sizeof buf, ":%s#%d", ...)` leaves in a buffer of 32. -/
def buf (t : TcpServer L) : List Char :=
  (':' :: t.hostport_ ++ '#' :: Nat.toDigits 10 t.nextConnId_).take 31

def connName (t : TcpServer L) : Name := t.name_ ++ t.buf

end TcpServer

/-- A connection with its loop and its name, which do not change. -/
structure Connection (L : Type) where
  loop_ : L
  name_ : Name
  tcp : TcpConnection

/-- The functors that the server and its connections queue. -/
inductive ServerFunctor
  | connectEstablished (i : ℕ)
  | removeConnectionInLoop (i : ℕ)
  | connectDestroyed (i : ℕ)
  | sendInLoop (i : ℕ) (message : List UInt8)
  | shutdownInLoop (i : ℕ)
  deriving DecidableEq

def ServerFunctor.conn : ServerFunctor → ℕ
  | .connectEstablished i => i
  | .removeConnectionInLoop i => i
  | .connectDestroyed i => i
  | .sendInLoop i _ => i
  | .shutdownInLoop i => i

/-- A loop that has returned from `loop()` runs nothing any more. -/
structure ServerLoop where
  queue : BatchQueue ServerFunctor
  quit_ : Bool
  returned : Bool

/-- While `joining`, the destructor waits for the threads of the pool. -/
inductive Life
  | serving
  | joining
  | destroyed
  deriving DecidableEq

/-- `removed` and `destroyed` record whose `removeConnectionInLoop` and
`connectDestroyed` have run. -/
structure ServerSystem (L : Type) where
  server : TcpServer L
  life : Life
  conns : ℕ → Option (Connection L)
  loops : L → ServerLoop
  removed : List ℕ
  destroyed : List ℕ

inductive ServerStep (L : Type)
  | newConnection
  | handleEvent (i : ℕ) (revents : Finset Poll) (r : Buffer.ReadResult) (w : WriteResult)
  | send (i : ℕ) (inLoop : Bool) (data : List UInt8) (w : WriteResult)
  | shutdown (i : ℕ) (inLoop : Bool)
  | setHighWaterMarkCallback (i : ℕ) (highWaterMark : ℕ)
  | swap (l : L)
  | runFunctor (l : L) (w : WriteResult)
  | finish (l : L)
  | quit (l : L)
  | destroy
  | joined

namespace ServerSystem

/-- `serverGone` and `loopGone` are uses of a destroyed server or loop. -/
inductive Fault
  | conn (fault : TcpConnection.Fault)
  | noConnection
  | eraseCount
  | overflow
  | serverGone
  | loopGone
  deriving DecidableEq

variable {L : Type}

def start (hostport_ : List Char) (name_ : Name) (writeCompleteCallback_ : Bool)
    (baseLoop_ : L) (loops_ : List L) : ServerSystem L :=
  { server :=
      { hostport_ := hostport_
        name_ := name_
        threadPool_ := EventLoopThreadPool.start baseLoop_ loops_
        writeCompleteCallback_ := writeCompleteCallback_
        nextConnId_ := 1
        connections_ := ∅ }
    life := .serving
    conns := fun _ => none
    loops := fun _ => { queue := BatchQueue.empty, quit_ := false, returned := false }
    removed := []
    destroyed := [] }

def setConn (s : ServerSystem L) (i : ℕ) (c : Connection L) : ServerSystem L :=
  { s with conns := Function.update s.conns i (some c) }

/-- Run `g` on connection `i`. -/
def onConn (s : ServerSystem L) (i : ℕ)
    (g : TcpConnection → Except TcpConnection.Fault TcpConnection) :
    Except Fault (ServerSystem L) :=
  match s.conns i with
  | none => .error .noConnection
  | some c => do
      let t ← (g c.tcp).mapError .conn
      pure (s.setConn i { c with tcp := t })

variable [DecidableEq L]

def setLoop (s : ServerSystem L) (l : L) (x : ServerLoop) : ServerSystem L :=
  { s with loops := Function.update s.loops l x }

/-- A loop of the pool is an object on its thread's stack, so it ends with `loop()`. -/
def queueInLoop (s : ServerSystem L) (l : L) (f : ServerFunctor) :
    Except Fault (ServerSystem L) := do
  check ((s.loops l).returned → l = s.server.loop_) .loopGone
  pure (s.setLoop l { s.loops l with queue := (s.loops l).queue.push f })

/-- `connections_.erase(conn->name())` is asserted to erase one entry. -/
def removeConnectionInLoop (s : ServerSystem L) (i : ℕ) : Except Fault (ServerSystem L) := do
  check (s.life ≠ .destroyed) .serverGone
  match s.conns i with
  | none => .error .noConnection
  | some c => do
      check (c.name_ ∈ s.server.connections_) .eraseCount
      let s := { s with
        server := { s.server with connections_ := s.server.connections_.erase c.name_ }
        removed := s.removed ++ [i] }
      s.queueInLoop c.loop_ (.connectDestroyed i)

/-- A functor is called; `w` is the answer to its write, if it makes one. -/
def call (s : ServerSystem L) (w : WriteResult) : ServerFunctor → Except Fault (ServerSystem L)
  | .connectEstablished i => s.onConn i TcpConnection.connectEstablished
  | .removeConnectionInLoop i => s.removeConnectionInLoop i
  | .connectDestroyed i => do
      let s ← s.onConn i TcpConnection.connectDestroyed
      pure { s with destroyed := s.destroyed ++ [i] }
  | .sendInLoop i message => s.onConn i fun c => c.sendInLoop message w
  | .shutdownInLoop i => s.onConn i fun c => pure c.shutdownInLoop

/-- `l->runInLoop(f)` in the thread of the loop `thread`. -/
def runInLoop (s : ServerSystem L) (thread l : L) (f : ServerFunctor) :
    Except Fault (ServerSystem L) :=
  if thread = l then s.call (.wrote 0) f else s.queueInLoop l f

/-- The close callback of connection `i`, in the thread of its loop. -/
def removeConnection (s : ServerSystem L) (thread : L) (i : ℕ) :
    Except Fault (ServerSystem L) := do
  check (s.life ≠ .destroyed) .serverGone
  s.runInLoop thread s.server.loop_ (.removeConnectionInLoop i)

def newConnection (s : ServerSystem L) : Except Fault (ServerSystem L) := do
  let t := s.server
  let (ioLoop, threadPool) := t.threadPool_.getNextLoop
  check (t.nextConnId_ + 1 < 2 ^ 31) .overflow
  let conn : Connection L :=
    { loop_ := ioLoop
      name_ := t.connName
      tcp := TcpConnection.new t.writeCompleteCallback_ false (64 * 1024 * 1024) }
  let s := { s with
    server := { t with
      threadPool_ := threadPool
      nextConnId_ := t.nextConnId_ + 1
      connections_ := t.connections_.insert t.connName t.nextConnId_ } }
  (s.setConn t.nextConnId_ conn).runInLoop t.loop_ ioLoop (.connectEstablished t.nextConnId_)

/-- One turn of the destructor's loop: the entry's pointer is reset and
`connectDestroyed` handed to the loop of the connection. -/
def destroyEntry (s : ServerSystem L) (e : Σ _ : Name, ℕ) : Except Fault (ServerSystem L) :=
  match s.conns e.2 with
  | none => .error .noConnection
  | some c =>
      let s := { s with
        server := { s.server with connections_ := s.server.connections_.erase e.1 } }
      s.runInLoop s.server.loop_ c.loop_ (.connectDestroyed e.2)

def destroyEntries : List (Σ _ : Name, ℕ) → ServerSystem L → Except Fault (ServerSystem L)
  | [], s => .ok s
  | e :: es, s => do
      let s ← s.destroyEntry e
      destroyEntries es s

/-- `~TcpServer` up to the destruction of the thread pool. -/
def destroy (s : ServerSystem L) : Except Fault (ServerSystem L) := do
  let s ← destroyEntries s.server.connections_.entries s
  pure { s with life := .joining }

/-- A poll result on connection `i`. Its close callback is called at most once. -/
def handleEvent (s : ServerSystem L) (i : ℕ) (revents : Finset Poll) (r : Buffer.ReadResult)
    (w : WriteResult) : Except Fault (ServerSystem L) :=
  match s.conns i with
  | none => .error .noConnection
  | some c => do
      let t ← (c.tcp.handleEvent revents r w).mapError .conn
      let s := s.setConn i { c with tcp := t }
      if .closeCallback ∈ t.notices.drop c.tcp.notices.length then
        s.removeConnection c.loop_ i
      else
        pure s

/-- `send` from the thread of the connection's loop or from another one. -/
def send (s : ServerSystem L) (i : ℕ) (inLoop : Bool) (data : List UInt8) (w : WriteResult) :
    Except Fault (ServerSystem L) :=
  match s.conns i with
  | none => .error .noConnection
  | some c =>
      if c.tcp.state_ = .kConnected then
        if inLoop then s.call w (.sendInLoop i data)
        else s.queueInLoop c.loop_ (.sendInLoop i data)
      else pure s

def shutdown (s : ServerSystem L) (i : ℕ) (inLoop : Bool) : Except Fault (ServerSystem L) :=
  match s.conns i with
  | none => .error .noConnection
  | some c =>
      match c.tcp.shutdown with
      | none => pure s
      | some t =>
          let s := s.setConn i { c with tcp := t }
          if inLoop then s.call (.wrote 0) (.shutdownInLoop i)
          else s.queueInLoop c.loop_ (.shutdownInLoop i)

def step (s : ServerSystem L) : ServerStep L → Except Fault (ServerSystem L)
  | .newConnection => s.newConnection
  | .handleEvent i revents r w => s.handleEvent i revents r w
  | .send i inLoop data w => s.send i inLoop data w
  | .shutdown i inLoop => s.shutdown i inLoop
  | .setHighWaterMarkCallback i highWaterMark =>
      s.onConn i fun c =>
        pure { c with highWaterMarkCallback_ := true, highWaterMark_ := highWaterMark }
  | .swap l => pure (s.setLoop l { s.loops l with queue := (s.loops l).queue.swap })
  | .runFunctor l w =>
      match (s.loops l).queue.pop? with
      | none => pure s
      | some (f, queue) => (s.setLoop l { s.loops l with queue := queue }).call w f
  | .finish l =>
      -- `while (!quit_)` is tested right after `doPendingFunctors`
      pure (s.setLoop l { s.loops l with
        queue := (s.loops l).queue.finish
        returned := (s.loops l).quit_ })
  | .quit l => pure (s.setLoop l { s.loops l with quit_ := true })
  | .destroy => s.destroy
  | .joined => pure { s with life := .destroyed }

/-- The thread of `l` is in its loop; the one of the acceptor waits in the destructor. -/
def Free (s : ServerSystem L) (l : L) : Prop :=
  (s.loops l).returned = false ∧ (l = s.server.loop_ → s.life ≠ .joining)

instance (s : ServerSystem L) (l : L) : Decidable (s.Free l) :=
  inferInstanceAs (Decidable (_ ∧ _))

/-- The kernel reports `POLLPRI` and `POLLHUP` together only with `POLLIN`. -/
def Reported (revents : Finset Poll) : Prop :=
  .POLLPRI ∈ revents → .POLLHUP ∈ revents → .POLLIN ∈ revents

instance (revents : Finset Poll) : Decidable (Reported revents) :=
  inferInstanceAs (Decidable (_ → _))

def Enabled (s : ServerSystem L) : ServerStep L → Prop
  | .newConnection => s.life = .serving ∧ s.Free s.server.loop_ ∧
      (s.loops s.server.loop_).queue.batch = none
  | .handleEvent i revents _ _ => ∃ c ∈ s.conns i, s.Free c.loop_ ∧
      (s.loops c.loop_).queue.batch = none ∧ c.tcp.channel_.Reports revents ∧ Reported revents
  | .send i _ _ _ => (s.conns i).isSome
  | .shutdown i _ => (s.conns i).isSome
  | .setHighWaterMarkCallback i _ => (s.conns i).isSome
  | .swap l => s.Free l ∧ (s.loops l).queue.batch = none
  | .runFunctor l _ => s.Free l ∧ (s.loops l).queue.pop?.isSome
  | .finish l => s.Free l ∧ (s.loops l).queue.batch = some []
  | .quit l => (s.loops l).returned = false
  | .destroy => s.life = .serving
  | .joined => s.life = .joining ∧ ∀ l ∈ s.server.threadPool_.loops_, (s.loops l).returned

instance (s : ServerSystem L) (a : ServerStep L) : Decidable (s.Enabled a) := by
  cases a <;> (simp only [Enabled]; infer_instance)

def machine : Machine (ServerSystem L) (ServerStep L) Fault where
  init s := ∃ hostport_ name_ writeComplete baseLoop_ loops_,
    s = start hostport_ name_ writeComplete baseLoop_ loops_
  enabled := Enabled
  step := step

instance (s : ServerSystem L) (a : ServerStep L) :
    Decidable ((machine : Machine (ServerSystem L) _ _).enabled s a) :=
  inferInstanceAs (Decidable (s.Enabled a))

end ServerSystem

end MuduoServer
