import MuduoServer.BatchQueue
import MuduoServer.Connector
import MuduoServer.TcpConnection
import Mathlib.Logic.Function.Basic

/-!
`muduo/net/TcpClient.cc` in one event loop: any number of clients, their connectors and
connections, connections of a server in the same loop, and the user's code, which runs in
the callbacks and between the handlers. An object goes when its last `shared_ptr` does; a
handler holds what its caller passes to it, and the `tie` of a channel holds the connection
for the time of `handleEvent`. Names, addresses and the other callbacks play no part here.
-/
namespace MuduoServer

open FaultMachine

/-- What `closeCallback_` is bound to: `TcpClient::removeConnection`, the one of a server, or
`detail::removeConnection`. -/
inductive CloseCallback
  | client (c : ℕ)
  | server
  | detail
  deriving DecidableEq

/-- `client` has made the connection, or a server has; `users` counts the pointers that the
user has kept. -/
structure ClientConnection where
  tcp : TcpConnection
  client : Option ℕ
  closeCallback_ : CloseCallback
  users : ℕ
  destroyed : Bool

/-- `timer` is the one that the destructor sets for `removeConnector`. -/
structure TcpClient where
  connector_ : Connector
  connection_ : Option ℕ
  writeCompleteCallback_ : Bool
  retry_ : Bool
  connect_ : Bool
  alive : Bool
  timer : Bool

def TcpClient.new (writeComplete : Bool) : TcpClient :=
  { connector_ := Connector.new
    connection_ := none
    writeCompleteCallback_ := writeComplete
    retry_ := false
    connect_ := true
    alive := true
    timer := false }

/-- `userCallback` is a queued write-complete or high-water-mark callback. -/
inductive ClientFunctor
  | connectDestroyed (k : ℕ)
  | resetChannel (c : ℕ)
  | userCallback (k : ℕ)
  deriving DecidableEq

/-- The branches of `handleEventWithGuard`. -/
inductive EventCallback
  | close
  | error
  | read
  | write
  deriving DecidableEq

/-- What the loop is in: nothing, the connection callback of the new connection `k`, the
`handleEvent` of connection `k` (between its callbacks, in the message callback or in the
connection callback of `handleClose`), or a queued callback of the user. -/
inductive Running
  | idle
  | connecting (client : Option ℕ) (k : ℕ)
  | event (k : ℕ) (todo : List EventCallback)
  | message (k : ℕ) (todo : List EventCallback)
  | closing (k : ℕ) (todo : List EventCallback)
  | callback (k : ℕ)
  deriving DecidableEq

namespace Running

/-- The connection that the handler holds. -/
def conn? : Running → Option ℕ
  | .idle => none
  | .connecting _ k | .event k _ | .message k _ | .closing k _ | .callback k => some k

/-- The connection whose `handleEvent` is executing. -/
def handling? : Running → Option ℕ
  | .idle | .connecting _ _ | .callback _ => none
  | .event k _ | .message k _ | .closing k _ => some k

/-- The user's code runs. -/
def User : Running → Prop
  | .event _ _ => False
  | .idle | .connecting _ _ | .message _ _ | .closing _ _ | .callback _ => True

instance (r : Running) : Decidable r.User :=
  match r with
  | .event _ _ => inferInstanceAs (Decidable False)
  | .idle | .connecting _ _ | .message _ _ | .closing _ _ | .callback _ =>
      inferInstanceAs (Decidable True)

/-- A callback of `handleEventWithGuard` is due. -/
def due : Running → Bool
  | .event _ (_ :: _) => true
  | .event _ [] | .idle | .connecting _ _ | .message _ _ | .closing _ _ | .callback _ => false

/-- `handleEventWithGuard` has made all its callbacks. -/
def ended : Running → Bool
  | .event _ [] => true
  | .event _ (_ :: _) | .idle | .connecting _ _ | .message _ _ | .closing _ _ | .callback _ => false

/-- The user's callback is the last call but that of `closeCallback_`. -/
def inClose : Running → Bool
  | .closing _ _ => true
  | .event _ _ | .idle | .connecting _ _ | .message _ _ | .callback _ => false

/-- The user's callback is the last call of the handler that has made it. -/
def inCallback : Running → Bool
  | .connecting _ _ | .message _ _ | .callback _ => true
  | .event _ _ | .idle | .closing _ _ => false

end Running

/-- `server` has the connections that the server holds, and `ran` the functors of the batch
that have run, which exist until the batch ends. -/
structure ClientLoop where
  clients : ℕ → Option TcpClient
  conns : ℕ → Option ClientConnection
  nextConn : ℕ
  server : List ℕ
  functors : BatchQueue ClientFunctor
  ran : List ClientFunctor
  running : Running

inductive ClientStep
  | newClient (c : ℕ) (writeComplete : Bool)
  | enableRetry (c : ℕ)
  | connect (c : ℕ) (result : ConnectResult)
  | stop (c : ℕ)
  | disconnect (c : ℕ)
  | destroyClient (c : ℕ)
  | hold (k : ℕ)
  | drop (k : ℕ)
  | send (k : ℕ) (data : List UInt8) (w : WriteResult)
  | shutdown (k : ℕ)
  | accept (writeComplete : Bool)
  | retryTimer (c : ℕ) (delay : ℕ) (result : ConnectResult)
  | removeConnector (c : ℕ)
  | poll (c : ℕ)
  | connectorEvent (c : ℕ) (revents : Finset Poll) (soError : ℕ) (selfConnect : Bool)
  | endOfEvents (c : ℕ)
  | event (k : ℕ) (revents : Finset Poll)
  | callback (r : Buffer.ReadResult) (w : WriteResult)
  | closeCallback (result : ConnectResult)
  | callbackReturn
  | endEvent
  | swap
  | runFunctor
  | finish

namespace ClientLoop

/-- `channelHandling` and `connectorChannel` are the assertions of `~Channel` and
`~Connector`; those that follow are uses of objects that are gone. -/
inductive Fault
  | connector (f : Connector.Fault)
  | conn (f : TcpConnection.Fault)
  | channelHandling
  | connectorChannel
  | resetAfterDestroy
  | channelGone
  | clientGone
  | notConnection
  | noObject
  deriving DecidableEq

def start : ClientLoop :=
  { clients := fun _ => none
    conns := fun _ => none
    nextConn := 0
    server := []
    functors := BatchQueue.empty
    ran := []
    running := .idle }

variable (s : ClientLoop)

def setClient (c : ℕ) (client : TcpClient) : ClientLoop :=
  { s with clients := Function.update s.clients c (some client) }

def setConn (k : ℕ) (conn : ClientConnection) : ClientLoop :=
  { s with conns := Function.update s.conns k (some conn) }

def push (f : ClientFunctor) : ClientLoop := { s with functors := s.functors.push f }

def onClient (c : ℕ) (g : TcpClient → TcpClient) : Except Fault ClientLoop :=
  match s.clients c with
  | none => .error .noObject
  | some client => pure (s.setClient c (g client))

/-- The callbacks that `t'` has queued since `t`, with a pointer to the connection each. -/
def userCallbacks (k : ℕ) (t t' : TcpConnection) : List ClientFunctor :=
  (t'.notices.drop t.notices.length).filterMap fun
    | .writeCompleteCallback | .highWaterMarkCallback _ => some (.userCallback k)
    | .connectionCallback _ | .messageCallback | .closeCallback => none

/-- Run `g` on connection `k`. -/
def onConn (k : ℕ) (g : TcpConnection → Except TcpConnection.Fault TcpConnection) :
    Except Fault ClientLoop :=
  match s.conns k with
  | none => .error .noObject
  | some conn => do
      let t ← (g conn.tcp).mapError .conn
      pure { s.setConn k { conn with tcp := t } with
        functors := (userCallbacks k conn.tcp t).foldl BatchQueue.push s.functors }

/-- A step of the connector of client `c`, whose `resetChannel` goes to the loop's queue. -/
def onConnector (c : ℕ) (a : ConnectorStep) : Except Fault ClientLoop :=
  match s.clients c with
  | none => .error .noObject
  | some client => do
      let connector ← (client.connector_.step a).mapError .connector
      let s := s.setClient c { client with connector_ := connector }
      pure (if client.connector_.resets < connector.resets then s.push (.resetChannel c) else s)

/-- The connector is destroyed when no `shared_ptr` of it is left. -/
def dropConnector (c : ℕ) : Except Fault ClientLoop :=
  match s.clients c with
  | none => .error .noObject
  | some client =>
      if client.connector_.Held then pure s
      else do
        let connector ← client.connector_.destroy.mapError fun _ => .connectorChannel
        pure (s.setClient c { client with connector_ := connector })

/-- `TcpClient::newConnection`, or the one of a server, up to the connection callback. -/
def newConnection (client : Option ℕ) (closeCallback_ : CloseCallback) (writeComplete : Bool) :
    Except Fault ClientLoop := do
  let k := s.nextConn
  let t ← (TcpConnection.new writeComplete false (64 * 1024 * 1024)).connectEstablished.mapError
    .conn
  pure { s with
    conns := Function.update s.conns k (some
      { tcp := t, client := client, closeCallback_ := closeCallback_, users := 0,
        destroyed := false })
    nextConn := k + 1
    running := .connecting client k }

/-- `Connector::handleWrite` ends with `newConnectionCallback_` when it hands a socket over. -/
def connectorEvent (c : ℕ) (revents : Finset Poll) (soError : ℕ) (selfConnect : Bool) :
    Except Fault ClientLoop :=
  match s.clients c with
  | none => .error .noObject
  | some client => do
      let s ← s.onConnector c (.handleEvent revents soError selfConnect)
      match s.clients c with
      | none => .error .noObject
      | some client' =>
          if client'.connector_.handed = client.connector_.handed then pure s
          else do
            check (client.alive = true) .clientGone
            let s := s.setClient c { client' with connection_ := some s.nextConn }
            s.newConnection (some c) (.client c) client.writeCompleteCallback_

/-- `TcpServer::newConnection` in the only loop. -/
def accept (writeComplete : Bool) : Except Fault ClientLoop :=
  { s with server := s.nextConn :: s.server }.newConnection none .server writeComplete

def shutdown (k : ℕ) : Except Fault ClientLoop :=
  s.onConn k fun t => pure (match t.shutdown with
    | none => t
    | some t => t.shutdownInLoop)

def disconnect (c : ℕ) : Except Fault ClientLoop :=
  match s.clients c with
  | none => .error .noObject
  | some client =>
      let s := s.setClient c { client with connect_ := false }
      match client.connection_ with
      | none => pure s
      | some k => s.shutdown k

/-- `~TcpClient`: with a connection its close callback is replaced and the connector goes
with the client; otherwise the connector is stopped and kept by a timer. -/
def destroyClient (c : ℕ) : Except Fault ClientLoop :=
  match s.clients c with
  | none => .error .noObject
  | some client =>
      match client.connection_ with
      | some k =>
          match s.conns k with
          | none => .error .noObject
          | some conn =>
              let s := s.setConn k { conn with closeCallback_ := .detail }
              let s := s.setClient c { client with
                alive := false
                connector_ := { client.connector_ with owned := false } }
              s.dropConnector c
      | none => do
          let s ← s.onConnector c .stop
          s.onClient c fun client => { client with alive := false, timer := true }

def removeConnection (c k : ℕ) (result : ConnectResult) : Except Fault ClientLoop :=
  match s.clients c with
  | none => .error .noObject
  | some client => do
      check (client.alive = true) .clientGone
      check (client.connection_ = some k) .notConnection
      let s := s.setClient c { client with connection_ := none }
      let s := s.push (.connectDestroyed k)
      if client.retry_ ∧ client.connect_ then s.onConnector c (.restart result) else pure s

/-- The call of `closeCallback_` at the end of `handleClose`. -/
def closeCallback (result : ConnectResult) : Except Fault ClientLoop :=
  match s.running with
  | .closing k todo =>
      match s.conns k with
      | none => .error .noObject
      | some conn =>
          let s := { s with running := .event k todo }
          match conn.closeCallback_ with
          | .client c => s.removeConnection c k result
          | .server => pure ({ s with server := s.server.erase k }.push (.connectDestroyed k))
          | .detail => pure (s.push (.connectDestroyed k))
  | _ => .error .noObject

/-- The callbacks that `handleEventWithGuard` makes for `revents`. -/
def callbacksOf (revents : Finset Poll) : List EventCallback :=
  (if .POLLHUP ∈ revents ∧ .POLLIN ∉ revents then [.close] else []) ++
  (if .POLLERR ∈ revents ∨ .POLLNVAL ∈ revents then [.error] else []) ++
  (if .POLLIN ∈ revents ∨ .POLLPRI ∈ revents ∨ .POLLRDHUP ∈ revents then [.read] else []) ++
  (if .POLLOUT ∈ revents then [.write] else [])

/-- The next callback of the event that is being handled; `r` and `w` are what the kernel
answers to its read or write. -/
def callback (r : Buffer.ReadResult) (w : WriteResult) : Except Fault ClientLoop :=
  match s.running with
  | .event k (.close :: todo) =>
      { s with running := .closing k todo }.onConn k TcpConnection.handleClose
  | .event k (.error :: todo) =>
      { s with running := .event k todo }.onConn k fun t => pure t.handleError
  | .event k (.read :: todo) =>
      let running : Running :=
        if 0 < r.n then .message k todo else if r.n = 0 then .closing k todo else .event k todo
      { s with running := running }.onConn k fun t => t.handleRead r
  | .event k (.write :: todo) =>
      { s with running := .event k todo }.onConn k fun t => t.handleWrite w
  | _ => .error .noObject

def callbackReturn : ClientLoop :=
  match s.running with
  | .message k todo => { s with running := .event k todo }
  | _ => { s with running := .idle }

def event (k : ℕ) (revents : Finset Poll) : Except Fault ClientLoop :=
  match s.conns k with
  | none => .error .noObject
  | some conn => do
      check (conn.destroyed = false) .channelGone
      pure { s with running := .event k (callbacksOf revents) }

/-- `Connector::resetChannel`: the channel is destroyed. -/
def resetChannel (c : ℕ) : Except Fault ClientLoop :=
  match s.clients c with
  | none => .error .noObject
  | some client => do
      check (client.connector_.alive = true) .resetAfterDestroy
      check (s.running.conn? = none) .channelHandling
      pure (s.setClient c { client with connector_ := client.connector_.resetChannel })

def call : ClientFunctor → Except Fault ClientLoop
  | .connectDestroyed k => s.onConn k TcpConnection.connectDestroyed
  | .resetChannel c => s.resetChannel c
  | .userCallback k => pure { s with running := .callback k }

def runFunctor : Except Fault ClientLoop :=
  match s.functors.pop? with
  | none => pure s
  | some (f, functors) => { s with functors := functors, ran := f :: s.ran }.call f

/-- The functors that exist. -/
def bound : List ClientFunctor := s.ran ++ s.functors.contents

/-- The pointer that a client or the server keeps of its connection. -/
def Owned (k : ℕ) (conn : ClientConnection) : Prop :=
  k ∈ s.server ∨
  ∃ c ∈ conn.client, ∃ client ∈ s.clients c, client.alive = true ∧ client.connection_ = some k

/-- Some `shared_ptr` of the connection is left. -/
def Held (k : ℕ) (conn : ClientConnection) : Prop :=
  0 < conn.users ∨ s.Owned k conn ∨ s.running.conn? = some k ∨
  .connectDestroyed k ∈ s.bound ∨ .userCallback k ∈ s.bound

instance (k : ℕ) (conn : ClientConnection) : Decidable (s.Owned k conn) :=
  inferInstanceAs (Decidable (_ ∨ _))

instance (k : ℕ) (conn : ClientConnection) : Decidable (s.Held k conn) :=
  inferInstanceAs (Decidable (_ ∨ _))

/-- The connections that nothing holds are destroyed, and their channels with them. -/
def collect : Except Fault ClientLoop := do
  check (∀ k ∈ s.running.handling?, ∀ conn ∈ s.conns k, s.Held k conn) .channelHandling
  pure { s with
    conns := fun k => (s.conns k).map fun conn =>
      if s.Held k conn then conn else { conn with destroyed := true } }

def act : ClientStep → Except Fault ClientLoop
  | .newClient c writeComplete => pure (s.setClient c (TcpClient.new writeComplete))
  | .enableRetry c => s.onClient c fun client => { client with retry_ := true }
  | .connect c result => do
      let s ← s.onClient c fun client => { client with connect_ := true }
      s.onConnector c (.start result)
  | .stop c => do
      let s ← s.onClient c fun client => { client with connect_ := false }
      s.onConnector c .stop
  | .disconnect c => s.disconnect c
  | .destroyClient c => s.destroyClient c
  | .hold k =>
      match s.conns k with
      | none => .error .noObject
      | some conn => pure (s.setConn k { conn with users := conn.users + 1 })
  | .drop k =>
      match s.conns k with
      | none => .error .noObject
      | some conn => pure (s.setConn k { conn with users := conn.users - 1 })
  | .send k data w => s.onConn k fun t =>
      if t.state_ = .kConnected then t.sendInLoop data w else pure t
  | .shutdown k => s.shutdown k
  | .accept writeComplete => s.accept writeComplete
  | .retryTimer c delay result => do
      let s ← s.onConnector c (.startInLoop delay result)
      s.dropConnector c
  | .removeConnector c => do
      let s ← s.onClient c fun client => { client with
        timer := false, connector_ := { client.connector_ with owned := false } }
      s.dropConnector c
  | .poll c => s.onConnector c .poll
  | .connectorEvent c revents soError selfConnect => s.connectorEvent c revents soError selfConnect
  | .endOfEvents c => s.onConnector c .endOfEvents
  | .event k revents => s.event k revents
  | .callback r w => s.callback r w
  | .closeCallback result => s.closeCallback result
  | .callbackReturn => pure s.callbackReturn
  | .endEvent => pure { s with running := .idle }
  | .swap => pure { s with functors := s.functors.swap }
  | .runFunctor => s.runFunctor
  | .finish => pure { s with functors := s.functors.finish, ran := [] }

def step (a : ClientStep) : Except Fault ClientLoop := do
  let s ← s.act a
  s.collect

/-- The user's code can get at the connection. -/
def Reaches (k : ℕ) : Prop :=
  ∃ conn ∈ s.conns k, conn.destroyed = false ∧
    (0 < conn.users ∨ s.running.conn? = some k ∨ s.Owned k conn)

instance (k : ℕ) : Decidable (s.Reaches k) :=
  inferInstanceAs (Decidable (∃ conn ∈ s.conns k, _ ∧ _))

/-- The kernel reports `POLLPRI` and `POLLHUP` together only with `POLLIN`. -/
def Enabled : ClientStep → Prop
  | .newClient c _ => s.running.User ∧ s.clients c = none
  | .enableRetry c | .connect c _ | .stop c | .disconnect c | .destroyClient c =>
      s.running.User ∧ ∃ client ∈ s.clients c, client.alive = true
  | .hold k | .send k _ _ | .shutdown k => s.running.User ∧ s.Reaches k
  | .drop k => s.running.User ∧ ∃ conn ∈ s.conns k, conn.destroyed = false ∧ 0 < conn.users
  | .accept _ => s.running = .idle
  | .retryTimer c delay result => s.running = .idle ∧
      ∃ client ∈ s.clients c, client.connector_.Enabled (.startInLoop delay result)
  | .removeConnector c => s.running = .idle ∧ ∃ client ∈ s.clients c, client.timer = true
  | .poll c => s.running = .idle ∧ ∃ client ∈ s.clients c, client.connector_.Enabled .poll
  | .connectorEvent c revents soError selfConnect => s.running = .idle ∧
      ∃ client ∈ s.clients c, client.connector_.Enabled (.handleEvent revents soError selfConnect)
  | .endOfEvents c => s.running = .idle ∧
      ∃ client ∈ s.clients c, client.connector_.Enabled .endOfEvents
  | .event k revents => s.running = .idle ∧ ∃ conn ∈ s.conns k,
      conn.tcp.channel_.Reports revents ∧ (.POLLPRI ∈ revents → .POLLHUP ∈ revents → .POLLIN ∈ revents)
  | .callback _ _ => s.running.due = true
  | .closeCallback _ => s.running.inClose = true
  | .callbackReturn => s.running.inCallback = true
  | .endEvent => s.running.ended = true
  | .swap => s.running = .idle ∧ s.functors.batch = none
  | .runFunctor => s.running = .idle ∧ s.functors.pop?.isSome
  | .finish => s.running = .idle ∧ s.functors.batch = some []

instance (a : ClientStep) : Decidable (s.Enabled a) := by
  cases a <;> (simp only [Enabled]; infer_instance)

def machine : Machine ClientLoop ClientStep Fault where
  init s := s = start
  enabled := Enabled
  step := step

instance (a : ClientStep) : Decidable (machine.enabled s a) :=
  inferInstanceAs (Decidable (s.Enabled a))

end ClientLoop

end MuduoServer
