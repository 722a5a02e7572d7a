import MuduoServer.LengthHeaderCodec
import MuduoServer.TcpConnection

/-!
`ChatServer`: every message of a client is sent to all of them. The room below says what the
server is for: the messages of each client are those in its stream, however it comes in, and a
client gets the messages that are handled while it is connected, in the order of handling. The
server is a simulation of the room.
-/
namespace MuduoServer

open FaultMachine Framing LengthHeaderCodec

/-- A connection as the chat server uses it; `sent` is what it has given to `sendInLoop`. -/
structure ChatConnection where
  state_ : StateE
  inputBuffer_ : Buffer
  sent : List UInt8

namespace ChatConnection

def new : ChatConnection := { state_ := .kConnecting, inputBuffer_ := Buffer.new, sent := [] }

def send (c : ChatConnection) (data : List UInt8) : ChatConnection :=
  if c.state_ = .kConnected then { c with sent := c.sent ++ data } else c

def shutdown (c : ChatConnection) : ChatConnection :=
  if c.state_ = .kConnected then { c with state_ := .kDisconnecting } else c

variable (c : ChatConnection) (data more : List UInt8)

@[simp] theorem send_state_ : (c.send data).state_ = c.state_ := by
  unfold send
  split <;> rfl

@[simp] theorem send_inputBuffer_ : (c.send data).inputBuffer_ = c.inputBuffer_ := by
  unfold send
  split <;> rfl

@[simp] theorem shutdown_inputBuffer_ : c.shutdown.inputBuffer_ = c.inputBuffer_ := by
  unfold shutdown
  split <;> rfl

@[simp] theorem shutdown_sent : c.shutdown.sent = c.sent := by
  unfold shutdown
  split <;> rfl

theorem send_nil : c.send [] = c := by
  unfold send
  rw [List.append_nil]
  split <;> rfl

theorem send_send : (c.send data).send more = c.send (data ++ more) := by
  unfold send
  split
  · simp only [List.append_assoc]
  · rfl

end ChatConnection

/-- `connections_` is the set of the connections that are up. -/
structure ChatServer (C : Type) where
  connections_ : List C
  conn : C → ChatConnection

inductive ChatEvent (C : Type)
  | established (c : C)
  | read (c : C) (data : List UInt8)
  | closed (c : C)

namespace ChatServer

variable {C : Type} [DecidableEq C]

def new : ChatServer C := { connections_ := [], conn := fun _ => .new }

def set (s : ChatServer C) (c : C) (x : ChatConnection) : ChatServer C :=
  { s with conn := Function.update s.conn c x }

@[simp] theorem set_self (s : ChatServer C) (c : C) (x : ChatConnection) :
    (s.set c x).conn c = x := Function.update_self ..

@[simp] theorem set_of_ne (s : ChatServer C) {c d : C} (x : ChatConnection) (hd : d ≠ c) :
    (s.set c x).conn d = s.conn d := Function.update_of_ne hd ..

def onConnection (s : ChatServer C) (c : C) : ChatServer C :=
  if (s.conn c).state_ = .kConnected then { s with connections_ := s.connections_.insert c }
  else { s with connections_ := s.connections_.erase c }

section Functions
variable (order : Endian.HostOrder)

/-- One round of the loop in `onStringMessage`. -/
def sendTo (message : List UInt8) (s : ChatServer C) (c : C) :
    Except Buffer.Fault (ChatServer C) := do
  let data ← LengthHeaderCodec.send order message
  pure (s.set c ((s.conn c).send data))

def onStringMessage (s : ChatServer C) (message : List UInt8) :
    Except Buffer.Fault (ChatServer C) :=
  s.connections_.foldlM (sendTo order message) s

/-- What the codec calls for the connection `c`. -/
def onCall (c : C) (s : ChatServer C) : Call → Except Buffer.Fault (ChatServer C)
  | .messageCallback_ message => s.onStringMessage order message
  | .shutdown => pure (s.set c (s.conn c).shutdown)

def step (s : ChatServer C) : ChatEvent C → Except Buffer.Fault (ChatServer C)
  | .established c => pure ((s.set c { s.conn c with state_ := .kConnected }).onConnection c)
  | .read c data => do
      let buf ← (s.conn c).inputBuffer_.readFd (.bytes data)
      let r ← onMessage order buf
      r.1.foldlM (onCall order c) (s.set c { s.conn c with inputBuffer_ := r.2 })
  | .closed c => pure ((s.set c { s.conn c with state_ := .kDisconnected }).onConnection c)

/-- A connection is established once, and read until it is closed. -/
def machine : Machine (ChatServer C) (ChatEvent C) Buffer.Fault where
  init s := s = new
  enabled s
    | .established c => (s.conn c).state_ = .kConnecting
    | .read c _ | .closed c => (s.conn c).state_ = .kConnected ∨ (s.conn c).state_ = .kDisconnecting
  step := step order

end Functions

/-- What the server is for. `rest` is the part of a stream that is not a frame yet. -/
structure Room (C : Type) where
  rest : C → List UInt8
  listens : C → Bool
  got : C → List (List UInt8)

namespace Room

def new : Room C := { rest := fun _ => [], listens := fun _ => false, got := fun _ => [] }

/-- All that listen get the messages of a read, the one who sent them too. -/
def step (r : Room C) : ChatEvent C → Room C
  | .established c => { r with listens := Function.update r.listens c true }
  | .read c data =>
      let f := format.frames (r.rest c ++ data)
      { rest := Function.update r.rest c f.2
        listens := if front f.2 = .bad then Function.update r.listens c false else r.listens
        got := fun d => if r.listens d then r.got d ++ f.1 else r.got d }
  | .closed c => { r with listens := Function.update r.listens c false }

end Room

/-- The room after some events. -/
def room (as : List (ChatEvent C)) : Room C := as.foldl Room.step .new

/-- The server is in the state of the room. -/
structure Simulates (s : ChatServer C) (r : Room C) : Prop where
  buffer : ∀ c, (s.conn c).inputBuffer_.Represents (r.rest c)
  sent : ∀ c, (s.conn c).sent = (r.got c).flatMap encode
  listens : ∀ c, r.listens c = true ↔ (s.conn c).state_ = .kConnected
  nodup : s.connections_.Nodup
  connected : ∀ c, (s.conn c).state_ = .kConnected → c ∈ s.connections_
  valid : ∀ c, ∀ m ∈ r.got c, m.length ≤ 65536

variable {order : Endian.HostOrder} {s s' : ChatServer C} {r : Room C} {c d : C}
  {as bs : List (ChatEvent C)}

omit [DecidableEq C] in
theorem new_simulates : Simulates (new : ChatServer C) .new where
  buffer _ := Buffer.new_represents
  sent _ := rfl
  listens c := by simp [Room.new, new, ChatConnection.new]
  nodup := List.nodup_nil
  connected c h := by simp [new, ChatConnection.new] at h
  valid _ _ h := by cases h

/-- The loop over some of the connections. -/
theorem foldlM_sendTo (order : Endian.HostOrder) (m : List UInt8) {cs : List C} (hcs : cs.Nodup)
    (s : ChatServer C) : cs.foldlM (sendTo order m) s = .ok { s with
      conn := fun d => if d ∈ cs then (s.conn d).send (encode m) else s.conn d } := by
  induction cs generalizing s with
  | nil =>
    simp only [List.not_mem_nil, if_false]
    rfl
  | cons c cs ih =>
    obtain ⟨hc, hcs⟩ := List.nodup_cons.1 hcs
    have hfirst : sendTo order m s c = .ok (s.set c ((s.conn c).send (encode m))) := by
      rw [sendTo, send_eq, ok_bind]
      rfl
    rw [List.foldlM_cons, hfirst, ok_bind, ih hcs]
    refine congrArg (fun f => Except.ok { s with conn := f }) (funext fun d => ?_)
    by_cases hd : d = c
    · subst hd
      rw [if_neg hc, if_pos List.mem_cons_self, set_self]
    · simp only [set_of_ne s _ hd, List.mem_cons, hd, false_or]

/-- Only those of the set are connected, so all others ignore what is sent. -/
def broadcast (s : ChatServer C) (data : List UInt8) : ChatServer C :=
  { s with conn := fun d => (s.conn d).send data }

theorem onStringMessage_eq (m : List UInt8) (hnodup : s.connections_.Nodup)
    (hconn : ∀ c, (s.conn c).state_ = .kConnected → c ∈ s.connections_) :
    s.onStringMessage order m = .ok (s.broadcast (encode m)) := by
  rw [onStringMessage, foldlM_sendTo order m hnodup, broadcast]
  refine congrArg (fun f => Except.ok { s with conn := f }) (funext fun d => ?_)
  split
  · rfl
  · rename_i hd
    have hnot : (s.conn d).state_ ≠ .kConnected := fun h => hd (hconn d h)
    rw [ChatConnection.send, if_neg hnot]

theorem onCalls_eq (ms : List (List UInt8)) (hnodup : s.connections_.Nodup)
    (hconn : ∀ c, (s.conn c).state_ = .kConnected → c ∈ s.connections_) :
    (ms.map Call.messageCallback_).foldlM (onCall order c) s =
      .ok (s.broadcast (ms.flatMap encode)) := by
  induction ms generalizing s with
  | nil =>
    simp only [List.flatMap_nil, broadcast, ChatConnection.send_nil]
    rfl
  | cons m ms ih =>
    have hnext := ih (s := s.broadcast (encode m)) hnodup fun d hd =>
      hconn d (by simpa [broadcast] using hd)
    rw [List.map_cons, List.foldlM_cons, onCall, onStringMessage_eq m hnodup hconn, ok_bind, hnext,
      List.flatMap_cons]
    simp only [broadcast, ChatConnection.send_send]

/-- One connection changes, and the set with it. -/
theorem Simulates.set (h : Simulates s r) {c : C} {x : ChatConnection} {q : List UInt8} {u : Bool}
    {cs : List C} (hx : x.inputBuffer_.Represents q) (hsent : x.sent = (s.conn c).sent)
    (hup : u = true ↔ x.state_ = .kConnected) (hcs : cs.Nodup)
    (hmem : x.state_ = .kConnected → c ∈ cs) (hkeep : ∀ d ∈ s.connections_, d ≠ c → d ∈ cs) :
    Simulates { s.set c x with connections_ := cs }
      { r with rest := Function.update r.rest c q, listens := Function.update r.listens c u } := by
  refine ⟨fun d => ?_, fun d => ?_, fun d => ?_, hcs, fun d hd => ?_, h.valid⟩
  · by_cases hdc : d = c
    · subst hdc
      simpa using hx
    · simpa [hdc] using h.buffer d
  · by_cases hdc : d = c
    · subst hdc
      simpa [hsent] using h.sent d
    · simpa [hdc] using h.sent d
  · by_cases hdc : d = c
    · subst hdc
      simpa using hup
    · simpa [hdc] using h.listens d
  · by_cases hdc : d = c
    · subst hdc
      exact hmem (by simpa using hd)
    · exact hkeep d (h.connected d (by simpa [hdc] using hd)) hdc

theorem Simulates.setBuffer (h : Simulates s r) {b : Buffer} {q : List UInt8}
    (hb : b.Represents q) (c : C) : Simulates (s.set c { s.conn c with inputBuffer_ := b })
      { r with rest := Function.update r.rest c q } := by
  have hset := h.set (x := { s.conn c with inputBuffer_ := b }) hb rfl (h.listens c) h.nodup
    (h.connected c) fun _ hd _ => hd
  rwa [Function.update_eq_self] at hset

omit [DecidableEq C] in
/-- Messages that are sent to all. -/
theorem Simulates.broadcast (h : Simulates s r) {ms : List (List UInt8)}
    (hms : ∀ m ∈ ms, m.length ≤ 65536) : Simulates (s.broadcast (ms.flatMap encode))
      { r with got := fun d => if r.listens d then r.got d ++ ms else r.got d } := by
  refine ⟨fun d => ?_, fun d => ?_, fun d => ?_, h.nodup, fun d hd => ?_, fun d m hm => ?_⟩
  · simpa [ChatServer.broadcast] using h.buffer d
  · by_cases hd : (s.conn d).state_ = .kConnected
    · have hlistens := (h.listens d).2 hd
      simp only [ChatServer.broadcast, ChatConnection.send, if_pos hd, hlistens, if_true,
        List.flatMap_append, h.sent d]
    · have hlistens : ¬ r.listens d = true := fun hl => hd ((h.listens d).1 hl)
      simp only [ChatServer.broadcast, ChatConnection.send, if_neg hd, if_neg hlistens, h.sent d]
  · simpa [ChatServer.broadcast] using h.listens d
  · exact h.connected d (by simpa [ChatServer.broadcast] using hd)
  · simp only at hm
    split at hm
    · rcases List.mem_append.1 hm with hm | hm
      · exact h.valid d m hm
      · exact hms m hm
    · exact h.valid d m hm

/-- A connection that is shut down gets nothing more. -/
theorem Simulates.shutdown (h : Simulates s r) (c : C) :
    Simulates (s.set c (s.conn c).shutdown)
      { r with listens := Function.update r.listens c false } := by
  have hstate : (s.conn c).shutdown.state_ ≠ .kConnected := by
    unfold ChatConnection.shutdown
    split
    · exact fun h => by cases h
    · assumption
  have hset := h.set (x := (s.conn c).shutdown) (u := false)
    (by rw [ChatConnection.shutdown_inputBuffer_]; exact h.buffer c)
    (ChatConnection.shutdown_sent _) (by simpa using hstate) h.nodup (fun hc => absurd hc hstate) fun _ hd _ => hd
  rwa [Function.update_eq_self] at hset

theorem Simulates.established (h : Simulates s r) (c : C) :
    Simulates ((s.set c { s.conn c with state_ := .kConnected }).onConnection c)
      { r with listens := Function.update r.listens c true } := by
  have hup : (s.set c { s.conn c with state_ := .kConnected }).onConnection c =
      { s.set c { s.conn c with state_ := .kConnected } with
        connections_ := s.connections_.insert c } := by
    rw [onConnection, set_self]
    exact if_pos rfl
  rw [hup]
  have hset := h.set (x := { s.conn c with state_ := .kConnected }) (u := true) (h.buffer c) rfl
    (by simp) (h.nodup.insert (a := c)) (fun _ => List.mem_insert_self)
    fun _ hd _ => List.mem_insert_of_mem hd
  rwa [Function.update_eq_self] at hset

theorem Simulates.closed (h : Simulates s r) (c : C) :
    Simulates ((s.set c { s.conn c with state_ := .kDisconnected }).onConnection c)
      { r with listens := Function.update r.listens c false } := by
  have hdown : (s.set c { s.conn c with state_ := .kDisconnected }).onConnection c =
      { s.set c { s.conn c with state_ := .kDisconnected } with
        connections_ := s.connections_.erase c } := by
    rw [onConnection, set_self]
    exact if_neg (fun h => by cases h)
  rw [hdown]
  have hset := h.set (x := { s.conn c with state_ := .kDisconnected }) (u := false) (h.buffer c) rfl
    (by simp) (h.nodup.erase c) (fun hc => by cases hc) fun _ hd hdc =>
    (List.mem_erase_of_ne hdc).2 hd
  rwa [Function.update_eq_self] at hset

/-- A read: the messages are sent to all, and a length that is not valid shuts down. -/
theorem Simulates.read_eq (order : Endian.HostOrder) (h : Simulates s r) (c : C)
    (data : List UInt8) : ∃ b t, b.Represents (format.frames (r.rest c ++ data)).2 ∧
      t = (s.set c { s.conn c with inputBuffer_ := b }).broadcast
        ((format.frames (r.rest c ++ data)).1.flatMap encode) ∧
      step order s (.read c data) = .ok (if front (format.frames (r.rest c ++ data)).2 = .bad then
        t.set c (t.conn c).shutdown else t) := by
  obtain ⟨b₁, hb₁, hq₁⟩ := (h.buffer c).readFd data
  obtain ⟨b₂, hb₂, hq₂⟩ := onMessage_represents order hq₁
  have hset := h.setBuffer hq₂ c
  have hcalls : (((format.frames (r.rest c ++ data)).1.map Call.messageCallback_).foldlM
      (onCall order c) (s.set c { s.conn c with inputBuffer_ := b₂ })) = .ok _ :=
    onCalls_eq _ hset.nodup hset.connected
  refine ⟨b₂, _, hq₂, rfl, ?_⟩
  rw [step, hb₁, ok_bind, hb₂, ok_bind, callsOf, List.foldlM_append, hcalls, ok_bind]
  split
  · rfl
  · rfl

theorem Simulates.read (order : Endian.HostOrder) (h : Simulates s r) (c : C)
    (data : List UInt8) : ∃ s', step order s (.read c data) = .ok s' ∧
      Simulates s' (r.step (.read c data)) := by
  obtain ⟨b, t, hb, rfl, hstep⟩ := h.read_eq order c data
  have hall := (h.setBuffer hb c).broadcast (length_le_of_frames (r.rest c ++ data))
  refine ⟨_, hstep, ?_⟩
  rw [Room.step]
  by_cases hbad : front (format.frames (r.rest c ++ data)).2 = .bad
  · simp only [if_pos hbad]
    exact hall.shutdown c
  · simp only [if_neg hbad]
    exact hall

/-- No event fails, and the server goes where the room goes. -/
theorem step_simulates (order : Endian.HostOrder) (h : Simulates s r) (a : ChatEvent C) :
    ∃ s', step order s a = .ok s' ∧ Simulates s' (r.step a) := by
  cases a with
  | established c => exact ⟨_, rfl, h.established c⟩
  | read c data => exact h.read order c data
  | closed c => exact ⟨_, rfl, h.closed c⟩

theorem run_simulates (h : (machine order).Run s as s') (hs : Simulates s r) :
    Simulates s' (as.foldl Room.step r) := by
  induction h with
  | nil => exact hs
  | snoc _ _ hstep ih =>
    obtain ⟨t, ht, hsim⟩ := step_simulates order ih _
    obtain rfl := Except.ok.inj (ht.symm.trans hstep)
    rw [List.foldl_append]
    exact hsim

/-- Nothing that happens to the server is an error, and what a client reads, in whatever pieces
and on a host of either order, gives the first of the messages that are for it; all that was
sent gives all of them. -/
theorem chat_delivers (h : (machine order).Run new as s) :
    (∀ a, ∃ s', (machine order).step s a = .ok s') ∧
    ∀ (clientOrder : Endian.HostOrder) (c : C) (pieces : List (List UInt8)),
      pieces.flatten <+: (s.conn c).sent → ∃ got b,
        receive clientOrder Buffer.new pieces = .ok (got.map .messageCallback_, b) ∧
        got <+: (room as).got c ∧
        (pieces.flatten = (s.conn c).sent → got = (room as).got c ∧ b.readable = []) := by
  have hsim : Simulates s (room as) := run_simulates h new_simulates
  constructor
  · intro a
    obtain ⟨s', hs', -⟩ := step_simulates order hsim a
    exact ⟨s', hs'⟩
  · intro clientOrder c pieces hpieces
    rw [hsim.sent c] at hpieces ⊢
    exact receive_prefix clientOrder (hsim.valid c) hpieces

instance (s : ChatServer C) (a : ChatEvent C) : Decidable ((machine order).enabled s a) :=
  match a with
  | .established c => inferInstanceAs (Decidable ((s.conn c).state_ = .kConnecting))
  | .read c _ | .closed c => inferInstanceAs (Decidable
      ((s.conn c).state_ = .kConnected ∨ (s.conn c).state_ = .kDisconnecting))

/-- Two clients; the first message comes in two pieces, and then the second client leaves. -/
def sampleEvents : List (ChatEvent Bool) :=
  [.established false, .established true, .read false [0, 0, 0, 2, 7], .read false [8]]

def sampleRest : List (ChatEvent Bool) := [.read true [0, 0, 0, 1, 9], .closed true]

theorem chat_delivers_two : ∃ s, (machine .little).Run (new : ChatServer Bool) sampleEvents s ∧
    ∃ got b, receive .big Buffer.new [[0, 0, 0], [2, 7, 8]] =
        .ok (got.map .messageCallback_, b) ∧ got = [[7, 8]] ∧ b.readable = [] := by
  have hsent : ((machine .little).execute (new : ChatServer Bool) sampleEvents).map (fun s =>
      (s.conn true).sent) = some [0, 0, 0, 2, 7, 8] := by
    decide +kernel
  obtain ⟨s, hs, hsent⟩ := Option.map_eq_some_iff.1 hsent
  have hrun := Machine.run_of_execute _ hs
  have hpieces : ([[0, 0, 0], [2, 7, 8]] : List (List UInt8)).flatten = (s.conn true).sent := by
    rw [hsent]
    rfl
  obtain ⟨got, b, hreceive, -, hall⟩ := (chat_delivers hrun).2 .big true _
    ⟨[], by rw [List.append_nil, hpieces]⟩
  obtain ⟨hgot, hempty⟩ := hall hpieces
  refine ⟨s, hrun, got, b, hreceive, hgot.trans ?_, hempty⟩
  decide +kernel

theorem shutdown_ne_connecting {x : ChatConnection} (hx : x.state_ ≠ .kConnecting) :
    x.shutdown.state_ ≠ .kConnecting := by
  unfold ChatConnection.shutdown
  split
  · exact fun h => by cases h
  · exact hx

/-- A connection is never new again. -/
theorem step_ne_connecting (h : Simulates s r) {a : ChatEvent C} (hs : step order s a = .ok s')
    (hc : (s.conn c).state_ ≠ .kConnecting) : (s'.conn c).state_ ≠ .kConnecting := by
  have hconn : ∀ (t : ChatServer C) (e d : C), ((t.onConnection e).conn d) = t.conn d := by
    intro t e d
    unfold onConnection
    split
    · rfl
    · rfl
  cases a with
  | established d =>
    obtain rfl := Except.ok.inj hs
    rw [hconn]
    by_cases hcd : c = d
    · subst hcd
      simp
    · rwa [set_of_ne s _ hcd]
  | closed d =>
    obtain rfl := Except.ok.inj hs
    rw [hconn]
    by_cases hcd : c = d
    · subst hcd
      simp
    · rwa [set_of_ne s _ hcd]
  | read d data =>
    obtain ⟨b, t, -, rfl, hstep⟩ := h.read_eq order d data
    obtain rfl := Except.ok.inj (hstep.symm.trans hs)
    have hsent : ((((s.set d { s.conn d with inputBuffer_ := b }).broadcast
        ((format.frames (r.rest d ++ data)).1.flatMap encode)).conn c).state_) ≠ .kConnecting := by
      simp only [ChatServer.broadcast, ChatConnection.send_state_]
      by_cases hcd : c = d
      · subst hcd
        simpa using hc
      · rwa [set_of_ne s _ hcd]
    split
    · by_cases hcd : c = d
      · subst hcd
        rw [set_self]
        exact shutdown_ne_connecting hsent
      · rwa [set_of_ne _ _ hcd]
    · exact hsent

theorem Room.step_listens {a : ChatEvent C} (h : (r.step a).listens c = true) :
    r.listens c = true ∨ a = .established c := by
  have hupdate : ∀ d, Function.update r.listens d false c = true → r.listens c = true := by
    intro d hd
    by_cases hcd : c = d
    · subst hcd
      simp at hd
    · rwa [Function.update_of_ne hcd] at hd
  cases a with
  | established d =>
    by_cases hcd : c = d
    · exact Or.inr (by rw [hcd])
    · rw [Room.step] at h
      exact Or.inl (by simpa [hcd] using h)
  | closed d => exact Or.inl (hupdate d h)
  | read d data =>
    left
    simp only [Room.step] at h
    split at h
    · exact hupdate d h
    · exact h

/-- Those who listen get the same messages. -/
theorem Room.step_got (r : Room C) (a : ChatEvent C) :
    ∃ ms, ∀ c, r.listens c = true → (r.step a).got c = r.got c ++ ms := by
  cases a with
  | established d => exact ⟨[], fun c _ => (List.append_nil _).symm⟩
  | closed d => exact ⟨[], fun c _ => (List.append_nil _).symm⟩
  | read d data => exact ⟨(format.frames (r.rest d ++ data)).1, fun c hc => if_pos hc⟩

/-- All that are connected from one time to another are sent the same messages in the same
order. -/
theorem same_messages (h : (machine order).Run new as s) (h' : (machine order).Run s bs s') :
    ∃ ms : List (List UInt8), ∀ c, (s.conn c).state_ = .kConnected →
      (s'.conn c).state_ = .kConnected →
        (s'.conn c).sent = (s.conn c).sent ++ ms.flatMap encode := by
  have hall : ∃ r, Simulates s' r ∧ (∀ c, (s.conn c).state_ = .kConnected →
      (s'.conn c).state_ ≠ .kConnecting) ∧ ∃ ms : List (List UInt8), ∀ c,
        (s.conn c).state_ = .kConnected → (s'.conn c).state_ = .kConnected →
          (s'.conn c).sent = (s.conn c).sent ++ ms.flatMap encode := by
    induction h' with
    | nil =>
      refine ⟨_, run_simulates h new_simulates, fun c hc hnew => ?_, [], fun c _ _ => ?_⟩
      · rw [hc] at hnew
        cases hnew
      · rw [List.flatMap_nil, List.append_nil]
    | @snoc t u as a _ henabled hstep ih =>
      obtain ⟨r, hsim, hnever, ms, hms⟩ := ih
      obtain ⟨u', hu', hsim'⟩ := step_simulates order hsim a
      obtain rfl := Except.ok.inj (hu'.symm.trans hstep)
      obtain ⟨more, hmore⟩ := r.step_got a
      refine ⟨_, hsim', fun c hc => step_ne_connecting hsim hstep (hnever c hc), ms ++ more,
        fun c hc hc' => ?_⟩
      -- An event that establishes the connection is not enabled.
      have hlistens : r.listens c = true := by
        rcases Room.step_listens ((hsim'.listens c).2 hc') with hl | rfl
        · exact hl
        · exact absurd henabled (hnever c hc)
      rw [hsim'.sent c, hmore c hlistens, List.flatMap_append, ← hsim.sent c,
        hms c hc ((hsim.listens c).1 hlistens), List.flatMap_append, List.append_assoc]
  obtain ⟨-, -, -, hms⟩ := hall
  exact hms

theorem same_messages_two : ∃ s s' : ChatServer Bool, (machine .big).Run new sampleEvents s ∧
    (machine .big).Run s sampleRest s' ∧ ∃ ms : List (List UInt8),
      (s'.conn false).sent = (s.conn false).sent ++ ms.flatMap encode := by
  have hview : ((machine .big).execute (new : ChatServer Bool) sampleEvents).bind (fun s =>
      ((machine .big).execute s sampleRest).map fun s' =>
        ((s.conn false).state_, (s'.conn false).state_)) = some (.kConnected, .kConnected) := by
    decide +kernel
  obtain ⟨s, hs, hview⟩ := Option.bind_eq_some_iff.1 hview
  obtain ⟨s', hs', hstates⟩ := Option.map_eq_some_iff.1 hview
  have hrun := Machine.run_of_execute _ hs
  have hrun' := Machine.run_of_execute _ hs'
  obtain ⟨ms, hms⟩ := same_messages hrun hrun'
  simp only [Prod.mk.injEq] at hstates
  exact ⟨s, s', hrun, hrun', ms, hms false hstates.1 hstates.2⟩

end ChatServer

end MuduoServer
