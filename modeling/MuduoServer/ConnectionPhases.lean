import MuduoServer.TcpConnection

/-!
The four states of a connection and what its channel and its callbacks are in
each of them. Reading, writing and sending keep an open connection as it is; a
close ends it, and then only the channel is left to be removed. Each operation
either keeps this or fails in a way that is no assertion about the state or the
channel.
-/
namespace MuduoServer

open FaultMachine

/-- What `connectionCallback_` has been told when the connection is in a state. -/
def StateE.callbacks : StateE → List Bool
  | .kConnecting => []
  | .kConnected => [true]
  | .kDisconnecting => [true]
  | .kDisconnected => [true, false]

/-- The moves of the state: kConnecting, kConnected, maybe kDisconnecting, and
kDisconnected. -/
inductive StateE.Edge : StateE → StateE → Prop
  | established : Edge .kConnecting .kConnected
  | shutdown : Edge .kConnected .kDisconnecting
  | closed : Edge .kConnected .kDisconnected
  | ended : Edge .kDisconnecting .kDisconnected

def Notice.connected? : Notice → Option Bool
  | .connectionCallback b => some b
  | _ => none

/-- Callbacks that do not tell about the life of the connection. -/
def Notice.quiet : Notice → Bool
  | .connectionCallback _ => false
  | .closeCallback => false
  | _ => true

theorem filterMap_connected?_of_quiet {ns : List Notice} (h : ∀ n ∈ ns, n.quiet) :
    ns.filterMap Notice.connected? = [] := by
  apply List.filterMap_eq_nil_iff.mpr
  intro n hn
  have hq := h n hn
  cases n <;> simp [Notice.quiet, Notice.connected?] at hq ⊢

theorem not_mem_of_quiet {ns : List Notice} (h : ∀ n ∈ ns, n.quiet) : .closeCallback ∉ ns := by
  intro hmem
  have hq := h _ hmem
  simp [Notice.quiet] at hq

namespace TcpConnection

def connectionCallbacks (c : TcpConnection) : List Bool := c.notices.filterMap Notice.connected?

def closeCallbacks (c : TcpConnection) : ℕ := c.notices.count .closeCallback

def Open (c : TcpConnection) : Prop := c.state_ = .kConnected ∨ c.state_ = .kDisconnecting

/-- The assertions on the state and on the channel. -/
def Fault.asserted : Fault → Bool
  | .channel _ => true
  | .notConnecting => true
  | .notConnected => true
  | _ => false

def Fault.Other (f : Fault) : Prop := f.asserted = false

/-- What holds of a connection in its state; `gone` says that `connectDestroyed`
has run. -/
structure Standing (c : TcpConnection) (gone : Prop) : Prop where
  callbacks : c.connectionCallbacks = c.state_.callbacks
  closes : c.closeCallbacks ≤ if c.state_ = .kDisconnected then 1 else 0
  unset : c.state_ = .kConnecting → c.channel_ = Channel.new
  watched : c.Open → c.channel_.events_ \ Channel.kWriteEvent = Channel.kReadEvent
  silent : c.state_ = .kDisconnected → c.channel_.isNoneEvent
  added : c.channel_.added = true ↔ c.state_ ≠ .kConnecting ∧ ¬ gone
  ended : gone → c.state_ = .kDisconnected

/-- What reading, writing and sending leave as it was. -/
structure Keeps (c c' : TcpConnection) : Prop where
  state : c'.state_ = c.state_
  added : c.channel_.added → c'.channel_.added
  watched : c'.channel_.events_ \ Channel.kWriteEvent = c.channel_.events_ \ Channel.kWriteEvent
  quiet : ∃ ns, c'.notices = c.notices ++ ns ∧ ∀ n ∈ ns, n.quiet

/-- The end of an open connection by `handleClose`. -/
structure Closes (c c' : TcpConnection) : Prop where
  state : c'.state_ = .kDisconnected
  channel : c'.channel_ = { events_ := Channel.kNoneEvent, added := true }
  notices : ∃ ns, c'.notices = c.notices ++ ns ∧ ns.filterMap Notice.connected? = [false] ∧
    ns.count .closeCallback = 1

/-- A poll result with which the peer ends the connection. -/
def Ends (revents : Finset Poll) (r : Buffer.ReadResult) : Prop :=
  (.POLLHUP ∈ revents ∧ .POLLIN ∉ revents) ∨
    ((.POLLIN ∈ revents ∨ .POLLPRI ∈ revents ∨ .POLLRDHUP ∈ revents) ∧ r.n = 0)

instance (revents : Finset Poll) (r : Buffer.ReadResult) : Decidable (Ends revents r) :=
  inferInstanceAs (Decidable (_ ∨ _))

variable {c c' c'' : TcpConnection} {gone : Prop}

theorem new_standing (writeComplete highWater : Bool) (highWaterMark : ℕ) :
    (new writeComplete highWater highWaterMark).Standing False where
  callbacks := rfl
  closes := by simp [new, closeCallbacks]
  unset := fun _ => rfl
  watched := fun h => by simp [new, Open] at h
  silent := fun h => by simp [new] at h
  added := by simp [new, Channel.new]
  ended := False.elim

section Keeps

theorem Keeps.of_eq {ns : List Notice} (hstate : c'.state_ = c.state_)
    (hchannel : c'.channel_ = c.channel_) (hnotices : c'.notices = c.notices ++ ns)
    (hquiet : ∀ n ∈ ns, n.quiet) : Keeps c c' where
  state := hstate
  added := by rw [hchannel]; exact id
  watched := by rw [hchannel]
  quiet := ⟨ns, hnotices, hquiet⟩

theorem Keeps.refl (c : TcpConnection) : Keeps c c :=
  Keeps.of_eq rfl rfl (List.append_nil _).symm (by simp)

theorem Keeps.trans (h₁ : Keeps c c') (h₂ : Keeps c' c'') : Keeps c c'' := by
  obtain ⟨ns₁, hn₁, hq₁⟩ := h₁.quiet
  obtain ⟨ns₂, hn₂, hq₂⟩ := h₂.quiet
  refine ⟨h₂.state.trans h₁.state, fun h => h₂.added (h₁.added h), h₂.watched.trans h₁.watched,
    ns₁ ++ ns₂, ?_, ?_⟩
  · rw [hn₂, hn₁, List.append_assoc]
  · intro n hn
    rcases List.mem_append.mp hn with h | h
    · exact hq₁ n h
    · exact hq₂ n h

theorem keeps_notify {n : Notice} (h : n.quiet) : Keeps c (c.notify n) := by
  refine Keeps.of_eq rfl rfl rfl ?_
  intro m hm
  rwa [List.mem_singleton.mp hm]

theorem keeps_noteWriteComplete (c : TcpConnection) : Keeps c c.noteWriteComplete := by
  unfold noteWriteComplete
  split
  · exact keeps_notify rfl
  · exact Keeps.refl c

theorem keeps_noteHighWaterMark (c : TcpConnection) (n : ℕ) : Keeps c (c.noteHighWaterMark n) := by
  unfold noteHighWaterMark
  simp only
  split
  · exact keeps_notify rfl
  · exact Keeps.refl c

theorem keeps_writeDirectly (c : TcpConnection) (data : List UInt8) (w : WriteResult) :
    Keeps c (c.writeDirectly data w).1 := by
  have hsocket : Keeps c { c with socket_ := c.socket_.write data w } :=
    Keeps.of_eq rfl rfl (List.append_nil _).symm (by simp)
  unfold writeDirectly
  cases w with
  | wrote n =>
    simp only
    split
    · exact hsocket.trans (keeps_noteWriteComplete _)
    · exact hsocket
  | failed errno => exact hsocket

theorem keeps_enableWriting (c : TcpConnection) :
    Keeps c { c with channel_ := c.channel_.enableWriting } where
  state := rfl
  added := fun _ => rfl
  watched := Finset.union_sdiff_right _ _
  quiet := ⟨[], (List.append_nil _).symm, by simp⟩

theorem keeps_disableWriting (c : TcpConnection) :
    Keeps c { c with channel_ := c.channel_.disableWriting } where
  state := rfl
  added := fun _ => rfl
  watched := by simp [Channel.disableWriting, Channel.update]
  quiet := ⟨[], (List.append_nil _).symm, by simp⟩

theorem keeps_shutdownInLoop (c : TcpConnection) : Keeps c c.shutdownInLoop := by
  unfold shutdownInLoop
  split
  · exact Keeps.refl c
  · exact Keeps.of_eq rfl rfl (List.append_nil _).symm (by simp)

/-- A fault of a buffer is none of the assertions. -/
theorem yields_buffer {α : Type} (x : Except Buffer.Fault α) :
    Yields Fault.Other (fun _ => True) (x.mapError .buffer) := by
  cases x with
  | ok a => exact trivial
  | error e => exact rfl

theorem keeps_appendRemaining (c : TcpConnection) (rest : List UInt8) :
    Yields Fault.Other (Keeps c) (c.appendRemaining rest) := by
  unfold appendRemaining
  have hnote := keeps_noteHighWaterMark c rest.length
  refine (yields_buffer _).bind ?_
  intro b _
  have hbuf : Keeps c { c.noteHighWaterMark rest.length with outputBuffer_ := b } :=
    hnote.trans (Keeps.of_eq rfl rfl (List.append_nil _).symm (by simp))
  simp only
  split
  · exact yields_pure hbuf
  · exact yields_pure (hbuf.trans (keeps_enableWriting _))

theorem keeps_sendInLoop (c : TcpConnection) (data : List UInt8) (w : WriteResult) :
    Yields Fault.Other (Keeps c) (c.sendInLoop data w) := by
  unfold sendInLoop
  split
  · exact yields_pure (Keeps.refl c)
  · generalize hd : (if ¬ c.channel_.isWriting ∧ c.outputBuffer_.readableBytes = 0 then
      c.writeDirectly data w else (c, 0, false)) = x
    have hkeeps : Keeps c x.1 := by
      rw [← hd]
      split
      · exact keeps_writeDirectly c data w
      · exact Keeps.refl c
    refine Yields.bind (P := fun _ => True) (yields_check (fun _ => rfl) (fun _ => trivial)) ?_
    intro _ _
    split
    · exact (keeps_appendRemaining x.1 _).mono (fun _ => id) (fun _ => hkeeps.trans)
    · exact yields_pure hkeeps

theorem keeps_handleWrite (c : TcpConnection) (w : WriteResult) :
    Yields Fault.Other (Keeps c) (c.handleWrite w) := by
  unfold handleWrite
  split
  swap
  · exact yields_pure (Keeps.refl c)
  have hsocket : Keeps c { c with socket_ := c.socket_.write c.outputBuffer_.readable w } :=
    Keeps.of_eq rfl rfl (List.append_nil _).symm (by simp)
  cases w with
  | failed errno => exact yields_pure hsocket
  | wrote n =>
  cases n with
  | zero => exact yields_pure hsocket
  | succ n =>
  refine (yields_buffer _).bind ?_
  intro b _
  have hbuf : Keeps c { c with
      socket_ := c.socket_.write c.outputBuffer_.readable (.wrote (n + 1))
      outputBuffer_ := b } := Keeps.of_eq rfl rfl (List.append_nil _).symm (by simp)
  have hnote := (hbuf.trans (keeps_disableWriting _)).trans (keeps_noteWriteComplete _)
  simp only
  split
  · split
    · exact yields_pure (hnote.trans (keeps_shutdownInLoop _))
    · exact yields_pure hnote
  · exact yields_pure hbuf

end Keeps

section Closes

theorem Keeps.closes (h₁ : Keeps c c') (h₂ : Closes c' c'') : Closes c c'' := by
  obtain ⟨ns₁, hn₁, hq₁⟩ := h₁.quiet
  obtain ⟨ns₂, hn₂, hcb, hclose⟩ := h₂.notices
  refine ⟨h₂.state, h₂.channel, ns₁ ++ ns₂, ?_, ?_, ?_⟩
  · rw [hn₂, hn₁, List.append_assoc]
  · rw [List.filterMap_append, filterMap_connected?_of_quiet hq₁, hcb, List.nil_append]
  · rw [List.count_append, List.count_eq_zero_of_not_mem (not_mem_of_quiet hq₁), hclose]

theorem closes_handleClose (h : c.Open) : Yields Fault.Other (Closes c) c.handleClose := by
  have hok := handleClose_eq_ok.mpr ⟨h, rfl⟩
  rw [hok]
  exact ⟨rfl, rfl, [.connectionCallback false, .closeCallback], by simp, rfl, rfl⟩

theorem handleRead_settles (h : c.Open) (r : Buffer.ReadResult) :
    Yields Fault.Other (fun c' => Keeps c c' ∨ r.n = 0 ∧ Closes c c') (c.handleRead r) := by
  unfold handleRead
  refine (yields_buffer _).bind ?_
  intro b _
  have hbuf : Keeps c { c with inputBuffer_ := b } :=
    Keeps.of_eq rfl rfl (List.append_nil _).symm (by simp)
  simp only
  split
  · exact yields_pure (Or.inl (hbuf.trans (keeps_notify rfl)))
  · split
    · rename_i hn
      have hclose : Yields Fault.Other _ ({ c with inputBuffer_ := b } : TcpConnection).handleClose :=
        closes_handleClose h
      exact hclose.mono (fun _ => id) (fun _ hc => Or.inr ⟨hn, hbuf.closes hc⟩)
    · exact yields_pure (Or.inl hbuf)

/-- A closed connection has nothing to write. -/
theorem Closes.handleWrite (h : Closes c c') (w : WriteResult) : c'.handleWrite w = .ok c' := by
  have hnot : ¬ c'.channel_.isWriting := by
    rw [h.channel, Channel.isWriting_iff]
    simp [Channel.kNoneEvent]
  unfold TcpConnection.handleWrite
  rw [if_neg hnot]
  rfl

end Closes

section Standing

theorem Standing.open_of_reports {revents : Finset Poll} (h : c.Standing gone)
    (hrep : c.channel_.Reports revents) : c.Open := by
  obtain ⟨hadded, hsome, -⟩ := hrep
  have hstate := h.added.mp hadded
  cases hc : c.state_ with
  | kConnecting => exact absurd hc hstate.1
  | kConnected => exact Or.inl hc
  | kDisconnecting => exact Or.inr hc
  | kDisconnected => exact absurd (h.silent hc) hsome

/-- `POLLRDHUP` is not watched. -/
theorem Standing.not_rdhup {revents : Finset Poll} (h : c.Standing gone)
    (hrep : c.channel_.Reports revents) : Poll.POLLRDHUP ∉ revents := by
  intro hmem
  have hwatched := h.watched (h.open_of_reports hrep)
  have hevents := hrep.2.2 hmem
  simp only [Finset.mem_union, Finset.mem_insert, Finset.mem_singleton, reduceCtorEq, or_false]
    at hevents
  have hin : Poll.POLLRDHUP ∈ c.channel_.events_ \ Channel.kWriteEvent := by
    simp [hevents, Channel.kWriteEvent]
  rw [hwatched] at hin
  simp [Channel.kReadEvent] at hin

/-- A poll result leaves the connection open or closes it, and no assertion of it
fails. -/
theorem Standing.handleEvent {revents : Finset Poll} (h : c.Standing gone)
    (hrep : c.channel_.Reports revents)
    (hprio : Poll.POLLPRI ∈ revents → Poll.POLLHUP ∈ revents → Poll.POLLIN ∈ revents)
    (r : Buffer.ReadResult) (w : WriteResult) :
    Yields Fault.Other (fun c' => Keeps c c' ∨ Ends revents r ∧ Closes c c')
      (c.handleEvent revents r w) := by
  have hopen := h.open_of_reports hrep
  have hrdhup := h.not_rdhup hrep
  have hwrite : ∀ c', Keeps c c' ∨ Ends revents r ∧ Closes c c' →
      Yields Fault.Other (fun c' => Keeps c c' ∨ Ends revents r ∧ Closes c c')
        (Channel.callIf (Poll.POLLOUT ∈ revents) (fun c => c.handleWrite w) c') := by
    intro c' hc'
    unfold Channel.callIf
    split
    · rcases hc' with hk | ⟨hends, hc⟩
      · exact (keeps_handleWrite c' w).mono (fun _ => id) (fun _ hk' => Or.inl (hk.trans hk'))
      · simp only [hc.handleWrite]
        exact yields_ok (Or.inr ⟨hends, hc⟩)
    · exact yields_pure hc'
  unfold TcpConnection.handleEvent Channel.handleEventWithGuard
  simp only
  by_cases hhup : Poll.POLLHUP ∈ revents ∧ Poll.POLLIN ∉ revents
  · -- nothing is read after the close, for then neither POLLIN nor POLLPRI is reported
    have hpri : Poll.POLLPRI ∉ revents := fun hp => hhup.2 (hprio hp hhup.1)
    refine Yields.bind (P := Closes c) ?_ ?_
    · rw [Channel.callIf, if_pos hhup]
      exact closes_handleClose hopen
    intro c₁ hc₁
    refine Yields.bind (P := Closes c) ?_ ?_
    · unfold Channel.callIf
      split
      · exact yields_pure hc₁
      · exact yields_pure hc₁
    intro c₂ hc₂
    refine Yields.bind (P := Closes c) ?_ ?_
    · rw [Channel.callIf, if_neg (by simp [hhup.2, hpri, hrdhup])]
      exact yields_pure hc₂
    intro c₃ hc₃
    exact hwrite c₃ (Or.inr ⟨Or.inl hhup, hc₃⟩)
  · refine Yields.bind (P := Keeps c) ?_ ?_
    · rw [Channel.callIf, if_neg hhup]
      exact yields_pure (Keeps.refl c)
    intro c₁ hk₁
    refine Yields.bind (P := Keeps c) ?_ ?_
    · unfold Channel.callIf
      split
      · exact yields_pure hk₁
      · exact yields_pure hk₁
    intro c₂ hk₂
    refine Yields.bind ?_ hwrite
    unfold Channel.callIf
    split
    · rename_i hread
      have hopen₂ : c₂.Open := by
        unfold Open
        rw [hk₂.state]
        exact hopen
      refine (handleRead_settles hopen₂ r).mono (fun _ => id) ?_
      intro c₃ hc₃
      rcases hc₃ with hk | ⟨hn, hc⟩
      · exact Or.inl (hk₂.trans hk)
      · exact Or.inr ⟨Or.inr ⟨hread, hn⟩, hk₂.closes hc⟩
    · exact yields_pure (Or.inl hk₂)

theorem Standing.of_keeps (h : c.Standing gone) (hopen : c.Open) (hk : Keeps c c') :
    c'.Standing gone := by
  obtain ⟨ns, hn, hq⟩ := hk.quiet
  have hstate := hk.state
  have hne : c.state_ ≠ .kConnecting ∧ c.state_ ≠ .kDisconnected := by
    rcases hopen with ho | ho <;> simp [ho]
  refine ⟨?_, ?_, ?_, ?_, ?_, ?_, ?_⟩
  · rw [hstate, ← h.callbacks, connectionCallbacks, hn, List.filterMap_append,
      filterMap_connected?_of_quiet hq, List.append_nil]
    rfl
  · rw [hstate, closeCallbacks, hn, List.count_append,
      List.count_eq_zero_of_not_mem (not_mem_of_quiet hq)]
    exact h.closes
  · exact fun hc => absurd (hstate.symm.trans hc) hne.1
  · exact fun _ => hk.watched.trans (h.watched hopen)
  · exact fun hc => absurd (hstate.symm.trans hc) hne.2
  · have hadded := h.added
    rw [hstate]
    constructor
    · intro _
      refine ⟨hne.1, ?_⟩
      exact fun hg => hne.2 (h.ended hg)
    · intro hc
      exact hk.added (hadded.mpr hc)
  · intro hg
    rw [hstate]
    exact h.ended hg

theorem Standing.of_closes (h : c.Standing gone) (hopen : c.Open) (hc : Closes c c') :
    c'.Standing gone := by
  obtain ⟨ns, hn, hcb, hclose⟩ := hc.notices
  have hstate : c.state_.callbacks = [true] ∧ c.state_ ≠ .kDisconnected := by
    rcases hopen with ho | ho <;> simp [ho, StateE.callbacks]
  have hnone : c.closeCallbacks = 0 := by
    have hle := h.closes
    rw [if_neg hstate.2] at hle
    omega
  refine ⟨?_, ?_, ?_, ?_, ?_, ?_, ?_⟩
  · have hold := h.callbacks
    unfold connectionCallbacks at hold ⊢
    rw [hn, List.filterMap_append, hold, hcb, hc.state, hstate.1]
    rfl
  · unfold closeCallbacks at hnone ⊢
    rw [hn, List.count_append, hnone, hclose, if_pos hc.state]
  · exact fun hk => by simp [hc.state] at hk
  · exact fun ho => by simp [Open, hc.state] at ho
  · intro _
    rw [hc.channel]
    rfl
  · rw [hc.channel, hc.state]
    have hg : ¬ gone := fun hg => hstate.2 (h.ended hg)
    simp [hg]
  · exact fun _ => hc.state

theorem Standing.connectEstablished (h : c.Standing gone) (hstate : c.state_ = .kConnecting) :
    Yields Fault.Other (fun c' => c'.Standing gone ∧ c'.state_ = .kConnected)
      c.connectEstablished := by
  have hok := connectEstablished_eq_ok.mpr ⟨hstate, rfl⟩
  rw [hok]
  have hclose := h.closes
  have hcb := h.callbacks
  have hg : ¬ gone := by
    intro hg
    have hend := h.ended hg
    rw [hstate] at hend
    cases hend
  rw [hstate] at hcb
  refine ⟨⟨?_, ?_, ?_, ?_, ?_, ?_, ?_⟩, rfl⟩
  · unfold connectionCallbacks at hcb ⊢
    simp only [List.filterMap_append, hcb]
    rfl
  · unfold closeCallbacks at hclose ⊢
    simpa [hstate] using hclose
  · exact fun hk => by simp at hk
  · intro _
    rw [h.unset hstate]
    rfl
  · exact fun hk => by simp at hk
  · simp [Channel.enableReading, Channel.update, hg]
  · exact fun hgone => absurd hgone hg

/-- `connectDestroyed` fails just in `kDisconnecting`, where the channel is still
watched. -/
theorem Standing.connectDestroyed (h : c.Standing gone) (hgone : ¬ gone)
    (hstate : c.state_ ≠ .kConnecting) :
    Yields (fun f => f.Other ∨ c.state_ = .kDisconnecting)
      (fun c' => c'.Standing True ∧ c'.state_ = .kDisconnected) c.connectDestroyed := by
  have hadded : c.channel_.added := h.added.mpr ⟨hstate, hgone⟩
  have hclose := h.closes
  have hcb := h.callbacks
  unfold connectionCallbacks at hcb
  unfold closeCallbacks at hclose
  cases hc : c.state_ with
  | kConnecting => exact absurd hc hstate
  | kConnected =>
    rw [connectDestroyed_of_connected hc]
    rw [hc] at hcb hclose
    refine ⟨⟨?_, ?_, ?_, ?_, ?_, ?_, ?_⟩, rfl⟩
    · unfold connectionCallbacks
      simp only [List.filterMap_append, hcb]
      rfl
    · have hzero : c.notices.count .closeCallback = 0 := by simpa using hclose
      simp [closeCallbacks, hzero]
    · exact fun hk => by simp at hk
    · exact fun ho => by simp [Open] at ho
    · exact fun _ => rfl
    · simp
    · exact fun _ => rfl
  | kDisconnecting =>
    cases hd : c.connectDestroyed with
    | ok c' =>
      obtain ⟨hnone, -, -⟩ := (connectDestroyed_of_ne (by simp [hc])).mp hd
      have hin : Poll.POLLIN ∈ Channel.kReadEvent := by simp [Channel.kReadEvent]
      rw [← h.watched (Or.inr hc), hnone] at hin
      simp [Channel.kNoneEvent] at hin
    | error f => exact Or.inr rfl
  | kDisconnected =>
    have hok := (connectDestroyed_of_ne (c := c) (by simp [hc])).mpr ⟨h.silent hc, hadded, rfl⟩
    rw [hok]
    rw [hc] at hcb hclose
    refine ⟨⟨?_, ?_, ?_, ?_, ?_, ?_, ?_⟩, hc⟩
    · unfold connectionCallbacks
      simp only [hcb, hc]
    · simpa [closeCallbacks, hc] using hclose
    · exact fun hk => by simp [hc] at hk
    · exact fun ho => by simp [Open, hc] at ho
    · exact fun _ => h.silent hc
    · simp
    · exact fun _ => hc

theorem Standing.congr (h : c.Standing gone) (hstate : c'.state_ = c.state_)
    (hchannel : c'.channel_ = c.channel_) (hnotices : c'.notices = c.notices) :
    c'.Standing gone := by
  obtain ⟨h₁, h₂, h₃, h₄, h₅, h₆, h₇⟩ := h
  refine ⟨?_, ?_, ?_, ?_, ?_, ?_, ?_⟩
  · rw [connectionCallbacks, hnotices, hstate]
    exact h₁
  · rw [closeCallbacks, hnotices, hstate]
    exact h₂
  · rwa [hstate, hchannel]
  · rwa [Open, hstate, hchannel]
  · rwa [hstate, hchannel]
  · rwa [hstate, hchannel]
  · rwa [hstate]

theorem Standing.shutdown (h : c.Standing gone) (hs : c.shutdown = some c') :
    c'.Standing gone ∧ c.state_ = .kConnected ∧ c'.state_ = .kDisconnecting := by
  unfold TcpConnection.shutdown at hs
  split at hs
  swap
  · cases hs
  rename_i hc
  obtain rfl := Option.some.inj hs
  obtain ⟨h₁, h₂, h₃, h₄, h₅, h₆, h₇⟩ := h
  rw [hc] at h₁ h₂ h₆ h₇
  refine ⟨⟨h₁, h₂, ?_, ?_, ?_, ?_, ?_⟩, hc, rfl⟩
  · exact fun hk => by simp [setState] at hk
  · exact fun _ => h₄ (Or.inl hc)
  · exact fun hk => by simp [setState] at hk
  · simpa [setState] using h₆
  · exact fun hg => by simpa using h₇ hg

theorem Standing.shutdownInLoop (h : c.Standing gone) :
    c.shutdownInLoop.Standing gone ∧ c.shutdownInLoop.state_ = c.state_ := by
  unfold TcpConnection.shutdownInLoop
  split
  · exact ⟨h, rfl⟩
  · exact ⟨h.congr rfl rfl rfl, rfl⟩

theorem open_of_ne (hne : c.state_ ≠ .kConnecting) (hnd : c.state_ ≠ .kDisconnected) : c.Open := by
  unfold Open
  cases hc : c.state_ <;> simp [hc] at hne hnd ⊢

theorem Standing.sendInLoop (h : c.Standing gone) (hne : c.state_ ≠ .kConnecting)
    (data : List UInt8) (w : WriteResult) :
    Yields Fault.Other (fun c' => c'.Standing gone ∧ c'.state_ = c.state_)
      (c.sendInLoop data w) := by
  by_cases hc : c.state_ = .kDisconnected
  · unfold TcpConnection.sendInLoop
    rw [if_pos hc]
    exact yields_pure ⟨h, rfl⟩
  · refine (keeps_sendInLoop c data w).mono (fun _ => id) ?_
    intro c' hk
    exact ⟨h.of_keeps (open_of_ne hne hc) hk, hk.state⟩

/-- The close callback is called just when the poll result ends the connection. -/
theorem Standing.afterEvent (h : c.Standing gone) (hopen : c.Open) {p : Prop}
    (hs : Keeps c c' ∨ p ∧ Closes c c') :
    c'.Standing gone ∧
      (c'.state_ = c.state_ ∧ .closeCallback ∉ c'.notices.drop c.notices.length ∨
        p ∧ c'.state_ = .kDisconnected ∧
          .closeCallback ∈ c'.notices.drop c.notices.length) := by
  rcases hs with hk | ⟨hp, hc⟩
  · obtain ⟨ns, hn, hq⟩ := hk.quiet
    refine ⟨h.of_keeps hopen hk, Or.inl ⟨hk.state, ?_⟩⟩
    rw [hn, List.drop_left]
    exact not_mem_of_quiet hq
  · obtain ⟨ns, hn, -, hclose⟩ := hc.notices
    refine ⟨h.of_closes hopen hc, Or.inr ⟨hp, hc.state, ?_⟩⟩
    rw [hn, List.drop_left]
    apply List.count_pos_iff.mp
    omega

end Standing

end TcpConnection

end MuduoServer
