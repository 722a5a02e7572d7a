import MuduoServer.FaultMachine

/-!
`Acceptor` with the descriptors of its process. When no descriptor is left, `handleRead`
gives up the idle one to take a connection and close it. The four system calls for this are
separate steps, because other threads open and close descriptors in between, and each of them
may find the table as they have left it.
-/
namespace MuduoServer

open FaultMachine FaultMachine.Machine

/-- Who has opened a descriptor and is to close it. -/
inductive Owner (C : Type)
  | acceptSocket
  | idle
  | connection (c : C)
  | other
  deriving DecidableEq

/-- The errors that `sockets::accept` expects, and the others, which abort. -/
inductive AcceptErrno
  | EAGAIN
  | ECONNABORTED
  | EINTR
  | EPROTO
  | EPERM
  | EMFILE
  | unexpected
  deriving DecidableEq

/-- A descriptor, or -1 with an error. -/
inductive AcceptResult
  | ok (connfd : ℕ)
  | failed (errno : AcceptErrno)
  deriving DecidableEq

/-- What has become of a connection: it was handed to the callback, closed by the acceptor,
or gone before it could be accepted. -/
inductive Fate
  | handed (connfd : ℕ)
  | closed
  | aborted
  deriving DecidableEq

/-- Where `handleRead` is after an `accept` that failed with `EMFILE`. -/
inductive AcceptorPc
  | ready
  | tableFull
  | idleClosed
  | accepted
  | acceptedClosed
  | destroyed
  deriving DecidableEq

/-- The acceptor, the open descriptors of the process, and the connections that wait. -/
structure Acceptor (C : Type) where
  acceptSocket_ : ℕ
  newConnectionCallback_ : Bool
  listenning_ : Bool
  idleFd_ : Option ℕ
  pc : AcceptorPc
  open_ : ℕ → Option (Owner C)
  backlog : List C
  fates : List (C × Fate)

inductive AcceptorStep (C : Type)
  | listen
  | accept (r : AcceptResult)
  | closeIdle
  | acceptIdle (r : AcceptResult)
  | closeAccepted
  | openIdle (fd : Option ℕ)
  | destroy
  | arrive (c : C)
  | openOther (fd : ℕ)
  | closeOther (fd : ℕ)
  | closeConnection (fd : ℕ)

namespace Acceptor

inductive Fault
  | aborts
  | closesForeign
  deriving DecidableEq

variable {C : Type} (limit : ℕ)

/-- A descriptor that may be opened. -/
def Free (open_ : ℕ → Option (Owner C)) (fd : ℕ) : Prop := fd < limit ∧ open_ fd = none

def Full (open_ : ℕ → Option (Owner C)) : Prop := ∀ fd, fd < limit → open_ fd ≠ none

/-- After the constructor, with `/dev/null` open. -/
def new (acceptSocket_ idleFd_ : ℕ) (newConnectionCallback_ : Bool) : Acceptor C :=
  { acceptSocket_ := acceptSocket_
    newConnectionCallback_ := newConnectionCallback_
    listenning_ := false
    idleFd_ := some idleFd_
    pc := .ready
    open_ := Function.update (Function.update (fun _ => none) acceptSocket_ (some .acceptSocket))
      idleFd_ (some .idle)
    backlog := []
    fates := [] }

/-- The connection at the head of the queue leaves it. -/
def take (s : Acceptor C) (fate : Fate) : Acceptor C :=
  match s.backlog with
  | [] => s
  | c :: rest => { s with backlog := rest, fates := s.fates ++ [(c, fate)] }

def setOwner (s : Acceptor C) (fd : ℕ) (o : Option (Owner C)) : Acceptor C :=
  { s with open_ := Function.update s.open_ fd o }

/-- `::close(idleFd_)`; -1 and a descriptor that is not open are refused by the system. -/
def closeIdleFd (s : Acceptor C) : Except Fault (Acceptor C) :=
  match s.idleFd_ with
  | none => .ok s
  | some fd =>
      match s.open_ fd with
      | none => .ok s
      | some .idle => .ok (s.setOwner fd none)
      | some _ => .error .closesForeign

/-- `newConnectionCallback_`, or the close of a connection that nobody wants. -/
def handOver (s : Acceptor C) (connfd : ℕ) : Acceptor C :=
  match s.backlog with
  | [] => s
  | c :: _ =>
      if s.newConnectionCallback_ then
        (s.setOwner connfd (some (.connection c))).take (.handed connfd)
      else s.take .closed

/-- The first `accept` of `handleRead` and what is done with its result. -/
def handleAccept (s : Acceptor C) : AcceptResult → Except Fault (Acceptor C)
  | .ok connfd => .ok (s.handOver connfd)
  | .failed .EMFILE => .ok { s with pc := .tableFull }
  | .failed .ECONNABORTED => .ok (s.take .aborted)
  | .failed .EPROTO => .ok (s.take .aborted)
  | .failed .EPERM => .ok (s.take .aborted)
  | .failed .EAGAIN => .ok s
  | .failed .EINTR => .ok s
  | .failed .unexpected => .error .aborts

/-- `idleFd_ = ::accept(...)`, which looks at no error. -/
def acceptIdle (s : Acceptor C) : AcceptResult → Acceptor C
  | .ok fd => ({ s with idleFd_ := some fd }.setOwner fd (some .idle)).take .closed
  | .failed .ECONNABORTED => { s with idleFd_ := none }.take .aborted
  | .failed .EPROTO => { s with idleFd_ := none }.take .aborted
  | .failed .EPERM => { s with idleFd_ := none }.take .aborted
  | .failed _ => { s with idleFd_ := none }

/-- `idleFd_ = ::open("/dev/null", O_RDONLY | O_CLOEXEC)`. -/
def openIdle (s : Acceptor C) : Option ℕ → Acceptor C
  | some fd => { s with idleFd_ := some fd, pc := .ready }.setOwner fd (some .idle)
  | none => { s with idleFd_ := none, pc := .ready }

def step (s : Acceptor C) : AcceptorStep C → Except Fault (Acceptor C)
  | .listen => .ok { s with listenning_ := true }
  | .accept r => s.handleAccept r
  | .closeIdle => do
      let s ← s.closeIdleFd
      pure { s with pc := .idleClosed }
  | .acceptIdle r => .ok { s.acceptIdle r with pc := .accepted }
  | .closeAccepted => do
      let s ← s.closeIdleFd
      pure { s with pc := .acceptedClosed }
  | .openIdle fd => .ok (s.openIdle fd)
  | .destroy => do
      let s ← s.closeIdleFd
      pure ({ s with pc := .destroyed, listenning_ := false }.setOwner s.acceptSocket_ none)
  | .arrive c => .ok { s with backlog := s.backlog ++ [c] }
  | .openOther fd => .ok (s.setOwner fd (some .other))
  | .closeOther fd => .ok (s.setOwner fd none)
  | .closeConnection fd => .ok (s.setOwner fd none)

/-- What the system may answer: a descriptor that is free for a connection that waits, and
`EMFILE` just when the table is full. -/
def Answers (s : Acceptor C) : AcceptResult → Prop
  | .ok fd => Free limit s.open_ fd ∧ s.backlog ≠ []
  | .failed .EMFILE => Full limit s.open_
  | .failed .EAGAIN => s.backlog = []
  | .failed _ => True

def Enabled (s : Acceptor C) : AcceptorStep C → Prop
  | .listen => s.pc = .ready
  | .accept r => s.pc = .ready ∧ s.listenning_ ∧ Answers limit s r
  | .closeIdle => s.pc = .tableFull
  | .acceptIdle r => s.pc = .idleClosed ∧ Answers limit s r
  | .closeAccepted => s.pc = .accepted
  | .openIdle (some fd) => s.pc = .acceptedClosed ∧ Free limit s.open_ fd
  | .openIdle none => s.pc = .acceptedClosed
  | .destroy => s.pc = .ready
  | .arrive _ => s.listenning_
  | .openOther fd => Free limit s.open_ fd
  | .closeOther fd => s.open_ fd = some .other
  | .closeConnection fd => ∃ c, s.open_ fd = some (.connection c)

def machine : Machine (Acceptor C) (AcceptorStep C) Fault where
  init s := ∃ sock idle cb, sock < limit ∧ idle < limit ∧ sock ≠ idle ∧ s = new sock idle cb
  enabled := Enabled limit
  step := step

/-- Between these steps `idleFd_` is a descriptor of the acceptor; at the others it is the
number of one that has been closed. -/
def AcceptorPc.HoldsIdle (pc : AcceptorPc) : Prop :=
  pc = .ready ∨ pc = .tableFull ∨ pc = .accepted

/-- The owner of `fd` fits to what the acceptor knows of its descriptors. -/
structure Fits (s : Acceptor C) (fd : ℕ) (o : Option (Owner C)) : Prop where
  idle : o = some .idle ↔ s.idleFd_ = some fd ∧ AcceptorPc.HoldsIdle s.pc
  socket : o = some .acceptSocket ↔ fd = s.acceptSocket_ ∧ s.pc ≠ .destroyed
  handed : ∀ c, o = some (.connection c) → (c, Fate.handed fd) ∈ s.fates

/-- The acceptor owns just the descriptors that it is to close. -/
def Owns (s : Acceptor C) : Prop := ∀ fd, Fits s fd (s.open_ fd)

variable {limit} {s s' : Acceptor C}

@[simp] theorem setOwner_self (s : Acceptor C) (fd : ℕ) (o : Option (Owner C)) :
    (s.setOwner fd o).open_ fd = o := Function.update_self ..

theorem setOwner_of_ne (s : Acceptor C) {fd fd' : ℕ} (o : Option (Owner C)) (h : fd' ≠ fd) :
    (s.setOwner fd o).open_ fd' = s.open_ fd' := Function.update_of_ne h ..

theorem take_eq (s : Acceptor C) (fate : Fate) :
    ∃ backlog new, s.take fate = { s with backlog := backlog, fates := s.fates ++ new } := by
  unfold take
  split
  · exact ⟨s.backlog, [], by rw [List.append_nil]⟩
  · exact ⟨_, _, rfl⟩

theorem Fits.take {fd : ℕ} {o : Option (Owner C)} (h : Fits s fd o) (fate : Fate) :
    Fits (s.take fate) fd o := by
  obtain ⟨backlog, new, heq⟩ := take_eq s fate
  rw [heq]
  exact ⟨h.idle, h.socket, fun c hc => List.mem_append_left new (h.handed c hc)⟩

theorem open_take (s : Acceptor C) (fate : Fate) : (s.take fate).open_ = s.open_ := by
  obtain ⟨backlog, new, heq⟩ := take_eq s fate
  rw [heq]

theorem Owns.take (h : Owns s) (fate : Fate) : Owns (s.take fate) := by
  intro fd
  rw [open_take]
  exact (h fd).take fate

/-- One descriptor changes hands, and the others keep theirs. -/
theorem owns_setOwner {fd : ℕ} {o : Option (Owner C)} (hself : Fits s fd o)
    (hothers : ∀ fd', fd' ≠ fd → Fits s fd' (s.open_ fd')) : Owns (s.setOwner fd o) := by
  intro fd'
  by_cases hne : fd' = fd
  · subst hne
    rw [setOwner_self]
    exact ⟨hself.idle, hself.socket, hself.handed⟩
  · rw [setOwner_of_ne s o hne]
    exact ⟨(hothers fd' hne).idle, (hothers fd' hne).socket, (hothers fd' hne).handed⟩

/-- The table without the descriptor that the acceptor keeps in reserve. -/
def withoutIdle (open_ : ℕ → Option (Owner C)) : ℕ → Option (Owner C) := fun fd =>
  match open_ fd with
  | some .idle => none
  | o => o

theorem withoutIdle_eq_some {open_ : ℕ → Option (Owner C)} {fd : ℕ} {o : Owner C} :
    withoutIdle open_ fd = some o ↔ open_ fd = some o ∧ o ≠ .idle := by
  unfold withoutIdle
  split
  · rename_i hidle
    simp only [hidle, reduceCtorEq, Option.some.injEq, false_iff, not_and, not_not]
    exact fun h => h.symm
  · rename_i o' hne
    constructor
    · intro h
      exact ⟨h, fun ho => hne (by rw [h, ho])⟩
    · exact fun h => h.1

theorem withoutIdle_of_ne {open_ : ℕ → Option (Owner C)} {fd : ℕ} (h : open_ fd ≠ some .idle) :
    withoutIdle open_ fd = open_ fd := by
  unfold withoutIdle
  split
  · rename_i hidle
    exact absurd hidle h
  · rfl

theorem withoutIdle_idem (open_ : ℕ → Option (Owner C)) :
    withoutIdle (withoutIdle open_) = withoutIdle open_ := by
  funext fd
  exact withoutIdle_of_ne fun hidle => (withoutIdle_eq_some.1 hidle).2 rfl

/-- Where it is closed, `idleFd_` is -1 or the one descriptor in reserve. -/
theorem Owns.closeIdleFd (h : Owns s) (hpc : AcceptorPc.HoldsIdle s.pc) :
    s.closeIdleFd = .ok { s with open_ := withoutIdle s.open_ } := by
  have hsame : ∀ fd, s.idleFd_ ≠ some fd → withoutIdle s.open_ fd = s.open_ fd := fun fd hne =>
    withoutIdle_of_ne fun hidle => hne ((h fd).idle.1 hidle).1
  unfold Acceptor.closeIdleFd
  split
  · rename_i hfd
    have htable : withoutIdle s.open_ = s.open_ := by
      funext fd
      exact hsame fd (by rw [hfd]; simp)
    rw [htable]
  · rename_i i hfd
    have hi : s.open_ i = some .idle := (h i).idle.2 ⟨hfd, hpc⟩
    have htable : withoutIdle s.open_ = Function.update s.open_ i none := by
      funext fd
      by_cases hne : fd = i
      · subst hne
        simp [withoutIdle, hi]
      · rw [Function.update_of_ne hne]
        exact hsame fd fun hc => hne (Option.some.inj (hfd ▸ hc)).symm
    simp only [hi, setOwner, htable]

/-- Nothing is in reserve after the close. -/
theorem Owns.close (h : Owns s) {pc : AcceptorPc} (hpc : ¬ AcceptorPc.HoldsIdle pc)
    (hlive : pc ≠ .destroyed ∧ s.pc ≠ .destroyed) :
    Owns { s with open_ := withoutIdle s.open_, pc := pc } := by
  intro fd
  refine ⟨?_, ?_, fun c hc => (h fd).handed c (withoutIdle_eq_some.1 hc).1⟩
  · exact iff_of_false (fun hc => (withoutIdle_eq_some.1 hc).2 rfl) fun hc => hpc hc.2
  · have hsocket := (h fd).socket
    simp only [withoutIdle_eq_some]
    tauto

/-- A descriptor that is none of the acceptor's changes hands. -/
theorem Owns.setOther (h : Owns s) {fd : ℕ} {o : Option (Owner C)}
    (hidle : s.open_ fd ≠ some .idle) (hsocket : s.open_ fd ≠ some .acceptSocket)
    (ho : o = none ∨ o = some .other) : Owns (s.setOwner fd o) := by
  apply owns_setOwner _ fun fd' _ => h fd'
  have hidle' := (not_congr (h fd).idle).1 hidle
  have hsocket' := (not_congr (h fd).socket).1 hsocket
  rcases ho with rfl | rfl
  · exact ⟨iff_of_false (by simp) hidle', iff_of_false (by simp) hsocket', fun c hc => by
      simp at hc⟩
  · exact ⟨iff_of_false (by simp) hidle', iff_of_false (by simp) hsocket', fun c hc => by
      simp at hc⟩

/-- The connection at the head of the queue gets a free descriptor. -/
theorem Owns.hand (h : Owns s) {fd : ℕ} (hfree : s.open_ fd = none) {c : C} {rest : List C}
    (hback : s.backlog = c :: rest) :
    Owns ((s.setOwner fd (some (.connection c))).take (.handed fd)) := by
  have htake : (s.setOwner fd (some (.connection c))).take (.handed fd) =
      (s.take (.handed fd)).setOwner fd (some (.connection c)) := by
    unfold Acceptor.take setOwner
    simp only [hback]
  have hidle := (not_congr (h fd).idle).1 (by rw [hfree]; simp)
  have hsocket := (not_congr (h fd).socket).1 (by rw [hfree]; simp)
  rw [htake]
  apply owns_setOwner
  · unfold Acceptor.take
    simp only [hback]
    refine ⟨iff_of_false (by simp) hidle, iff_of_false (by simp) hsocket, fun c' hc => ?_⟩
    have heq : c = c' := by simpa using hc
    subst heq
    exact List.mem_append_right _ (List.mem_singleton_self _)
  · intro fd' _
    exact h.take _ fd'

/-- A free descriptor becomes the one in reserve. -/
theorem Owns.reserve (h : Owns s) (hnone : ¬ AcceptorPc.HoldsIdle s.pc) {fd : ℕ}
    (hfree : s.open_ fd = none) {pc : AcceptorPc} (hpc : AcceptorPc.HoldsIdle pc)
    (hlive : s.pc ≠ .destroyed) :
    Owns ({ s with idleFd_ := some fd, pc := pc }.setOwner fd (some .idle)) := by
  have hpc' : pc ≠ .destroyed := by
    rcases hpc with rfl | rfl | rfl <;> simp
  have hsocket : fd ≠ s.acceptSocket_ := fun hc => by
    have hopen := (h fd).socket.2 ⟨hc, hlive⟩
    rw [hfree] at hopen
    simp at hopen
  apply owns_setOwner
  · exact ⟨iff_of_true rfl ⟨rfl, hpc⟩, iff_of_false (by simp) fun hc => hsocket hc.1, fun c hc => by
      simp at hc⟩
  · intro fd' hne
    have hold := h fd'
    refine ⟨iff_of_false (fun hc => hnone (hold.idle.1 hc).2) ?_, ?_, hold.handed⟩
    · exact fun hc => hne (Option.some.inj hc.1).symm
    · rw [hold.socket]
      exact and_congr_right' (iff_of_true hlive hpc')

/-- Nothing is put in reserve. -/
theorem Owns.unreserve (h : Owns s) (hnone : ¬ AcceptorPc.HoldsIdle s.pc) {pc : AcceptorPc}
    (hpc : pc ≠ .destroyed) (hlive : s.pc ≠ .destroyed) :
    Owns { s with idleFd_ := none, pc := pc } := by
  intro fd
  refine ⟨iff_of_false (fun hc => hnone ((h fd).idle.1 hc).2) (by simp), ?_, (h fd).handed⟩
  rw [(h fd).socket]
  exact and_congr_right' (iff_of_true hlive hpc)

theorem new_owns {sock idle : ℕ} (h : sock ≠ idle) (cb : Bool) :
    Owns (new sock idle cb : Acceptor C) := by
  intro fd
  have hidle : Acceptor.Fits (new sock idle cb : Acceptor C) idle (some .idle) :=
    ⟨iff_of_true rfl ⟨rfl, Or.inl rfl⟩, iff_of_false (by simp) fun hc => h hc.1.symm, fun c hc => by
      simp at hc⟩
  by_cases hfd : fd = idle
  · subst hfd
    rw [show (new sock fd cb : Acceptor C).open_ fd = some .idle from Function.update_self ..]
    exact hidle
  · have hne : ¬ (some idle = some fd) := fun hc => hfd (Option.some.inj hc).symm
    rw [show (new sock idle cb : Acceptor C).open_ fd =
      Function.update (fun _ => none) sock (some Owner.acceptSocket) fd from
        Function.update_of_ne hfd ..]
    by_cases hsock : fd = sock
    · subst hsock
      rw [Function.update_self]
      exact ⟨iff_of_false (by simp) fun hc => hne hc.1, iff_of_true rfl ⟨rfl, by simp [new]⟩,
        fun c hc => by simp at hc⟩
    · rw [Function.update_of_ne hsock]
      exact ⟨iff_of_false (by simp) fun hc => hne hc.1, iff_of_false (by simp) fun hc => hsock hc.1,
        fun c hc => by simp at hc⟩

/-- The result of `acceptIdle` that takes a free descriptor, and those that take none. -/
theorem acceptIdle_owns (h : Owns s) (hpc : s.pc = .idleClosed) {r : AcceptResult}
    (hr : Answers limit s r) : Owns { s.acceptIdle r with pc := .accepted } := by
  have hnone : ¬ AcceptorPc.HoldsIdle s.pc := by
    rw [hpc]
    simp [AcceptorPc.HoldsIdle]
  have hlive : s.pc ≠ .destroyed := by simp [hpc]
  have hlost : Owns { s with idleFd_ := none, pc := .accepted } :=
    h.unreserve hnone (by simp) hlive
  have haborted : Owns { { s with idleFd_ := none }.take .aborted with pc := .accepted } := by
    obtain ⟨backlog, new, heq⟩ := take_eq ({ s with idleFd_ := none } : Acceptor C) .aborted
    rw [heq]
    intro fd
    exact ⟨(hlost fd).idle, (hlost fd).socket, fun c hc =>
      List.mem_append_left new ((hlost fd).handed c hc)⟩
  cases r with
  | ok fd =>
    have hres : Owns ({ s with idleFd_ := some fd, pc := .accepted }.setOwner fd (some .idle)) :=
      h.reserve hnone hr.1.2 (Or.inr (Or.inr rfl)) hlive
    obtain ⟨backlog, new, heq⟩ :=
      take_eq (({ s with idleFd_ := some fd } : Acceptor C).setOwner fd (some .idle)) .closed
    simp only [acceptIdle, heq]
    intro fd'
    exact ⟨(hres fd').idle, (hres fd').socket, fun c hc =>
      List.mem_append_left new ((hres fd').handed c hc)⟩
  | failed errno =>
    cases errno with
    | EAGAIN | EINTR | EMFILE | unexpected => exact hlost
    | ECONNABORTED | EPROTO | EPERM => exact haborted

theorem handOver_owns (h : Owns s) {fd : ℕ} (hfree : s.open_ fd = none) :
    Owns (s.handOver fd) := by
  unfold handOver
  split
  · exact h
  · rename_i c rest hback
    split
    · exact h.hand hfree hback
    · exact h.take _

/-- `handleRead` goes on without a change of its descriptors. -/
theorem Owns.goOn (h : Owns s) {pc : AcceptorPc}
    (hpc : AcceptorPc.HoldsIdle pc ↔ AcceptorPc.HoldsIdle s.pc)
    (hlive : pc ≠ .destroyed ↔ s.pc ≠ .destroyed) : Owns { s with pc := pc } := fun fd =>
  ⟨(h fd).idle.trans (and_congr_right' hpc.symm), (h fd).socket.trans (and_congr_right' hlive.symm),
    (h fd).handed⟩

theorem handleAccept_owns (h : Owns s) (hpc : s.pc = .ready) {r : AcceptResult}
    (hr : Answers limit s r) : Yields (· = .aborts) Owns (s.handleAccept r) := by
  cases r with
  | ok fd => exact yields_ok (handOver_owns h hr.1.2)
  | failed errno =>
    cases errno with
    | EAGAIN | EINTR => exact yields_ok h
    | ECONNABORTED | EPROTO | EPERM => exact yields_ok (h.take _)
    | unexpected => exact rfl
    | EMFILE =>
      apply yields_ok
      exact h.goOn (by simp [AcceptorPc.HoldsIdle, hpc]) (by simp [hpc])

/-- The close of what is in reserve, and what comes after it. -/
theorem closeIdleFd_bind (h : Owns s) (hpc : AcceptorPc.HoldsIdle s.pc) {β : Type}
    (f : Acceptor C → Except Fault β) :
    (s.closeIdleFd >>= f) = f { s with open_ := withoutIdle s.open_ } := by
  rw [h.closeIdleFd hpc]
  rfl

/-- The destructor gives up both descriptors. -/
theorem Owns.destroy (h : Owns s) :
    Owns ({ s with open_ := withoutIdle s.open_, pc := .destroyed, listenning_ := false
      }.setOwner s.acceptSocket_ none) := by
  apply owns_setOwner
  · exact ⟨iff_of_false (by simp) fun hc => by simp [AcceptorPc.HoldsIdle] at hc,
      iff_of_false (by simp) fun hc => hc.2 rfl, fun c hc => by simp at hc⟩
  · intro fd hne
    refine ⟨iff_of_false ?_ fun hc => by simp [AcceptorPc.HoldsIdle] at hc,
      iff_of_false ?_ fun hc => hne hc.1, fun c hc => ?_⟩
    · exact fun hc => (withoutIdle_eq_some.1 hc).2 rfl
    · exact fun hc => hne ((h fd).socket.1 (withoutIdle_eq_some.1 hc).1).1
    · exact (h fd).handed c (withoutIdle_eq_some.1 hc).1

/-- Whatever other threads do, a step of the acceptor closes no descriptor of anybody else. -/
theorem step_owns (h : Owns s) {a : AcceptorStep C} (he : Enabled limit s a) :
    Yields (· = .aborts) Owns (step s a) := by
  cases a with
  | listen => exact yields_ok fun fd => ⟨(h fd).idle, (h fd).socket, (h fd).handed⟩
  | accept r => exact handleAccept_owns h he.1 he.2.2
  | closeIdle =>
    have hpc : s.pc = .tableFull := he
    rw [step, closeIdleFd_bind h (Or.inr (Or.inl hpc))]
    exact yields_pure (h.close (by simp [AcceptorPc.HoldsIdle]) (by simp [hpc]))
  | acceptIdle r => exact yields_ok (acceptIdle_owns h he.1 he.2)
  | closeAccepted =>
    have hpc : s.pc = .accepted := he
    rw [step, closeIdleFd_bind h (Or.inr (Or.inr hpc))]
    exact yields_pure (h.close (by simp [AcceptorPc.HoldsIdle]) (by simp [hpc]))
  | openIdle fd =>
    cases fd with
    | none =>
      have hpc : s.pc = .acceptedClosed := he
      exact yields_ok (h.unreserve (by simp [AcceptorPc.HoldsIdle, hpc]) (by simp) (by simp [hpc]))
    | some fd =>
      have hpc : s.pc = .acceptedClosed := he.1
      exact yields_ok (h.reserve (by simp [AcceptorPc.HoldsIdle, hpc]) he.2.2 (Or.inl rfl)
        (by simp [hpc]))
  | destroy =>
    have hpc : s.pc = .ready := he
    rw [step, closeIdleFd_bind h (Or.inl hpc)]
    exact yields_pure h.destroy
  | arrive c => exact yields_ok fun fd => ⟨(h fd).idle, (h fd).socket, (h fd).handed⟩
  | openOther fd =>
    have hfree : s.open_ fd = none := he.2
    exact yields_ok (h.setOther (by simp [hfree]) (by simp [hfree]) (Or.inr rfl))
  | closeOther fd =>
    have hfd : s.open_ fd = some .other := he
    exact yields_ok (h.setOther (by simp [hfd]) (by simp [hfd]) (Or.inl rfl))
  | closeConnection fd =>
    obtain ⟨c, hfd⟩ : ∃ c, s.open_ fd = some (.connection c) := he
    exact yields_ok (h.setOther (by simp [hfd]) (by simp [hfd]) (Or.inl rfl))

/-- The steps of `handleRead` and of the destructor. -/
def Own : AcceptorStep C → Prop
  | .accept _ | .closeIdle | .acceptIdle _ | .closeAccepted | .openIdle _ | .destroy => True
  | _ => False

/-- The descriptors that are none of the acceptor's keep their owners. -/
def Spares (open_ open' : ℕ → Option (Owner C)) : Prop :=
  ∀ fd o, o ≠ .idle → o ≠ .acceptSocket → open_ fd = some o → open' fd = some o

theorem spares_refl (open_ : ℕ → Option (Owner C)) : Spares open_ open_ := fun _ _ _ _ h => h

theorem spares_withoutIdle (open_ : ℕ → Option (Owner C)) : Spares open_ (withoutIdle open_) :=
  fun _ _ hidle _ h => withoutIdle_eq_some.2 ⟨h, hidle⟩

theorem spares_update {open_ : ℕ → Option (Owner C)} {fd : ℕ} {o : Option (Owner C)}
    (h : open_ fd = none ∨ open_ fd = some .acceptSocket) :
    Spares open_ (Function.update open_ fd o) := by
  intro fd' o' _ hsocket hfd'
  have hne : fd' ≠ fd := by
    intro heq
    subst heq
    rcases h with h | h
    · rw [h] at hfd'
      simp at hfd'
    · rw [h] at hfd'
      exact hsocket (Option.some.inj hfd').symm
  rw [Function.update_of_ne hne]
  exact hfd'

theorem spares_handOver {fd : ℕ} (hfree : s.open_ fd = none) :
    Spares s.open_ (s.handOver fd).open_ := by
  unfold handOver
  split
  · exact spares_refl _
  · split
    · rw [open_take]
      exact spares_update (Or.inl hfree)
    · rw [open_take]
      exact spares_refl _

theorem spares_acceptIdle {r : AcceptResult} (hr : Answers limit s r) :
    Spares s.open_ (s.acceptIdle r).open_ := by
  cases r with
  | ok fd =>
    rw [acceptIdle, open_take]
    exact spares_update (Or.inl hr.1.2)
  | failed errno =>
    cases errno with
    | EAGAIN | EINTR | EMFILE | unexpected => exact spares_refl _
    | ECONNABORTED | EPROTO | EPERM =>
      rw [acceptIdle, open_take]
      exact spares_refl _

theorem step_spares (h : Owns s) {a : AcceptorStep C} (hown : Own a) (he : Enabled limit s a)
    (hstep : step s a = .ok s') : Spares s.open_ s'.open_ := by
  have hclose : ∀ pc, AcceptorPc.HoldsIdle s.pc →
      (s.closeIdleFd >>= fun s => pure { s with pc := pc }) = Except.ok s' →
        Spares s.open_ s'.open_ := by
    intro pc hpc heq
    rw [closeIdleFd_bind h hpc, pure_eq_ok] at heq
    subst heq
    exact spares_withoutIdle _
  cases a with
  | listen | arrive | openOther | closeOther | closeConnection => exact hown.elim
  | accept r =>
    cases r with
    | ok fd =>
      obtain rfl : s.handOver fd = s' := Except.ok.inj hstep
      exact spares_handOver he.2.2.1.2
    | failed errno =>
      cases errno with
      | EAGAIN | EINTR | EMFILE =>
        obtain rfl := Except.ok.inj hstep
        exact spares_refl _
      | ECONNABORTED | EPROTO | EPERM =>
        obtain rfl : s.take .aborted = s' := Except.ok.inj hstep
        rw [open_take]
        exact spares_refl _
      | unexpected => cases hstep
  | closeIdle => exact hclose _ (Or.inr (Or.inl he)) hstep
  | acceptIdle r =>
    obtain rfl := Except.ok.inj hstep
    exact spares_acceptIdle he.2
  | closeAccepted => exact hclose _ (Or.inr (Or.inr he)) hstep
  | openIdle fd =>
    obtain rfl : s.openIdle fd = s' := Except.ok.inj hstep
    cases fd with
    | none => exact spares_refl _
    | some fd => exact spares_update (Or.inl he.2.2)
  | destroy =>
    have hpc : s.pc = .ready := he
    rw [step, closeIdleFd_bind h (Or.inl hpc), pure_eq_ok] at hstep
    subst hstep
    have hsocket := (h s.acceptSocket_).socket.2 ⟨rfl, by simp [hpc]⟩
    have hidle : withoutIdle s.open_ s.acceptSocket_ = some .acceptSocket :=
      withoutIdle_eq_some.2 ⟨hsocket, by simp⟩
    intro fd o ho hs hfd
    exact spares_update (Or.inr hidle) fd o ho hs (spares_withoutIdle _ fd o ho hs hfd)

/-- The connections that arrive with a step. -/
def arrival : AcceptorStep C → List C
  | .arrive c => [c]
  | _ => []

/-- Every connection that has arrived: first those that have met their fate, in their order. -/
def seen (s : Acceptor C) : List C := s.fates.map Prod.fst ++ s.backlog

theorem seen_take (s : Acceptor C) (fate : Fate) : (s.take fate).seen = s.seen := by
  unfold take
  split
  · rfl
  · rename_i c rest hback
    simp [seen, hback]

theorem seen_handOver (s : Acceptor C) (fd : ℕ) : (s.handOver fd).seen = s.seen := by
  unfold handOver
  split
  · rfl
  · split
    · exact seen_take _ _
    · exact seen_take _ _

theorem seen_acceptIdle (s : Acceptor C) (r : AcceptResult) : (s.acceptIdle r).seen = s.seen := by
  cases r with
  | ok fd => exact seen_take _ _
  | failed errno =>
    cases errno with
    | EAGAIN | EINTR | EMFILE | unexpected => rfl
    | ECONNABORTED | EPROTO | EPERM => exact seen_take _ _

theorem step_seen (h : Owns s) {a : AcceptorStep C} (he : Enabled limit s a)
    (hstep : step s a = .ok s') : s'.seen = s.seen ++ arrival a := by
  have hclose : ∀ pc, AcceptorPc.HoldsIdle s.pc →
      (s.closeIdleFd >>= fun s => pure { s with pc := pc }) = Except.ok s' →
        s'.seen = s.seen ++ [] := by
    intro pc hpc heq
    rw [closeIdleFd_bind h hpc, pure_eq_ok] at heq
    subst heq
    exact (List.append_nil _).symm
  cases a with
  | listen | openOther | closeOther | closeConnection =>
    obtain rfl := Except.ok.inj hstep
    exact (List.append_nil _).symm
  | arrive c =>
    obtain rfl := Except.ok.inj hstep
    simp only [seen, arrival, List.append_assoc]
  | accept r =>
    change s'.seen = s.seen ++ []
    rw [List.append_nil]
    cases r with
    | ok fd =>
      obtain rfl : s.handOver fd = s' := Except.ok.inj hstep
      exact seen_handOver s fd
    | failed errno =>
      cases errno with
      | EAGAIN | EINTR | EMFILE =>
        obtain rfl := Except.ok.inj hstep
        rfl
      | ECONNABORTED | EPROTO | EPERM =>
        obtain rfl : s.take .aborted = s' := Except.ok.inj hstep
        exact seen_take s _
      | unexpected => cases hstep
  | closeIdle =>
    exact hclose _ (Or.inr (Or.inl he)) hstep
  | acceptIdle r =>
    obtain rfl := Except.ok.inj hstep
    rw [← seen_acceptIdle s r]
    exact (List.append_nil _).symm
  | closeAccepted =>
    exact hclose _ (Or.inr (Or.inr he)) hstep
  | openIdle fd =>
    obtain rfl : s.openIdle fd = s' := Except.ok.inj hstep
    cases fd with
    | none => exact (List.append_nil _).symm
    | some fd => exact (List.append_nil _).symm
  | destroy =>
    rw [step, closeIdleFd_bind h (Or.inl he), pure_eq_ok] at hstep
    subst hstep
    exact (List.append_nil _).symm

theorem run_seen (h : Owns s) {as : List (AcceptorStep C)} (hr : (machine limit).Run s as s') :
    Owns s' ∧ s'.seen = s.seen ++ as.flatMap arrival := by
  induction hr with
  | nil => exact ⟨h, (List.append_nil _).symm⟩
  | snoc _ he hstep ih =>
    obtain ⟨howns, hseen⟩ := ih
    refine ⟨(step_owns howns he).of_ok hstep, ?_⟩
    rw [step_seen howns he hstep, hseen, List.flatMap_append, List.append_assoc,
      List.flatMap_singleton]

/-- In every run, whatever other threads open and close between the system calls: the acceptor
never closes a descriptor of anybody else, and those keep their owners over each of its steps;
`idleFd_` is what it keeps in reserve, and nothing is left after the destructor; the connections
meet their fates once and in their order. -/
theorem descriptors_kept {s₀ : Acceptor C} {as : List (AcceptorStep C)}
    (hinit : (machine limit).init s₀) (hrun : (machine limit).Run s₀ as s) :
    (∀ a, Enabled limit s a → step s a ≠ .error .closesForeign) ∧
      (∀ a s', Own a → Enabled limit s a → step s a = .ok s' → Spares s.open_ s'.open_) ∧
      (s.pc = .ready → ∀ fd, s.open_ fd = some .idle ↔ s.idleFd_ = some fd) ∧
      (s.pc = .destroyed → ∀ fd, s.open_ fd ≠ some .idle ∧ s.open_ fd ≠ some .acceptSocket) ∧
      (∀ fd c, s.open_ fd = some (.connection c) → (c, Fate.handed fd) ∈ s.fates) ∧
      s.fates.map Prod.fst ++ s.backlog = as.flatMap arrival := by
  obtain ⟨sock, idle, cb, -, -, hne, rfl⟩ := hinit
  obtain ⟨howns, hseen⟩ := run_seen (new_owns hne cb) hrun
  refine ⟨?_, ?_, ?_, ?_, fun fd => (howns fd).handed, hseen⟩
  · intro a he hfault
    have habort := (step_owns howns he).of_error hfault
    cases habort
  · intro a s' hown he hstep
    exact step_spares howns hown he hstep
  · intro hpc fd
    exact (howns fd).idle.trans (and_iff_left (Or.inl hpc))
  · intro hpc fd
    refine ⟨fun hidle => ?_, fun hsocket => ((howns fd).socket.1 hsocket).2 hpc⟩
    have hholds := ((howns fd).idle.1 hidle).2
    simp [AcceptorPc.HoldsIdle, hpc] at hholds

/-- A table of two descriptors, both of the acceptor, and one connection that waits. -/
def crowded : Acceptor Unit :=
  { (new 0 1 true : Acceptor Unit) with listenning_ := true, backlog := [()] }

theorem crowded_run : (machine 2).Run (new 0 1 true) [.listen, .arrive ()] crowded :=
  Run.cons rfl rfl (Run.cons rfl rfl (Run.nil crowded))

theorem crowded_full : Full 2 crowded.open_ := by
  unfold Full
  decide

theorem descriptors_kept_two :
    crowded.fates.map Prod.fst ++ crowded.backlog =
      [AcceptorStep.listen, .arrive ()].flatMap arrival :=
  have hinit : (machine 2).init (new 0 1 true : Acceptor Unit) :=
    ⟨0, 1, true, by decide, by decide, by decide, rfl⟩
  (descriptors_kept hinit crowded_run).2.2.2.2.2

/-- An answer that tells how the table and the queue are. -/
def Settled : AcceptResult → Prop
  | .ok _ | .failed .EMFILE | .failed .EAGAIN => True
  | _ => False

/-- No thread opens or closes descriptors but `handleRead`, and its calls fail only when the
table is full or nobody waits. -/
def Calm (limit : ℕ) (s : Acceptor C) : AcceptorStep C → Prop
  | .accept r | .acceptIdle r => Settled r
  | .openIdle none => Full limit s.open_
  | .openIdle (some _) | .closeIdle | .closeAccepted | .arrive _ => True
  | _ => False

/-- A turn that `handleRead` takes at a full table. -/
def isTurn : AcceptorStep C → Bool
  | .acceptIdle _ => true
  | _ => false

/-- A full table, in which `idle` is the one descriptor that can be given up. -/
structure Reserve (limit : ℕ) (table : ℕ → Option (Owner C)) (idle : Option ℕ) : Prop where
  full : Full limit table
  free : ∀ fd, Free limit (withoutIdle table) fd ↔ idle = some fd
  again : ∀ fd, idle = some fd → Function.update (withoutIdle table) fd (some .idle) = table
  lost : idle = none → withoutIdle table = table

/-- The table and `idleFd_` while `handleRead` gives up its descriptor and takes it again. -/
def Lends (table : ℕ → Option (Owner C)) (idle : Option ℕ) (s : Acceptor C) : Prop :=
  match s.pc with
  | .ready | .tableFull => s.open_ = table ∧ s.idleFd_ = idle
  | .idleClosed | .acceptedClosed => s.open_ = withoutIdle table
  | .accepted =>
      s.open_ = table ∧ s.idleFd_ = idle ∨ s.open_ = withoutIdle table ∧ s.idleFd_ = none
  | .destroyed => False

/-- Since `s₀`, `n` connections of the queue have been closed, one in each turn that found one
unless `idleFd_` was lost. -/
structure Drained (s₀ : Acceptor C) (as : List (AcceptorStep C)) (s : Acceptor C) (n : ℕ) :
    Prop where
  le : n ≤ (s₀.backlog ++ as.flatMap arrival).length
  fates : s.fates =
    s₀.fates ++ ((s₀.backlog ++ as.flatMap arrival).take n).map fun c => (c, Fate.closed)
  backlog : s.backlog = (s₀.backlog ++ as.flatMap arrival).drop n
  le_turns : n ≤ as.countP isTurn
  lost : s₀.idleFd_ = none → n = 0
  turns_le : s₀.idleFd_ ≠ none → min (as.countP isTurn) s₀.backlog.length ≤ n

/-- All open descriptors are below the limit. -/
def Bounded (limit : ℕ) (s : Acceptor C) : Prop := ∀ fd, s.open_ fd ≠ none → fd < limit

theorem bounded_setOwner (h : Bounded limit s) {fd : ℕ} {o : Option (Owner C)}
    (hfd : o ≠ none → fd < limit) : Bounded limit (s.setOwner fd o) := by
  intro fd' hopen
  by_cases hne : fd' = fd
  · subst hne
    rw [setOwner_self] at hopen
    exact hfd hopen
  · rw [setOwner_of_ne s o hne] at hopen
    exact h fd' hopen

theorem bounded_take (h : Bounded limit s) (fate : Fate) : Bounded limit (s.take fate) := by
  intro fd hopen
  rw [open_take] at hopen
  exact h fd hopen

theorem bounded_withoutIdle (h : Bounded limit s) {fd : ℕ}
    (hopen : withoutIdle s.open_ fd ≠ none) : fd < limit := by
  obtain ⟨o, ho⟩ := Option.ne_none_iff_exists'.1 hopen
  exact h fd (by rw [(withoutIdle_eq_some.1 ho).1]; simp)

theorem step_bounded (hb : Bounded limit s) (h : Owns s) {a : AcceptorStep C}
    (he : Enabled limit s a) (hstep : step s a = .ok s') : Bounded limit s' := by
  cases a with
  | listen | arrive c =>
    obtain rfl := Except.ok.inj hstep
    exact hb
  | accept r =>
    cases r with
    | ok fd =>
      obtain rfl : s.handOver fd = s' := Except.ok.inj hstep
      unfold handOver
      split
      · exact hb
      · split
        · exact bounded_take (bounded_setOwner hb fun _ => he.2.2.1.1) _
        · exact bounded_take hb _
    | failed errno =>
      cases errno with
      | EAGAIN | EINTR | EMFILE =>
        obtain rfl := Except.ok.inj hstep
        exact hb
      | ECONNABORTED | EPROTO | EPERM =>
        obtain rfl : s.take .aborted = s' := Except.ok.inj hstep
        exact bounded_take hb _
      | unexpected => cases hstep
  | closeIdle =>
    rw [step, closeIdleFd_bind h (Or.inr (Or.inl he)), pure_eq_ok] at hstep
    subst hstep
    exact fun fd => bounded_withoutIdle hb
  | acceptIdle r =>
    obtain rfl := Except.ok.inj hstep
    cases r with
    | ok fd =>
      exact bounded_take (bounded_setOwner (s := { s with idleFd_ := some fd }) hb fun _ =>
        he.2.1.1) _
    | failed errno =>
      cases errno with
      | EAGAIN | EINTR | EMFILE | unexpected => exact hb
      | ECONNABORTED | EPROTO | EPERM => exact bounded_take (s := { s with idleFd_ := none }) hb _
  | closeAccepted =>
    rw [step, closeIdleFd_bind h (Or.inr (Or.inr he)), pure_eq_ok] at hstep
    subst hstep
    exact fun fd => bounded_withoutIdle hb
  | openIdle fd =>
    obtain rfl : s.openIdle fd = s' := Except.ok.inj hstep
    cases fd with
    | none => exact hb
    | some fd =>
      exact bounded_setOwner (s := { s with idleFd_ := some fd, pc := .ready }) hb fun _ => he.2.1
  | destroy =>
    rw [step, closeIdleFd_bind h (Or.inl he), pure_eq_ok] at hstep
    subst hstep
    apply bounded_setOwner _ fun hc => absurd rfl hc
    exact fun fd => bounded_withoutIdle hb
  | openOther fd =>
    obtain rfl := Except.ok.inj hstep
    exact bounded_setOwner hb fun _ => he.1
  | closeOther fd | closeConnection fd =>
    obtain rfl := Except.ok.inj hstep
    exact bounded_setOwner hb fun hc => absurd rfl hc

theorem bounded_of_reachable (h : (machine limit).Reachable s) : Owns s ∧ Bounded limit s := by
  apply h.invariant (I := fun s => Owns s ∧ Bounded limit s)
  · intro s hs
    obtain ⟨sock, idle, cb, hsock, hidle, hne, rfl⟩ := hs
    refine ⟨new_owns hne cb, fun fd hopen => ?_⟩
    by_cases h1 : fd = idle
    · exact h1 ▸ hidle
    · by_cases h2 : fd = sock
      · exact h2 ▸ hsock
      · simp [new, h1, h2] at hopen
  · intro s a s' hs he hstep
    exact ⟨(step_owns hs.1 he).of_ok hstep, step_bounded hs.2 hs.1 he hstep⟩

/-- The one idle descriptor of an acceptor at a full table. -/
theorem Owns.reserved (h : Owns s) (hpc : AcceptorPc.HoldsIdle s.pc) (hb : Bounded limit s)
    (hfull : Full limit s.open_) : Reserve limit s.open_ s.idleFd_ := by
  have hidle : ∀ fd, s.open_ fd = some .idle ↔ s.idleFd_ = some fd := fun fd =>
    (h fd).idle.trans (and_iff_left hpc)
  have hsame : ∀ fd, s.idleFd_ ≠ some fd → withoutIdle s.open_ fd = s.open_ fd := fun fd hne =>
    withoutIdle_of_ne fun hc => hne ((hidle fd).1 hc)
  refine ⟨hfull, fun fd => ⟨?_, fun hfd => ?_⟩, fun fd hfd => ?_, fun hlost => ?_⟩
  · rintro ⟨hlt, hnone⟩
    by_contra hne
    rw [hsame fd hne] at hnone
    exact hfull fd hlt hnone
  · have hopen := (hidle fd).2 hfd
    refine ⟨hb fd (by rw [hopen]; simp), ?_⟩
    unfold withoutIdle
    rw [hopen]
  · funext fd'
    by_cases hne : fd' = fd
    · subst hne
      rw [Function.update_self, (hidle fd').2 hfd]
    · rw [Function.update_of_ne hne]
      exact hsame fd' fun hc => hne (Option.some.inj (hfd ▸ hc)).symm
  · funext fd
    exact hsame fd (by rw [hlost]; simp)

theorem drained_refl (s : Acceptor C) : Drained s [] s 0 :=
  ⟨Nat.zero_le _, by simp, by simp, Nat.zero_le _, fun _ => rfl, fun _ => by simp⟩

section Drained

variable {s₀ : Acceptor C} {as : List (AcceptorStep C)} {n : ℕ} {a : AcceptorStep C}

theorem flatMap_arrival_turn (as : List (AcceptorStep C)) (r : AcceptResult) :
    (as ++ [AcceptorStep.acceptIdle r]).flatMap arrival = as.flatMap arrival := by
  rw [List.flatMap_append, List.flatMap_singleton]
  exact List.append_nil _

theorem countP_turn (as : List (AcceptorStep C)) (r : AcceptResult) :
    (as ++ [AcceptorStep.acceptIdle r]).countP isTurn = as.countP isTurn + 1 := by
  simp [isTurn]

theorem Drained.keep (h : Drained s₀ as s n) (ha : arrival a = []) (hturn : isTurn a = false)
    (hfates : s'.fates = s.fates) (hback : s'.backlog = s.backlog) :
    Drained s₀ (as ++ [a]) s' n := by
  have harrive : (as ++ [a]).flatMap arrival = as.flatMap arrival := by
    rw [List.flatMap_append, List.flatMap_singleton, ha, List.append_nil]
  have hcount : (as ++ [a]).countP isTurn = as.countP isTurn := by
    simp [hturn]
  refine ⟨?_, ?_, ?_, ?_, h.lost, ?_⟩
  · rw [harrive]
    exact h.le
  · rw [harrive, hfates, h.fates]
  · rw [harrive, hback, h.backlog]
  · rw [hcount]
    exact h.le_turns
  · rw [hcount]
    exact h.turns_le

theorem Drained.arrive (h : Drained s₀ as s n) (c : C) :
    Drained s₀ (as ++ [.arrive c]) { s with backlog := s.backlog ++ [c] } n := by
  have harrive : s₀.backlog ++ (as ++ [AcceptorStep.arrive c]).flatMap arrival =
      (s₀.backlog ++ as.flatMap arrival) ++ [c] := by
    rw [List.flatMap_append, List.flatMap_singleton, ← List.append_assoc]
    rfl
  have hcount : (as ++ [AcceptorStep.arrive c]).countP isTurn = as.countP isTurn := by
    simp [isTurn]
  refine ⟨?_, ?_, ?_, ?_, h.lost, ?_⟩
  · rw [harrive, List.length_append]
    exact Nat.le_add_right_of_le h.le
  · rw [harrive, List.take_append_of_le_length h.le]
    exact h.fates
  · rw [harrive, List.drop_append_of_le_length h.le, h.backlog]
  · rw [hcount]
    exact h.le_turns
  · rw [hcount]
    exact h.turns_le

/-- A turn that finds a connection closes it. -/
theorem Drained.close (h : Drained s₀ as s n) (hidle : s₀.idleFd_ ≠ none) {r : AcceptResult}
    {c : C} {rest : List C} (hback : s.backlog = c :: rest)
    (hfates : s'.fates = s.fates ++ [(c, .closed)]) (hback' : s'.backlog = rest) :
    Drained s₀ (as ++ [.acceptIdle r]) s' (n + 1) := by
  have harrive := flatMap_arrival_turn as r
  have hcount := countP_turn as r
  have hdrop : (s₀.backlog ++ as.flatMap arrival).drop n = c :: rest := h.backlog.symm.trans hback
  have hlt : n < (s₀.backlog ++ as.flatMap arrival).length := by
    by_contra hge
    rw [List.drop_eq_nil_of_le (by omega)] at hdrop
    cases hdrop
  refine ⟨?_, ?_, ?_, ?_, fun hc => absurd hc hidle, fun _ => ?_⟩
  · rw [harrive]
    exact hlt
  · rw [harrive, hfates, h.fates, List.take_add, hdrop, List.map_append, List.append_assoc]
    rfl
  · rw [harrive, ← List.drop_drop, hdrop]
    exact hback'
  · rw [hcount]
    exact Nat.succ_le_succ h.le_turns
  · rw [hcount]
    have hle := h.turns_le hidle
    omega

/-- A turn that finds nobody, or that has no descriptor to take anybody with. -/
theorem Drained.idle (h : Drained s₀ as s n) {r : AcceptResult}
    (hback : s₀.idleFd_ ≠ none → s.backlog = []) (hfates : s'.fates = s.fates)
    (hback' : s'.backlog = s.backlog) : Drained s₀ (as ++ [.acceptIdle r]) s' n := by
  have harrive := flatMap_arrival_turn as r
  have hcount := countP_turn as r
  refine ⟨?_, ?_, ?_, ?_, h.lost, fun hidle => ?_⟩
  · rw [harrive]
    exact h.le
  · rw [harrive, hfates, h.fates]
  · rw [harrive, hback', h.backlog]
  · rw [hcount]
    exact Nat.le_succ_of_le h.le_turns
  · have hlen := h.le
    have hall : (s₀.backlog ++ as.flatMap arrival).length ≤ n :=
      List.drop_eq_nil_iff.1 (h.backlog.symm.trans (hback hidle))
    rw [List.length_append] at hall
    omega

/-- `accept` with the descriptor that was given up: it takes the connection that has waited
longest, with just this descriptor. -/
theorem acceptIdle_lends (hr : Reserve limit s₀.open_ s₀.idleFd_)
    (hopen : s.open_ = withoutIdle s₀.open_) (hd : Drained s₀ as s n) {r : AcceptResult}
    (hans : Answers limit s r) (hset : Settled r) :
    Lends s₀.open_ s₀.idleFd_ { s.acceptIdle r with pc := .accepted } ∧
      ∃ n', Drained s₀ (as ++ [.acceptIdle r]) { s.acceptIdle r with pc := .accepted } n' := by
  cases r with
  | ok fd =>
    obtain ⟨hfree, hwait⟩ := hans
    rw [hopen, hr.free] at hfree
    obtain ⟨c, rest, hback⟩ := List.exists_cons_of_ne_nil hwait
    refine ⟨Or.inl ⟨?_, ?_⟩, n + 1, hd.close (by rw [hfree]; simp) hback ?_ ?_⟩
    · simp only [acceptIdle, open_take, setOwner, hopen]
      exact hr.again fd hfree
    · simp only [acceptIdle, Acceptor.take, setOwner, hback, hfree]
    · simp only [acceptIdle, Acceptor.take, setOwner, hback]
    · simp only [acceptIdle, Acceptor.take, setOwner, hback]
  | failed errno =>
    cases errno with
    | EAGAIN => exact ⟨Or.inr ⟨hopen, rfl⟩, n, hd.idle (fun _ => hans) rfl rfl⟩
    | EMFILE =>
      refine ⟨Or.inr ⟨hopen, rfl⟩, n, hd.idle (fun hidle => ?_) rfl rfl⟩
      obtain ⟨fd, hfd⟩ := Option.ne_none_iff_exists'.1 hidle
      obtain ⟨hlt, hnone⟩ := (hr.free fd).2 hfd
      exact absurd (hopen ▸ hnone) (hans fd hlt)
    | EINTR | ECONNABORTED | EPROTO | EPERM | unexpected => exact hset.elim

theorem step_lends (hr : Reserve limit s₀.open_ s₀.idleFd_) (h : Owns s)
    (hl : Lends s₀.open_ s₀.idleFd_ s) (hd : Drained s₀ as s n) (he : Enabled limit s a)
    (hc : Calm limit s a) (hstep : step s a = .ok s') :
    Lends s₀.open_ s₀.idleFd_ s' ∧ ∃ n', Drained s₀ (as ++ [a]) s' n' := by
  cases a with
  | listen | destroy | openOther | closeOther | closeConnection => exact hc.elim
  | arrive c =>
    obtain rfl := Except.ok.inj hstep
    exact ⟨hl, n, hd.arrive c⟩
  | accept r =>
    have hready := he.1
    simp only [Lends, hready] at hl
    cases r with
    | ok fd => exact absurd (hl.1 ▸ he.2.2.1.2) (hr.full fd he.2.2.1.1)
    | failed errno =>
      cases errno with
      | EMFILE =>
        obtain rfl := Except.ok.inj hstep
        exact ⟨hl, n, hd.keep rfl rfl rfl rfl⟩
      | EAGAIN =>
        obtain rfl := Except.ok.inj hstep
        refine ⟨?_, n, hd.keep rfl rfl rfl rfl⟩
        simp only [Lends, hready]
        exact hl
      | EINTR | ECONNABORTED | EPROTO | EPERM | unexpected => exact hc.elim
  | closeIdle =>
    have hpc : s.pc = .tableFull := he
    simp only [Lends, hpc] at hl
    rw [step, closeIdleFd_bind h (Or.inr (Or.inl hpc)), pure_eq_ok] at hstep
    subst hstep
    exact ⟨congrArg withoutIdle hl.1, n, hd.keep rfl rfl rfl rfl⟩
  | acceptIdle r =>
    have hpc := he.1
    simp only [Lends, hpc] at hl
    obtain rfl := Except.ok.inj hstep
    exact acceptIdle_lends hr hl hd he.2 hc
  | closeAccepted =>
    have hpc : s.pc = .accepted := he
    simp only [Lends, hpc] at hl
    rw [step, closeIdleFd_bind h (Or.inr (Or.inr hpc)), pure_eq_ok] at hstep
    subst hstep
    refine ⟨?_, n, hd.keep rfl rfl rfl rfl⟩
    change withoutIdle s.open_ = withoutIdle s₀.open_
    rcases hl with ⟨hopen, -⟩ | ⟨hopen, -⟩
    · rw [hopen]
    · rw [hopen, withoutIdle_idem]
  | openIdle fd =>
    obtain rfl : s.openIdle fd = s' := Except.ok.inj hstep
    cases fd with
    | some fd =>
      have hpc := he.1
      simp only [Lends, hpc] at hl
      have hidle : s₀.idleFd_ = some fd := (hr.free fd).1 (hl ▸ he.2)
      refine ⟨⟨?_, hidle.symm⟩, n, hd.keep rfl rfl rfl rfl⟩
      simp only [openIdle, setOwner, hl]
      exact hr.again fd hidle
    | none =>
      have hpc : s.pc = .acceptedClosed := he
      simp only [Lends, hpc] at hl
      have hidle : s₀.idleFd_ = none := by
        rw [Option.eq_none_iff_forall_ne_some]
        intro fd hfd
        obtain ⟨hlt, hnone⟩ := (hr.free fd).2 hfd
        exact hc fd hlt (hl ▸ hnone)
      refine ⟨⟨?_, hidle.symm⟩, n, hd.keep rfl rfl rfl rfl⟩
      exact hl.trans (hr.lost hidle)

end Drained

end Acceptor

end MuduoServer
