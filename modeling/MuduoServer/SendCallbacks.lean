import MuduoServer.OutputIntegrity

/-!
When a connection queues its write complete and its high water mark callback.
Each of the two functions that write, `sendInLoop` and `handleWrite`, is inverted
once; what a step queues then follows from the invariant of the output stream.
The marks are compared with the length of the output buffer before and after the
step, whichever branch of the source was taken.
-/
namespace MuduoServer

open FaultMachine

/-- The two callbacks about the output of a connection. -/
def Notice.aboutOutput : Notice → Bool
  | .writeCompleteCallback => true
  | .highWaterMarkCallback _ => true
  | _ => false

namespace TcpConnection

/-- The callbacks about the output that were queued so far. -/
def outputNotices (c : TcpConnection) : List Notice := c.notices.filter Notice.aboutOutput

/-- Both callbacks are set, and the mark is `mark`. -/
structure Watches (c : TcpConnection) (mark : ℕ) : Prop where
  writeComplete : c.writeCompleteCallback_ = true
  highWater : c.highWaterMarkCallback_ = true
  mark_eq : c.highWaterMark_ = mark

variable {c c' : TcpConnection} {mark : ℕ} {offered : List UInt8}

theorem Watches.noteWriteComplete (h : c.Watches mark) :
    c.noteWriteComplete = c.notify .writeCompleteCallback := by
  unfold TcpConnection.noteWriteComplete
  rw [if_pos h.writeComplete]

/-- The five ways through `sendInLoop`. -/
theorem sendInLoop_cases {data : List UInt8} {w : WriteResult}
    (h : c.sendInLoop data w = .ok c') :
    c.state_ = .kDisconnected ∧ c' = c ∨
    c.state_ ≠ .kDisconnected ∧ (¬ c.channel_.isWriting ∧ c.outputBuffer_.readableBytes = 0) ∧
      (¬ (w ≠ .failed .EPIPE ∧ w.nwrote < data.length) ∧ c' = (c.writeDirectly data w).1 ∨
        w ≠ .failed .EPIPE ∧ w.nwrote < data.length ∧
          (c.writeDirectly data w).1.appendRemaining (data.drop w.nwrote) = .ok c') ∨
    c.state_ ≠ .kDisconnected ∧ ¬ (¬ c.channel_.isWriting ∧ c.outputBuffer_.readableBytes = 0) ∧
      (data = [] ∧ c' = c ∨ data ≠ [] ∧ c.appendRemaining data = .ok c') := by
  obtain ⟨notices, hdirect⟩ := writeDirectly_eq c data w
  by_cases hstate : c.state_ = .kDisconnected
  · rw [sendInLoop, if_pos hstate] at h
    exact Or.inl ⟨hstate, (pure_eq_ok.mp h).symm⟩
  by_cases hidle : ¬ c.channel_.isWriting ∧ c.outputBuffer_.readableBytes = 0
  · refine Or.inr (Or.inl ⟨hstate, hidle, ?_⟩)
    simp only [sendInLoop, if_neg hstate, if_pos hidle, hdirect, bind_eq_ok, check_eq_ok] at h
    obtain ⟨-, hle, h⟩ := h
    rw [hdirect]
    split at h
    · rename_i hrest
      refine Or.inr ⟨of_decide_eq_false hrest.1, by omega, h⟩
    · rename_i hrest
      refine Or.inl ⟨?_, (pure_eq_ok.mp h).symm⟩
      intro hlt
      exact hrest ⟨decide_eq_false hlt.1, by omega⟩
  · refine Or.inr (Or.inr ⟨hstate, hidle, ?_⟩)
    simp only [sendInLoop, if_neg hstate, if_neg hidle, bind_eq_ok, List.drop_zero] at h
    obtain ⟨-, -, h⟩ := h
    split at h
    · rename_i hrest
      refine Or.inr ⟨?_, h⟩
      intro hnil
      simp [hnil] at hrest
    · rename_i hrest
      refine Or.inl ⟨?_, (pure_eq_ok.mp h).symm⟩
      by_contra hne
      exact hrest ⟨trivial, by have := List.length_pos_iff.mpr hne; omega⟩

/-- The output buffer grows from below the mark to the mark or above it. -/
def Crosses (c c' : TcpConnection) (mark : ℕ) : Prop :=
  c.outputBuffer_.readableBytes < mark ∧ mark ≤ c'.outputBuffer_.readableBytes

instance : Decidable (c.Crosses c' mark) := inferInstanceAs (Decidable (_ ∧ _))

/-- The high water mark callback of a step, when it is due. -/
def highWaterNotices (c c' : TcpConnection) (mark : ℕ) : List Notice :=
  if c.Crosses c' mark then [.highWaterMarkCallback c'.outputBuffer_.readableBytes] else []

theorem highWaterNotices_of_le
    (h : c'.outputBuffer_.readableBytes ≤ c.outputBuffer_.readableBytes) :
    highWaterNotices c c' mark = [] := by
  unfold highWaterNotices
  rw [if_neg]
  intro hcross
  exact absurd (hcross.2.trans h) (Nat.not_le.mpr hcross.1)

theorem Integrity.length_readable (h : c.Integrity offered) :
    c.outputBuffer_.readable.length = c.outputBuffer_.readableBytes :=
  h.represents.readableBytes_eq.symm

theorem writeDirectly_notices (h : c.Watches mark) (data : List UInt8) (w : WriteResult) :
    (c.writeDirectly data w).1 = { c with
      socket_ := c.socket_.write data w
      notices := c.notices ++
        (if w = .wrote data.length then [.writeCompleteCallback] else []) } := by
  unfold writeDirectly
  rcases w with n | errno
  · simp only [WriteResult.wrote.injEq]
    split
    · have hsocket : ({ c with socket_ := c.socket_.write data (.wrote n) } :
          TcpConnection).Watches mark := ⟨h.writeComplete, h.highWater, h.mark_eq⟩
      rw [hsocket.noteWriteComplete]
      rfl
    · simp
  · simp

/-- What is appended to the output buffer crosses the mark exactly when the
callback is queued. -/
theorem appendRemaining_notices (h : c.Watches mark) (hb : c.outputBuffer_.Inv)
    {rest : List UInt8} (hs : c.appendRemaining rest = .ok c') :
    c'.outputBuffer_.readable = c.outputBuffer_.readable ++ rest ∧
      c'.outputBuffer_.readableBytes = c.outputBuffer_.readableBytes + rest.length ∧
      c'.outputNotices = c.outputNotices ++ highWaterNotices c c' mark := by
  obtain ⟨c₁, hc₁, -, -, -, hout, -⟩ := appendRemaining_spec hb rest
  obtain rfl := Except.ok.inj (hs.symm.trans hc₁)
  have hold : c.outputBuffer_.Represents c.outputBuffer_.readable := ⟨hb, rfl⟩
  have hlen : c'.outputBuffer_.readableBytes = c.outputBuffer_.readableBytes + rest.length := by
    rw [hout.readableBytes_eq, hold.readableBytes_eq, List.length_append]
  refine ⟨hout.readable_eq, hlen, ?_⟩
  have hnotices : c'.notices = (c.noteHighWaterMark rest.length).notices := by
    simp only [appendRemaining, bind_eq_ok] at hs
    obtain ⟨b, -, hs⟩ := hs
    split at hs
    all_goals
      rw [← pure_eq_ok.mp hs]
  have hcross : c.Crosses c' mark ↔
      mark ≤ c.outputBuffer_.readableBytes + rest.length ∧ c.outputBuffer_.readableBytes < mark := by
    rw [Crosses, hlen, and_comm]
  unfold outputNotices highWaterNotices
  rw [hnotices, noteHighWaterMark, h.mark_eq, h.highWater]
  simp only [and_true, hcross, hlen]
  split
  · simp [notify, Notice.aboutOutput]
  · simp

/-- A direct write that takes the whole message, with nothing buffered. -/
def SendsAll (c : TcpConnection) (data : List UInt8) (w : WriteResult) : Prop :=
  c.state_ ≠ .kDisconnected ∧ c.outputBuffer_.readableBytes = 0 ∧ w = .wrote data.length

instance (data : List UInt8) (w : WriteResult) : Decidable (c.SendsAll data w) :=
  inferInstanceAs (Decidable (_ ∧ _))

/-- The output buffer had something and has nothing left. -/
def Empties (c c' : TcpConnection) : Prop :=
  c.outputBuffer_.readableBytes ≠ 0 ∧ c'.outputBuffer_.readableBytes = 0

instance : Decidable (c.Empties c') := inferInstanceAs (Decidable (_ ∧ _))

theorem sendInLoop_notices (h : c.Watches mark) (hi : c.Integrity offered) {data : List UInt8}
    {w : WriteResult} (hw : c.socket_.Accepts data.length w) (hne : w ≠ .failed .EPIPE)
    (hs : c.sendInLoop data w = .ok c') :
    c'.outputNotices = c.outputNotices ++
      (if c.SendsAll data w then [.writeCompleteCallback] else []) ++
      highWaterNotices c c' mark := by
  have hdirect := writeDirectly_notices h data w
  rcases sendInLoop_cases hs with ⟨hstate, hsame⟩ | ⟨hstate, ⟨-, hempty⟩, hsent⟩ |
    ⟨hstate, hbusy, hsent⟩
  · have hnot : ¬ c.SendsAll data w := fun hall => hall.1 hstate
    rw [hsame, if_neg hnot, highWaterNotices_of_le le_rfl, List.append_nil, List.append_nil]
  · have hall : c.SendsAll data w ↔ w = .wrote data.length :=
      ⟨fun hall => hall.2.2, fun heq => ⟨hstate, hempty, heq⟩⟩
    simp only [hall]
    rcases hsent with ⟨-, rfl⟩ | ⟨-, hlt, hrest⟩
    · have hkept : highWaterNotices c (c.writeDirectly data w).1 mark = [] := by
        apply highWaterNotices_of_le
        rw [hdirect]
      rw [hkept, hdirect]
      simp only [outputNotices, List.filter_append, List.append_nil]
      split
      · rfl
      · rfl
    · -- something is left, so the direct write queued nothing
      have hpart : w ≠ .wrote data.length := by
        rintro rfl
        exact Nat.lt_irrefl _ hlt
      rw [hdirect, if_neg hpart, List.append_nil] at hrest
      obtain ⟨-, -, hnotices⟩ := appendRemaining_notices (c := { c with
        socket_ := c.socket_.write data w }) ⟨h.writeComplete, h.highWater, h.mark_eq⟩
        hi.output hrest
      rw [hnotices, if_neg hpart, List.append_nil]
      rfl
  · have hbuffered : c.outputBuffer_.readableBytes ≠ 0 := by
      intro hzero
      have hnil := hi.readableBytes_eq_zero.mp hzero
      exact hbusy ⟨fun hwr => (hi.writing.mp hwr).2 hnil, hzero⟩
    have hnot : ¬ c.SendsAll data w := fun hall => hbuffered hall.2.1
    rw [if_neg hnot, List.append_nil]
    rcases hsent with ⟨-, hsame⟩ | ⟨-, happend⟩
    · rw [hsame, highWaterNotices_of_le le_rfl, List.append_nil]
    · exact (appendRemaining_notices h hi.output happend).2.2

/-- After a message the buffer is empty when the message went out at once, or
had nothing in it. -/
theorem sendInLoop_empty_iff (h : c.Watches mark) (hi : c.Integrity offered) {data : List UInt8}
    {w : WriteResult} (hw : c.socket_.Accepts data.length w) (hne : w ≠ .failed .EPIPE)
    (hstate : c.state_ ≠ .kDisconnected) (hs : c.sendInLoop data w = .ok c') :
    c'.outputBuffer_.readableBytes = 0 ↔
      c.SendsAll data w ∨ c.outputBuffer_.readableBytes = 0 ∧ data = [] := by
  have hdirect := writeDirectly_notices h data w
  rcases sendInLoop_cases hs with ⟨hdis, -⟩ | ⟨-, ⟨-, hempty⟩, hsent⟩ | ⟨-, hbusy, hsent⟩
  · exact absurd hdis hstate
  · rcases hsent with ⟨hdone, hsame⟩ | ⟨-, hlt, hrest⟩
    · have hzero : c'.outputBuffer_.readableBytes = 0 := by
        rw [hsame, hdirect]
        exact hempty
      have hle : data.length ≤ w.nwrote := Nat.not_lt.mp fun hlt => hdone ⟨hne, hlt⟩
      refine iff_of_true hzero ?_
      rcases w with n | errno
      · obtain rfl : n = data.length := Nat.le_antisymm hw.1 hle
        exact Or.inl ⟨hstate, hempty, rfl⟩
      · exact Or.inr ⟨hempty, List.length_eq_zero_iff.mp (Nat.le_zero.mp hle)⟩
    · rw [hdirect] at hrest
      have hlen := (appendRemaining_notices (c := { c with
        socket_ := c.socket_.write data w
        notices := _ }) ⟨h.writeComplete, h.highWater, h.mark_eq⟩ hi.output hrest).2.1
      rw [List.length_drop] at hlen
      have hpart : ¬ c.SendsAll data w := by
        rintro ⟨-, -, rfl⟩
        exact Nat.lt_irrefl _ hlt
      have hsome : data ≠ [] := by
        rintro rfl
        exact Nat.not_lt_zero _ hlt
      simp only [hpart, hsome, and_false, or_self, iff_false]
      omega
  · have hbuffered : c.outputBuffer_.readableBytes ≠ 0 := by
      intro hzero
      have hnil := hi.readableBytes_eq_zero.mp hzero
      exact hbusy ⟨fun hwr => (hi.writing.mp hwr).2 hnil, hzero⟩
    have hpart : ¬ c.SendsAll data w := fun hall => hbuffered hall.2.1
    simp only [hpart, hbuffered, false_and, or_self, iff_false]
    rcases hsent with ⟨-, hsame⟩ | ⟨-, happend⟩
    · exact hsame ▸ hbuffered
    · have hlen := (appendRemaining_notices h hi.output happend).2.1
      omega

theorem handleWrite_wrote_notices (h : c.Watches mark) (hwr : c.channel_.isWriting) {n : ℕ}
    {b : Buffer} (hb : c.outputBuffer_.retrieve (n + 1) = .ok b)
    (hs : c.handleWrite (.wrote (n + 1)) = .ok c') :
    c'.notices = c.notices ++ if b.readableBytes = 0 then [.writeCompleteCallback] else [] := by
  simp only [handleWrite, if_pos hwr, hb, mapError_ok, ok_bind] at hs
  by_cases hdrained : b.readableBytes = 0
  · have hwatch : ({ c with
        socket_ := c.socket_.write c.outputBuffer_.readable (.wrote (n + 1))
        outputBuffer_ := b
        channel_ := c.channel_.disableWriting } : TcpConnection).Watches mark :=
      ⟨h.writeComplete, h.highWater, h.mark_eq⟩
    rw [if_pos hdrained, hwatch.noteWriteComplete] at hs
    rw [if_pos hdrained]
    unfold shutdownInLoop at hs
    split at hs
    · split at hs
      all_goals
        rw [← pure_eq_ok.mp hs]
        rfl
    · rw [← pure_eq_ok.mp hs]
      rfl
  · rw [if_neg hdrained] at hs
    rw [if_neg hdrained, List.append_nil, ← pure_eq_ok.mp hs]

theorem handleWrite_notices (h : c.Watches mark) (hi : c.Integrity offered) {w : WriteResult}
    (hw : c.socket_.Accepts c.outputBuffer_.readableBytes w) (hs : c.handleWrite w = .ok c') :
    c'.outputBuffer_.readableBytes ≤ c.outputBuffer_.readableBytes ∧
      c'.outputNotices = c.outputNotices ++
        if c.Empties c' then [.writeCompleteCallback] else [] := by
  have hsame : c'.outputBuffer_ = c.outputBuffer_ → c'.notices = c.notices →
      c'.outputBuffer_.readableBytes ≤ c.outputBuffer_.readableBytes ∧
        c'.outputNotices = c.outputNotices ++
          if c.Empties c' then [.writeCompleteCallback] else [] := by
    intro hout hnotices
    have hnot : ¬ c.Empties c' := fun hemp => hemp.1 (hout ▸ hemp.2)
    rw [if_neg hnot, List.append_nil, outputNotices, outputNotices, hnotices, hout]
    exact ⟨le_rfl, rfl⟩
  by_cases hwr : c.channel_.isWriting
  swap
  · rw [handleWrite, if_neg hwr] at hs
    obtain rfl := pure_eq_ok.mp hs
    exact hsame rfl rfl
  by_cases hzero : w.nwrote = 0
  · rw [handleWrite_of_failed hwr hzero] at hs
    obtain rfl := Except.ok.inj hs
    exact hsame rfl rfl
  obtain ⟨n, rfl⟩ := exists_wrote_of_ne_zero hzero
  have hle : n + 1 ≤ c.outputBuffer_.readable.length := by
    rw [hi.length_readable]
    exact hw.nwrote_le
  obtain ⟨b, hb, hrep⟩ := hi.represents.retrieve hle
  obtain ⟨c₁, hc₁, -, -, hout, -⟩ := handleWrite_of_wrote hwr hb
  obtain rfl := Except.ok.inj (hs.symm.trans hc₁)
  have hnotices := handleWrite_wrote_notices h hwr hb hs
  have hlen : b.readableBytes = c.outputBuffer_.readableBytes - (n + 1) := by
    rw [hrep.readableBytes_eq, List.length_drop, hi.length_readable]
  rw [hi.length_readable] at hle
  have hempties : c.Empties c' ↔ b.readableBytes = 0 := by
    rw [Empties, hout]
    omega
  refine ⟨by rw [hout]; omega, ?_⟩
  simp only [outputNotices, hnotices, List.filter_append, hempties]
  split
  · rfl
  · rfl

theorem Watches.sendInLoop (h : c.Watches mark) {data : List UInt8} {w : WriteResult}
    (hs : c.sendInLoop data w = .ok c') : c'.Watches mark := by
  have happended : ∀ {c₁ c₂ : TcpConnection} {rest : List UInt8}, c₁.Watches mark →
      c₁.appendRemaining rest = .ok c₂ → c₂.Watches mark := by
    intro c₁ c₂ rest h₁ happend
    obtain ⟨notices, hnote⟩ := noteHighWaterMark_eq c₁ rest.length
    simp only [appendRemaining, hnote, bind_eq_ok] at happend
    obtain ⟨b, -, happend⟩ := happend
    split at happend
    all_goals
      rw [← pure_eq_ok.mp happend]
      exact ⟨h₁.writeComplete, h₁.highWater, h₁.mark_eq⟩
  have hdirect : (c.writeDirectly data w).1.Watches mark := by
    rw [writeDirectly_notices h]
    exact ⟨h.writeComplete, h.highWater, h.mark_eq⟩
  rcases sendInLoop_cases hs with ⟨-, hsame⟩ | ⟨-, -, hsame | ⟨-, -, hrest⟩⟩ |
    ⟨-, -, ⟨-, hsame⟩ | ⟨-, hrest⟩⟩
  · exact hsame ▸ h
  · exact hsame.2 ▸ hdirect
  · exact happended hdirect hrest
  · exact hsame ▸ h
  · exact happended h hrest

/-- Nothing happened to the output: neither callback was queued and no byte
moved. -/
structure OutputKept (c c' : TcpConnection) : Prop where
  writeComplete : c'.writeCompleteCallback_ = c.writeCompleteCallback_
  highWater : c'.highWaterMarkCallback_ = c.highWaterMarkCallback_
  mark_eq : c'.highWaterMark_ = c.highWaterMark_
  buffer : c'.outputBuffer_ = c.outputBuffer_
  written : c'.socket_.written = c.socket_.written
  broken : c'.socket_.broken = c.socket_.broken
  notices : c'.outputNotices = c.outputNotices

theorem OutputKept.refl (c : TcpConnection) : c.OutputKept c := ⟨rfl, rfl, rfl, rfl, rfl, rfl, rfl⟩

theorem OutputKept.watches (h : c.OutputKept c') (hw : c.Watches mark) : c'.Watches mark :=
  ⟨h.writeComplete.trans hw.writeComplete, h.highWater.trans hw.highWater,
    h.mark_eq.trans hw.mark_eq⟩

theorem handleClose_outputKept (hs : c.handleClose = .ok c') : c.OutputKept c' := by
  obtain ⟨-, rfl⟩ := handleClose_eq_ok.mp hs
  exact ⟨rfl, rfl, rfl, rfl, rfl, rfl, by simp [outputNotices, Notice.aboutOutput]⟩

theorem handleRead_outputKept {r : Buffer.ReadResult} (hs : c.handleRead r = .ok c') :
    c.OutputKept c' := by
  obtain ⟨b, -, ⟨-, rfl⟩ | ⟨-, hclose⟩ | ⟨-, rfl⟩⟩ := handleRead_cases hs
  · exact ⟨rfl, rfl, rfl, rfl, rfl, rfl, by simp [outputNotices, Notice.aboutOutput]⟩
  · have h := handleClose_outputKept hclose
    exact ⟨h.writeComplete, h.highWater, h.mark_eq, h.buffer, h.written, h.broken, h.notices⟩
  · exact ⟨rfl, rfl, rfl, rfl, rfl, rfl, rfl⟩

theorem connectEstablished_outputKept (hs : c.connectEstablished = .ok c') : c.OutputKept c' := by
  obtain ⟨-, rfl⟩ := connectEstablished_eq_ok.mp hs
  exact ⟨rfl, rfl, rfl, rfl, rfl, rfl, by simp [outputNotices, Notice.aboutOutput]⟩

theorem connectDestroyed_outputKept (hs : c.connectDestroyed = .ok c') : c.OutputKept c' := by
  by_cases hstate : c.state_ = .kConnected
  · rw [connectDestroyed_of_connected hstate] at hs
    obtain rfl := Except.ok.inj hs
    exact ⟨rfl, rfl, rfl, rfl, rfl, rfl, by simp [outputNotices, Notice.aboutOutput]⟩
  · obtain ⟨-, -, rfl⟩ := (connectDestroyed_of_ne hstate).mp hs
    exact ⟨rfl, rfl, rfl, rfl, rfl, rfl, rfl⟩

theorem shutdownInLoop_outputKept (c : TcpConnection) : c.OutputKept c.shutdownInLoop := by
  unfold shutdownInLoop
  split
  · exact OutputKept.refl c
  · exact ⟨rfl, rfl, rfl, rfl, rfl, rfl, rfl⟩

theorem shutdown_outputKept (c : TcpConnection) : c.OutputKept (c.shutdown.getD c) := by
  unfold shutdown
  split
  · exact ⟨rfl, rfl, rfl, rfl, rfl, rfl, rfl⟩
  · exact OutputKept.refl c

theorem Watches.handleWrite (h : c.Watches mark) {w : WriteResult}
    (hs : c.handleWrite w = .ok c') : c'.Watches mark := by
  by_cases hwr : c.channel_.isWriting
  swap
  · rw [TcpConnection.handleWrite, if_neg hwr] at hs
    rw [← pure_eq_ok.mp hs]
    exact h
  by_cases hzero : w.nwrote = 0
  · rw [handleWrite_of_failed hwr hzero] at hs
    obtain rfl := Except.ok.inj hs
    exact ⟨h.writeComplete, h.highWater, h.mark_eq⟩
  obtain ⟨n, rfl⟩ := exists_wrote_of_ne_zero hzero
  simp only [TcpConnection.handleWrite, if_pos hwr, bind_eq_ok] at hs
  obtain ⟨b, -, hs⟩ := hs
  split at hs
  swap
  · rw [← pure_eq_ok.mp hs]
    exact ⟨h.writeComplete, h.highWater, h.mark_eq⟩
  obtain ⟨notices, hnote⟩ := noteWriteComplete_eq { c with
    socket_ := c.socket_.write c.outputBuffer_.readable (.wrote (n + 1))
    outputBuffer_ := b
    channel_ := c.channel_.disableWriting }
  rw [hnote] at hs
  split at hs
  · rw [← pure_eq_ok.mp hs]
    exact (shutdownInLoop_outputKept _).watches ⟨h.writeComplete, h.highWater, h.mark_eq⟩
  · rw [← pure_eq_ok.mp hs]
    exact ⟨h.writeComplete, h.highWater, h.mark_eq⟩

end TcpConnection

namespace SendCallbacks

open OutputIntegrity TcpConnection

/-- The kernel answers no write of the step with `EPIPE`. -/
def NoEpipe : Op → Prop
  | .sendInLoop _ w => w ≠ .failed .EPIPE
  | .handleWrite w => w ≠ .failed .EPIPE
  | _ => True

instance (op : Op) : Decidable (NoEpipe op) := by
  refine Op.casesOn op ?_ ?_ ?_ ?_ ?_ ?_ ?_ ?_ <;> intros <;> dsimp only [NoEpipe] <;> infer_instance

/-- The runs of a connection whose writes never fail with `EPIPE`. -/
def machine : Machine Stream Op Fault := OutputIntegrity.machine.restrict fun _ op => NoEpipe op

def start (mark : ℕ) : Stream := ⟨TcpConnection.new true true mark, []⟩

/-- What a step queues about the output. -/
def Queues (s s' : Stream) (n : Notice) : Prop :=
  n ∈ s'.conn.outputNotices.drop s.conn.outputNotices.length

/-- A full direct write with an empty output buffer, or a `handleWrite` that
empties the buffer. -/
def Completes (s s' : Stream) : Op → Prop
  | .sendInLoop data w => s.conn.SendsAll data w
  | .handleWrite _ => s.conn.Empties s'.conn
  | _ => False

instance (s s' : Stream) (op : Op) : Decidable (Completes s s' op) := by
  refine Op.casesOn op ?_ ?_ ?_ ?_ ?_ ?_ ?_ ?_ <;> intros <;> dsimp only [Completes] <;>
    infer_instance

/-- What holds of every stream in a run from `start mark`. -/
structure Running (s : Stream) (mark : ℕ) : Prop where
  integrity : s.conn.Integrity s.offered
  watches : s.conn.Watches mark
  notBroken : s.conn.socket_.broken = false

variable {s s' : Stream} {op : Op} {mark : ℕ}

theorem start_running (mark : ℕ) : Running (start mark) mark :=
  ⟨new_integrity true true mark, ⟨rfl, rfl, rfl⟩, rfl⟩

/-- A step sends, drains, or leaves the output alone. -/
theorem step_cases (hs : machine.step s op = .ok s') :
    (∃ data w, op = .sendInLoop data w ∧ s.conn.sendInLoop data w = .ok s'.conn ∧
      s'.offered = s.offered ++ s.conn.offers data) ∨
    (∃ w, op = .handleWrite w ∧ s.conn.handleWrite w = .ok s'.conn ∧ s'.offered = s.offered) ∨
    s.conn.OutputKept s'.conn ∧ s'.offered = s.offered ∧ ¬ Completes s s' op := by
  cases op with
  | connectEstablished =>
    obtain ⟨c, hc, rfl⟩ := map_eq_ok.mp hs
    exact Or.inr (Or.inr ⟨connectEstablished_outputKept hc, rfl, id⟩)
  | sendInLoop data w =>
    obtain ⟨c, hc, rfl⟩ := map_eq_ok.mp hs
    exact Or.inl ⟨data, w, rfl, hc, rfl⟩
  | handleWrite w =>
    obtain ⟨c, hc, rfl⟩ := map_eq_ok.mp hs
    exact Or.inr (Or.inl ⟨w, rfl, hc, rfl⟩)
  | handleRead r =>
    obtain ⟨c, hc, rfl⟩ := map_eq_ok.mp hs
    exact Or.inr (Or.inr ⟨handleRead_outputKept hc, rfl, id⟩)
  | shutdown =>
    rw [← pure_eq_ok.mp hs]
    exact Or.inr (Or.inr ⟨shutdown_outputKept s.conn, rfl, id⟩)
  | shutdownInLoop =>
    rw [← pure_eq_ok.mp hs]
    exact Or.inr (Or.inr ⟨shutdownInLoop_outputKept s.conn, rfl, id⟩)
  | handleClose =>
    obtain ⟨c, hc, rfl⟩ := map_eq_ok.mp hs
    exact Or.inr (Or.inr ⟨handleClose_outputKept hc, rfl, id⟩)
  | connectDestroyed =>
    obtain ⟨c, hc, rfl⟩ := map_eq_ok.mp hs
    exact Or.inr (Or.inr ⟨connectDestroyed_outputKept hc, rfl, id⟩)

theorem Running.step (h : Running s mark) (he : machine.enabled s op)
    (hs : machine.step s op = .ok s') : Running s' mark := by
  have hintegrity := step_integrity s op s' h.integrity he.1 hs
  rcases step_cases hs with ⟨data, w, rfl, hc, -⟩ | ⟨w, rfl, hc, -⟩ | ⟨hkept, -⟩
  · refine ⟨hintegrity, h.watches.sendInLoop hc, ?_⟩
    have hne : w ≠ .failed .EPIPE := he.2
    rcases (sendInLoop_frame hc).2 with hsame | hwrote
    · rw [hsame]
      exact h.notBroken
    · rw [hwrote, Socket.broken_write, h.notBroken]
      simp [hne]
  · refine ⟨hintegrity, h.watches.handleWrite hc, ?_⟩
    rw [(handleWrite_frame hc).2.2.1 he.2]
    exact h.notBroken
  · refine ⟨hintegrity, hkept.watches h.watches, ?_⟩
    rw [hkept.broken]
    exact h.notBroken

theorem Running.run (h : Running s mark) {ops : List Op} (hr : machine.Run s ops s') :
    Running s' mark :=
  hr.invariant (fun _ _ _ (hinv : Running _ mark) he hs => hinv.step he hs) h

/-- The callbacks that a step queues, in the order of the source. -/
theorem Running.notices (h : Running s mark) (he : machine.enabled s op)
    (hs : machine.step s op = .ok s') :
    s'.conn.outputNotices = s.conn.outputNotices ++
      (if Completes s s' op then [.writeCompleteCallback] else []) ++
      highWaterNotices s.conn s'.conn mark := by
  rcases step_cases hs with ⟨data, w, rfl, hc, -⟩ | ⟨w, rfl, hc, -⟩ | ⟨hkept, -, hnot⟩
  · exact sendInLoop_notices h.watches h.integrity he.1 he.2 hc
  · obtain ⟨hle, hnotices⟩ := handleWrite_notices h.watches h.integrity he.1 hc
    rw [highWaterNotices_of_le hle, List.append_nil]
    exact hnotices
  · rw [highWaterNotices_of_le (by rw [hkept.buffer]), if_neg hnot, hkept.notices,
      List.append_nil, List.append_nil]

theorem Running.crosses_sends (h : Running s mark) (he : machine.enabled s op)
    (hs : machine.step s op = .ok s') (hcross : s.conn.Crosses s'.conn mark) :
    ∃ data w, op = .sendInLoop data w := by
  rcases step_cases hs with ⟨data, w, rfl, -⟩ | ⟨w, rfl, hc, -⟩ | ⟨hkept, -⟩
  · exact ⟨data, w, rfl⟩
  · have hle := (handleWrite_notices h.watches h.integrity he.1 hc).1
    exact absurd (hcross.2.trans hle) (Nat.not_le.mpr hcross.1)
  · have hlt := hcross.1
    rw [← hkept.buffer] at hlt
    exact absurd hcross.2 (Nat.not_le.mpr hlt)

/-- Everything accepted has been handed over exactly when nothing is buffered. -/
theorem Running.written_eq_iff (h : Running s mark) :
    s.conn.socket_.written = s.offered ↔ s.conn.outputBuffer_.readableBytes = 0 := by
  rw [h.integrity.readableBytes_eq_zero, ← h.integrity.stream h.notBroken]
  simp

theorem Running.completes_written (h : Running s mark) (he : machine.enabled s op)
    (hs : machine.step s op = .ok s') (hc : Completes s s' op) :
    s'.conn.socket_.written = s'.offered := by
  rw [(h.step he hs).written_eq_iff]
  rcases step_cases hs with ⟨data, w, rfl, hsend, -⟩ | ⟨w, rfl, -⟩ | ⟨-, -, hnot⟩
  · exact (sendInLoop_empty_iff h.watches h.integrity he.1 he.2 hc.1 hsend).mpr (Or.inl hc)
  · exact hc.2
  · exact absurd hc hnot

/-- A step that leaves nothing to be handed over completes the output, or had
nothing to do with it. -/
theorem Running.completes_of_written (h : Running s mark) (he : machine.enabled s op)
    (hs : machine.step s op = .ok s') (hall : s'.conn.socket_.written = s'.offered) :
    Completes s s' op ∨
      s'.offered = s.offered ∧ s'.conn.socket_.written = s.conn.socket_.written := by
  have h' := h.step he hs
  have hzero := h'.written_eq_iff.mp hall
  rcases step_cases hs with ⟨data, w, rfl, hsend, hoffered⟩ | ⟨w, rfl, hc, hoffered⟩ |
    ⟨hkept, hoffered, -⟩
  · by_cases hstate : s.conn.state_ = .kDisconnected
    · have hnone : s.conn.offers data = [] := by simp [offers, hstate]
      rw [hnone, List.append_nil] at hoffered
      refine Or.inr ⟨hoffered, ?_⟩
      rw [TcpConnection.sendInLoop, if_pos hstate] at hsend
      rw [← pure_eq_ok.mp hsend]
    · rcases (sendInLoop_empty_iff h.watches h.integrity he.1 he.2 hstate hsend).mp hzero with
        hc | ⟨hempty, rfl⟩
      · exact Or.inl hc
      · have hnone : s.conn.offers [] = [] := by simp [offers]
        rw [hnone, List.append_nil] at hoffered
        exact Or.inr ⟨hoffered, by rw [hall, hoffered, h.written_eq_iff.mpr hempty]⟩
  · by_cases hempty : s.conn.outputBuffer_.readableBytes = 0
    · exact Or.inr ⟨hoffered, by rw [hall, hoffered, h.written_eq_iff.mpr hempty]⟩
    · exact Or.inl ⟨hempty, hzero⟩
  · exact Or.inr ⟨hoffered, hkept.written⟩

theorem Running.queues_iff (h : Running s mark) (he : machine.enabled s op)
    (hs : machine.step s op = .ok s') (n : Notice) :
    Queues s s' n ↔
      n = .writeCompleteCallback ∧ Completes s s' op ∨
        n = .highWaterMarkCallback s'.conn.outputBuffer_.readableBytes ∧
          s.conn.Crosses s'.conn mark := by
  rw [Queues, h.notices he hs, List.append_assoc, List.drop_left, List.mem_append,
    highWaterNotices]
  split <;> split <;> simp_all

/-- A step queues the high water mark callback exactly when it is a `sendInLoop`
that takes the output buffer from below the mark to the mark or above, with the
new length; two such steps have the buffer below the mark between them. It
queues the write complete callback exactly when it is a full direct write with
an empty buffer or a `handleWrite` that empties the buffer; then every byte
accepted has been handed to the kernel, and no other step that accepts or hands
over a byte leaves it so. -/
theorem callbacks_exact {ops : List Op} (hrun : machine.Run (start mark) ops s)
    (he : machine.enabled s op) (hs : machine.step s op = .ok s') :
    s'.conn.outputNotices = s.conn.outputNotices ++
        (if Completes s s' op then [.writeCompleteCallback] else []) ++
        highWaterNotices s.conn s'.conn mark ∧
      (∀ n, Queues s s' (.highWaterMarkCallback n) ↔
        (∃ data w, op = .sendInLoop data w) ∧ s.conn.outputBuffer_.readableBytes < mark ∧
          mark ≤ s'.conn.outputBuffer_.readableBytes ∧
          n = s'.conn.outputBuffer_.readableBytes) ∧
      (∀ n ops₁ s₁ op₁ s₂ m, Queues s s' (.highWaterMarkCallback n) →
        machine.Run s' ops₁ s₁ → machine.enabled s₁ op₁ → machine.step s₁ op₁ = .ok s₂ →
        Queues s₁ s₂ (.highWaterMarkCallback m) →
          mark ≤ s'.conn.outputBuffer_.readableBytes ∧
            s₁.conn.outputBuffer_.readableBytes < mark) ∧
      (Queues s s' .writeCompleteCallback ↔ Completes s s' op) ∧
      (Completes s s' op → s'.conn.socket_.written = s'.offered) ∧
      (s'.conn.socket_.written = s'.offered → ¬ Completes s s' op →
        s'.offered = s.offered ∧ s'.conn.socket_.written = s.conn.socket_.written) := by
  have h := (start_running mark).run hrun
  have hhigh : ∀ n, Queues s s' (.highWaterMarkCallback n) ↔
      s.conn.Crosses s'.conn mark ∧ n = s'.conn.outputBuffer_.readableBytes := by
    intro n
    rw [h.queues_iff he hs]
    simp [and_comm]
  refine ⟨h.notices he hs, ?_, ?_, ?_, h.completes_written he hs, ?_⟩
  · intro n
    rw [hhigh]
    constructor
    · intro hq
      exact ⟨h.crosses_sends he hs hq.1, hq.1.1, hq.1.2, hq.2⟩
    · intro hq
      exact ⟨⟨hq.2.1, hq.2.2.1⟩, hq.2.2.2⟩
  · intro n ops₁ s₁ op₁ s₂ m hq hrun₁ he₁ hs₁ hq₁
    have h₁ := (h.step he hs).run hrun₁
    have hsecond := (h₁.queues_iff he₁ hs₁ _).mp hq₁
    simp only [reduceCtorEq, false_and, false_or] at hsecond
    exact ⟨((hhigh n).mp hq).1.2, hsecond.2.1⟩
  · rw [h.queues_iff he hs]
    simp
  · intro hall hnot
    exact (h.completes_of_written he hs hall).resolve_left hnot

instance (s : Stream) (op : Op) : Decidable (machine.enabled s op) :=
  inferInstanceAs (Decidable (Enabled s op ∧ NoEpipe op))

def established (mark : ℕ) : Stream :=
  ⟨{ TcpConnection.new true true mark with
    state_ := .kConnected
    channel_ := Channel.new.enableReading
    notices := [.connectionCallback true] }, []⟩

theorem established_run (mark : ℕ) :
    machine.Run (start mark) [.connectEstablished] (established mark) :=
  Machine.Run.snoc (Machine.Run.nil _) ⟨trivial, trivial⟩ rfl

/-- One of three bytes goes out at once, so the mark 2 is reached. -/
theorem callbacks_exact_sample :
    ∃ s' : Stream, machine.step (established 2) (.sendInLoop [1, 2, 3] (.wrote 1)) = .ok s' ∧
      Queues (established 2) s' (.highWaterMarkCallback 2) := by
  have h : (fun s : Stream => s.conn.outputBuffer_.readableBytes) <$>
      machine.step (established 2) (.sendInLoop [1, 2, 3] (.wrote 1)) = .ok 2 := by
    decide +kernel
  obtain ⟨s', hs, hlen⟩ := map_eq_ok.mp h
  have hexact := callbacks_exact (established_run 2) (by decide) hs
  refine ⟨s', hs, (hexact.2.1 2).mpr ⟨⟨_, _, rfl⟩, by decide, hlen.ge, hlen.symm⟩⟩

end SendCallbacks

end MuduoServer
