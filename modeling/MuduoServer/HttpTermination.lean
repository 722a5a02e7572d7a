import MuduoServer.HttpSegmentation

/-!
The loop `while (hasMore)` of `parseRequest` round by round. In two of the four states of a
context a round changes nothing, and the loop would go on for ever. `onMessage` resets the
context once everything has been received, so no call starts in such a state and no round
leads to one before the loop has ended; every other round takes a CR LF out of the buffer.
-/
namespace MuduoServer

open FaultMachine FaultMachine.Machine CrlfLines Block
open HttpRequest (Fault)

/-- The variables at the head of the loop. -/
structure ParseLoop where
  ok : Bool
  hasMore : Bool
  buf : Buffer
  context : HttpContext

namespace ParseLoop

/-- The loop is entered. -/
def enter (buf : Buffer) (context : HttpContext) : ParseLoop :=
  { ok := true, hasMore := true, buf := buf, context := context }

/-- The body of the loop. -/
def body (receiveTime : ℤ) (s : ParseLoop) : Except Fault ParseLoop :=
  match s.context.state_ with
  | .kExpectRequestLine =>
      match s.buf.findCRLF with
      | some crlf => do
          let line := slice s.buf.buffer_ s.buf.readerIndex_ crlf
          let ok ← processRequestLine line s.context.request_
          if ok.1 then
            let buf ← (s.buf.retrieveUntil (crlf + 2)).mapError .buffer
            let request := { ok.2 with receiveTime_ := receiveTime }
            let context := { s.context with state_ := .kExpectHeaders, request_ := request }
            pure { s with ok := true, buf := buf, context := context }
          else
            let context := { s.context with request_ := ok.2 }
            pure { s with ok := false, hasMore := false, context := context }
      | none => pure { s with hasMore := false }
  | .kExpectHeaders =>
      match s.buf.findCRLF with
      | some crlf =>
          match cut (byte ':') (slice s.buf.buffer_ s.buf.readerIndex_ crlf) with
          | some (field, value) => do
              let buf ← (s.buf.retrieveUntil (crlf + 2)).mapError .buffer
              let request := s.context.request_.addHeader field value
              pure { s with buf := buf, context := { s.context with request_ := request } }
          | none => do
              let buf ← (s.buf.retrieveUntil (crlf + 2)).mapError .buffer
              let context := { s.context with state_ := .kGotAll }
              pure { s with hasMore := context.state_ ≠ .kGotAll, buf := buf, context := context }
      | none => pure { s with hasMore := false }
  | .kExpectBody => pure s
  | .kGotAll => pure s

def machine (receiveTime : ℤ) : Machine ParseLoop Unit Fault where
  init s := ∃ buf context, s = enter buf context
  enabled s _ := s.hasMore = true
  step s _ := s.body receiveTime

variable {receiveTime : ℤ} {s e : ParseLoop} {rounds : List Unit} {q : Bytes} {fuel : ℕ}

/-- One unit of fuel is one round. -/
theorem parseLoop_succ (hok : s.ok = true) (hmore : s.hasMore = true) :
    parseLoop receiveTime (fuel + 1) s.buf s.context = s.body receiveTime >>= fun e =>
      if e.hasMore then parseLoop receiveTime fuel e.buf e.context
      else pure (e.ok, e.buf, e.context) := by
  obtain ⟨ok, hasMore, buf, ⟨state, request⟩⟩ := s
  obtain rfl : ok = true := hok
  obtain rfl : hasMore = true := hmore
  cases state with
  | kExpectRequestLine =>
    simp only [parseLoop, body]
    cases buf.findCRLF with
    | none => rfl
    | some crlf =>
      dsimp only
      rw [bind_assoc]
      refine congrArg _ (funext fun ok => ?_)
      obtain ⟨ok, r⟩ := ok
      cases ok with
      | false => rfl
      | true =>
        simp only [if_true]
        rw [bind_assoc]
        rfl
  | kExpectHeaders =>
    simp only [parseLoop, body]
    cases buf.findCRLF with
    | none => rfl
    | some crlf =>
      dsimp only
      cases cut (byte ':') (slice buf.buffer_ buf.readerIndex_ crlf) with
      | none =>
        simp only [bind_assoc]
        rfl
      | some p =>
        simp only [bind_assoc]
        rfl
  | kExpectBody => rfl
  | kGotAll => rfl

theorem processRequestLine_yields (line : Bytes) (r : HttpRequest) :
    Yields (fun f => f = .methodNotInvalid ∧ r.method_ ≠ .kInvalid) (fun _ => True)
      (processRequestLine line r) := by
  unfold processRequestLine
  cases cut (byte ' ') line with
  | none => exact yields_pure trivial
  | some p =>
    obtain ⟨method, rest⟩ := p
    refine Yields.bind (P := fun _ => True) ?_ fun known _ => ?_
    · have hcheck : Yields (fun f => f = .methodNotInvalid ∧ r.method_ ≠ .kInvalid) (fun _ => True)
          (check (r.method_ = .kInvalid) Fault.methodNotInvalid) :=
        yields_check (fun hmethod => ⟨rfl, hmethod⟩) fun _ => trivial
      exact hcheck.bind fun _ _ => yields_pure trivial
    · split
      · cases cut (byte ' ') rest with
        | none => exact yields_pure trivial
        | some p =>
          dsimp only
          split
          · split
            · exact yields_pure trivial
            · split <;> exact yields_pure trivial
          · exact yields_pure trivial
      · exact yields_pure trivial

/-- What holds at the head of the loop: while there is more to do the context is in one of
the two states in which a round makes progress. -/
structure Live (s : ParseLoop) : Prop where
  buf : ∃ q, s.buf.Represents q
  more : s.hasMore = true → s.ok = true ∧
    (s.context.state_ = .kExpectRequestLine ∨ s.context.state_ = .kExpectHeaders)

/-- The rounds that may still follow. -/
def remaining (s : ParseLoop) : ℕ := if s.hasMore then crlfs s.buf.readable + 1 else 0

/-- A round ends the loop or takes a line out of the buffer, unless `setMethod` finds a method
in the request. -/
theorem body_yields (h : s.Live) (hmore : s.hasMore = true) :
    Yields (fun f => f = .methodNotInvalid ∧ s.context.state_ = .kExpectRequestLine ∧
        s.context.request_.method_ ≠ .kInvalid)
      (fun e => e.Live ∧ e.remaining < s.remaining ∧
        (e.hasMore = true → e.context.state_ = .kExpectHeaders))
      (s.body receiveTime) := by
  obtain ⟨⟨q, hq⟩, hlive⟩ := h
  obtain ⟨hok, hstate⟩ := hlive hmore
  have hremaining : s.remaining = crlfs q + 1 := by rw [remaining, if_pos hmore, hq.readable_eq]
  have hstop : ∀ e : ParseLoop, e.buf.Represents q → e.hasMore = false →
      e.Live ∧ e.remaining < s.remaining ∧
        (e.hasMore = true → e.context.state_ = .kExpectHeaders) := by
    intro e he hdone
    refine ⟨⟨⟨q, he⟩, ?_⟩, ?_, ?_⟩
    · simp [hdone]
    · simp [remaining, hdone, hmore]
    · simp [hdone]
  cases hk : search q with
  | none =>
    have hnone := findCRLF_none hq hk
    rcases hstate with hstate | hstate <;> simp only [body, hstate, hnone] <;>
      exact yields_pure (hstop _ hq rfl)
  | some k =>
    have hcrlf := findCRLF_of hq hk
    obtain ⟨b₁, hb₁, hrep⟩ := retrieve_line hq hk
    have hless := crlfs_of_search hk
    rcases hstate with hstate | hstate
    · simp only [body, hstate, hcrlf]
      refine Yields.bind (P := fun _ => True) ((processRequestLine_yields _ _).mono ?_ fun _ h => h) ?_
      · rintro f ⟨rfl, hmethod⟩
        exact ⟨rfl, trivial, hmethod⟩
      · rintro ⟨ok, r⟩ -
        cases ok with
        | false => exact yields_pure (hstop _ hq rfl)
        | true =>
          simp only [if_true, hb₁, mapError_ok, ok_bind]
          refine yields_pure ⟨⟨⟨_, hrep⟩, fun _ => ⟨rfl, Or.inr rfl⟩⟩, ?_, fun _ => rfl⟩
          rw [hremaining, remaining, if_pos hmore, hrep.readable_eq]
          omega
    · simp only [body, hstate, hcrlf]
      cases cut (byte ':') (slice s.buf.buffer_ s.buf.readerIndex_ (s.buf.readerIndex_ + k)) with
      | some p =>
        simp only [hb₁, mapError_ok, ok_bind]
        refine yields_pure ⟨⟨⟨_, hrep⟩, fun _ => ⟨hok, Or.inr rfl⟩⟩, ?_, fun _ => rfl⟩
        rw [hremaining, remaining, if_pos hmore, hrep.readable_eq]
        omega
      | none =>
        simp only [hb₁, mapError_ok, ok_bind]
        refine yields_pure ⟨⟨⟨_, hrep⟩, by simp⟩, ?_, by simp⟩
        simp [remaining, hmore]

theorem body_progress (s : ParseLoop) (u : Unit) (e : ParseLoop) (h : s.Live)
    (hmore : (machine receiveTime).enabled s u) (hs : (machine receiveTime).step s u = .ok e) :
    e.Live ∧ e.remaining < s.remaining := by
  obtain ⟨hlive, hless, -⟩ := (body_yields h hmore).of_ok hs
  exact ⟨hlive, hless⟩

theorem ended_of_not_more (h : (machine receiveTime).Run s rounds e) (hdone : s.hasMore = false) :
    rounds = [] := by
  cases rounds with
  | nil => rfl
  | cons u rounds =>
    obtain ⟨-, hmore, -⟩ := h.uncons
    exact absurd (hdone.symm.trans hmore) (by simp)

/-- `parseRequest` goes the rounds of the loop. -/
theorem parseLoop_run (fuel : ℕ) (h : (machine receiveTime).Run s rounds e) (hs : s.Live)
    (hmore : s.hasMore = true) :
    parseLoop receiveTime (fuel + rounds.length) s.buf s.context =
      if e.hasMore then parseLoop receiveTime fuel e.buf e.context
      else pure (e.ok, e.buf, e.context) := by
  induction rounds generalizing s with
  | nil =>
    obtain rfl := h.eq_of_nil
    rw [if_pos hmore]
    rfl
  | cons u rounds ih =>
    obtain ⟨m, -, hm, hrest⟩ := h.uncons
    have hbody : s.body receiveTime = .ok m := hm
    obtain ⟨hlive, -⟩ := body_progress s u m hs hmore hm
    rw [List.length_cons, ← Nat.add_assoc, parseLoop_succ (hs.more hmore).1 hmore, hbody, ok_bind]
    cases hgo : m.hasMore with
    | true =>
      rw [if_pos rfl]
      exact ih hrest hlive hgo
    | false =>
      obtain rfl := ended_of_not_more hrest hgo
      obtain rfl := hrest.eq_of_nil
      rw [hgo]
      rfl

/-- Only the first round can be at a request line whose method is already there. -/
theorem head_of_run (h : (machine receiveTime).Run s rounds e) (hs : s.Live)
    (hmore : e.hasMore = true) : e = s ∨ e.context.state_ = .kExpectHeaders := by
  have hall : e.Live ∧ (e.hasMore = true → e = s ∨ e.context.state_ = .kExpectHeaders) := by
    refine h.invariant (I := fun t => t.Live ∧
      (t.hasMore = true → t = s ∨ t.context.state_ = .kExpectHeaders)) ?_ ⟨hs, fun _ => Or.inl rfl⟩
    rintro t u t' ⟨ht, -⟩ hgo hstep
    obtain ⟨hlive, -, hheaders⟩ := (body_yields ht hgo).of_ok hstep
    exact ⟨hlive, fun hmore => Or.inr (hheaders hmore)⟩
  exact hall.2 hmore

end ParseLoop

namespace HttpConnection

variable {httpCallback_ : List HttpRequest → HttpResponse → HttpResponse}
  {s : HttpConnection} {b : Buffer} {q : Bytes}

/-- What `onMessage` finds in the context when it calls `parseRequest`. -/
theorem state_of_reachable (h : (machine httpCallback_).Reachable s) :
    s.context.state_ = .kExpectRequestLine ∨ s.context.state_ = .kExpectHeaders := by
  obtain ⟨stream, done, -, q, -, hplace⟩ := follows_of_reachable h
  cases hplace with
  | reading ready requests same => exact ready.imp_left And.left
  | refused last ready again same => exact ready.imp_left And.left
  | poisoned last state method k line space same => exact Or.inl state

theorem enter_live (h : (machine httpCallback_).Reachable s) (hb : b.Represents q) :
    (ParseLoop.enter b s.context).Live :=
  ⟨⟨q, hb⟩, fun _ => ⟨rfl, state_of_reachable h⟩⟩

section Termination

open ParseLoop (enter)

/-- On any buffer the loop has at most one round more than there are CR LF, none of them
starts in a state in which nothing is done, and the loop ends: with the result of
`parseRequest`, or in the assertion of `setMethod` when a method has been left behind. -/
theorem parseRequest_terminates (h : (machine httpCallback_).Reachable s) (hb : b.Represents q)
    (receiveTime : ℤ) :
    (∀ rounds e, (ParseLoop.machine receiveTime).Run (enter b s.context) rounds e →
      rounds.length ≤ crlfs q + 1 ∧
      (e.hasMore = true → rounds.length + 1 ≤ crlfs q + 1 ∧
        e.context.state_ ≠ .kExpectBody ∧ e.context.state_ ≠ .kGotAll)) ∧
    ∃ rounds e, (ParseLoop.machine receiveTime).Run (enter b s.context) rounds e ∧
      (e.hasMore = false ∧
          parseRequest b s.context receiveTime = .ok (e.ok, e.buf, e.context) ∨
        s.Poisoned ∧ e.body receiveTime = .error .methodNotInvalid ∧
          parseRequest b s.context receiveTime = .error .methodNotInvalid) := by
  have hlive := enter_live h hb
  have hstart : (enter b s.context).remaining = crlfs q + 1 := by
    rw [← hb.readable_eq]
    rfl
  have hbound : ∀ {rounds e}, (ParseLoop.machine receiveTime).Run (enter b s.context) rounds e →
      e.Live ∧ rounds.length + e.remaining ≤ crlfs q + 1 := by
    intro rounds e hrun
    rw [← hstart]
    exact hrun.length_add_le ParseLoop.body_progress hlive
  constructor
  · intro rounds e hrun
    obtain ⟨he, hle⟩ := hbound hrun
    refine ⟨by omega, fun hmore => ?_⟩
    have hone : 1 ≤ e.remaining := by simp [ParseLoop.remaining, hmore]
    refine ⟨by omega, ?_⟩
    rcases (he.more hmore).2 with hstate | hstate <;> simp [hstate]
  · obtain ⟨rounds, e, hrun, hend⟩ :=
      exists_run_to_end (M := ParseLoop.machine receiveTime) ParseLoop.body_progress () hlive
    obtain ⟨he, hle⟩ := hbound hrun
    have hcount := crlfs_le_length q
    obtain ⟨fuel, hfuel⟩ : ∃ fuel, b.readableBytes + 1 = fuel + rounds.length :=
      ⟨b.readableBytes + 1 - rounds.length, by rw [hb.readableBytes_eq]; omega⟩
    have hparse : parseRequest b s.context receiveTime = _ :=
      (congrArg (parseLoop receiveTime · b s.context) hfuel).trans
        (ParseLoop.parseLoop_run fuel hrun hlive rfl)
    refine ⟨rounds, e, hrun, ?_⟩
    cases hmore : e.hasMore with
    | false =>
      rw [hmore] at hparse
      exact Or.inl ⟨rfl, hparse⟩
    | true =>
      obtain ⟨f, hf⟩ := hend hmore
      obtain ⟨rfl, hstate, hmethod⟩ := (ParseLoop.body_yields he hmore).of_error hf
      have hfirst : e.context = s.context := by
        rcases ParseLoop.head_of_run hrun hlive hmore with heq | hheaders
        · rw [heq]
          rfl
        · cases hstate.symm.trans hheaders
      have hone : 1 ≤ e.remaining := by simp [ParseLoop.remaining, hmore]
      obtain ⟨fuel, rfl⟩ : ∃ n, fuel = n + 1 :=
        ⟨fuel - 1, by rw [hb.readableBytes_eq] at hfuel; omega⟩
      have hbody : e.body receiveTime = .error .methodNotInvalid := hf
      rw [hfirst] at hstate hmethod
      refine Or.inr ⟨⟨hstate, hmethod⟩, hbody, ?_⟩
      rw [hparse, if_pos hmore, ParseLoop.parseLoop_succ (he.more hmore).1 hmore, hbody]
      rfl

/-- Three CR LF, of which the last is left in the buffer. -/
theorem parseRequest_terminates_sample :
    ∃ b : Buffer, b.Represents (bytes "GET / HTTP/1.1\r\n\r\n\r\n") ∧
      ∀ rounds e, (ParseLoop.machine 0).Run (enter b new.context) rounds e → rounds.length ≤ 4 := by
  have hreach : (machine fun _ r => r).Reachable new := ⟨new, [], rfl, Run.nil new⟩
  obtain ⟨b, -, hb⟩ := Buffer.new_represents.append (bytes "GET / HTTP/1.1\r\n\r\n\r\n")
  refine ⟨b, hb, fun rounds e hrun => ?_⟩
  have hcount : crlfs (bytes "GET / HTTP/1.1\r\n\r\n\r\n") = 3 := by decide +kernel
  have hle := ((parseRequest_terminates hreach hb 0).1 rounds e hrun).1
  rwa [List.nil_append, hcount] at hle

end Termination

end HttpConnection

end MuduoServer
