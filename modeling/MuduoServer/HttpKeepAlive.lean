import MuduoServer.HttpGrammar
import MuduoServer.HttpSegmentation

/-!
Requests that follow each other on one connection. Between two requests the parser keeps the
version of the last one, since `swap` leaves it out; the next request line writes over it.
So two parsers at the same place of a request differ before its request line at most, and the
callback is given the same request after any others as on a connection of its own.
-/
namespace MuduoServer

open FaultMachine FaultMachine.Machine CrlfLines Block
open HttpRequest (Fault)

namespace HttpConnection

/-- The request that `onMessage` hands to `onRequest` after a read, its time included. -/
def requestOf (c : HttpConnection) (read : Bytes × ℤ) : Except Fault (Option HttpRequest) := do
  let buf ← (c.inputBuffer_.readFd (.bytes read.1)).mapError .buffer
  let parsed ← parseRequest buf c.context read.2
  pure (if parsed.2.2.state_ = .kGotAll then some parsed.2.2.request_ else none)

variable (httpCallback_ : List HttpRequest → HttpResponse → HttpResponse)

/-- The requests that the callback is given in a run over `reads`. -/
def requestsOf : HttpConnection → List (Bytes × ℤ) → Except Fault (List HttpRequest)
  | _, [] => pure []
  | c, read :: reads => do
      let request ← c.requestOf read
      let c ← c.step httpCallback_ read
      let requests ← requestsOf c reads
      pure (request.toList ++ requests)

end HttpConnection

/-- Two parsers of which nothing but what a request line overwrites may differ, in front of
the bytes `rest` of a request. -/
inductive Alike (rest : Bytes) (c c' : HttpContext) : Prop
  | line (head : RequestHead) (state : c.state_ = .kExpectRequestLine)
      (state' : c'.state_ = .kExpectRequestLine) (clean : c.request_.Clean)
      (clean' : c'.request_.Clean) (text : rest = head.text ++ crlf)
  | headers (fields : List (Bytes × Bytes)) (state : c.state_ = .kExpectHeaders) (same : c = c')
      (lines : ∀ f ∈ fields, IsHeader f) (text : rest = headerText fields ++ crlf)

/-- Both parsers wait for the bytes `d`, or they have got the same request and `d` is empty. -/
inductive ParsedAlike (d : Bytes) : Bool × Buffer × HttpContext → Bool × Buffer × HttpContext → Prop
  | more {q : Bytes} {b b' : Buffer} {c c' : HttpContext} (left : b.Represents q)
      (right : b'.Represents q) (alike : Alike (q ++ d) c c') (missing : d ≠ []) :
      ParsedAlike d (true, b, c) (true, b', c')
  | got {b b' : Buffer} {c : HttpContext} (left : b.Represents []) (right : b'.Represents [])
      (state : c.state_ = .kGotAll) (complete : d = []) : ParsedAlike d (true, b, c) (true, b', c)

section Parse

variable {b b' : Buffer} {c c' : HttpContext} {q d l rest : Bytes} {k : ℕ}

/-- A complete line at the front of `q` is the first line of every longer text. -/
theorem eq_line_of_search (hk : search q = some k) (htext : q ++ d = l ++ crlf ++ rest)
    (hl : search l = none) : ∃ q₁, q = l ++ crlf ++ q₁ ∧ q₁ ++ d = rest := by
  have hlong := search_append hk d
  rw [htext, search_line hl rest, Option.some.injEq] at hlong
  obtain ⟨-, hq⟩ := eq_of_search hk
  have htake : q.take k = l := by
    have hlen := search_bound hk
    have hfront := congrArg (List.take k) htext
    rw [List.take_append_of_le_length (by omega), List.append_assoc, ← hlong, List.take_left]
      at hfront
    exact hlong ▸ hfront
  rw [htake] at hq
  refine ⟨q.drop (k + 2), hq, ?_⟩
  rw [hq, List.append_assoc] at htext
  exact List.append_cancel_left htext

theorem missing_of_search (hq : search q = none) (htext : q ++ d = l ++ crlf ++ rest)
    (hl : search l = none) : d ≠ [] := by
  rintro rfl
  rw [List.append_nil] at htext
  rw [htext, search_line hl rest] at hq
  cases hq

theorem parseLoop_requestLine (receiveTime : ℤ) (fuel : ℕ) (head : RequestHead)
    (h : b.Represents (requestLine head.method head.path head.version ++ crlf ++ q))
    (hstate : c.state_ = .kExpectRequestLine) (hclean : c.request_.Clean) :
    ∃ b₁, b₁.Represents q ∧ parseLoop receiveTime (fuel + 1) b c =
      parseLoop receiveTime fuel b₁
        { state_ := .kExpectHeaders
          request_ :=
            { HttpRequest.new with
              method_ := head.method
              path_ := head.path
              version_ := head.version
              receiveTime_ := receiveTime } } := by
  obtain ⟨k, b₁, hcrlf, hline, hb₁, hrep⟩ := first_line h head.one_line
  refine ⟨b₁, hrep, ?_⟩
  have hrequest := HttpRequest.processRequestLine_text hclean.method head.method_known
    head.version_known head.path_word
  have hheaders : c.request_.headers_ = HttpRequest.new.headers_ := hclean.headers
  simp only [parseLoop, hstate, hcrlf, hline, hrequest, ok_bind, if_true, hb₁, mapError_ok,
    hheaders]

/-- Parsing keeps two parsers alike until they have got the same request. -/
theorem Alike.parse (receiveTime : ℤ) (fuel : ℕ) (h : Alike (q ++ d) c c')
    (hb : b.Represents q) (hb' : b'.Represents q) (hfuel : q.length < fuel) :
    ∃ x x', parseLoop receiveTime fuel b c = .ok x ∧ parseLoop receiveTime fuel b' c' = .ok x' ∧
      ParsedAlike d x x' := by
  induction fuel generalizing b b' c c' q with
  | zero => omega
  | succ fuel ih =>
    have hpause : ∀ {c c' : HttpContext} {l rest : Bytes}, Alike (q ++ d) c c' → search q = none →
        (c.state_ = .kExpectRequestLine ∨ c.state_ = .kExpectHeaders) →
        (c'.state_ = .kExpectRequestLine ∨ c'.state_ = .kExpectHeaders) →
        q ++ d = l ++ crlf ++ rest → search l = none →
        ∃ x x', parseLoop receiveTime (fuel + 1) b c = .ok x ∧
          parseLoop receiveTime (fuel + 1) b' c' = .ok x' ∧ ParsedAlike d x x' := by
      intro c c' l rest halike hq hstate hstate' htext hl
      exact ⟨_, _, parseLoop_pause receiveTime fuel hb hq hstate,
        parseLoop_pause receiveTime fuel hb' hq hstate',
        .more hb hb' halike (missing_of_search hq htext hl)⟩
    cases h with
    | line head state state' clean clean' text =>
      have htext : q ++ d = requestLine head.method head.path head.version ++ crlf ++
          (headerText head.fields ++ crlf) := by
        rw [text, RequestHead.text, List.append_assoc]
      cases hk : search q with
      | none =>
        exact hpause (.line head state state' clean clean' text) hk (Or.inl state) (Or.inl state')
          htext head.one_line
      | some k =>
        obtain ⟨q₁, rfl, hrest⟩ := eq_line_of_search hk htext head.one_line
        obtain ⟨b₁, hb₁, hloop⟩ := parseLoop_requestLine receiveTime fuel head hb state clean
        obtain ⟨b₁', hb₁', hloop'⟩ := parseLoop_requestLine receiveTime fuel head hb' state' clean'
        rw [hloop, hloop']
        refine ih (.headers head.fields rfl rfl head.field_lines hrest) hb₁ hb₁' ?_
        simp only [List.length_append, crlf, List.length_cons] at hfuel
        omega
    | headers fields state same lines text =>
      subst same
      cases fields with
      | nil =>
        have htext : q ++ d = [] ++ crlf ++ [] := by simpa [headerText] using text
        cases hk : search q with
        | none =>
          exact hpause (.headers [] state rfl lines text) hk (Or.inr state) (Or.inr state) htext
            rfl
        | some k =>
          obtain ⟨q₁, rfl, hrest⟩ := eq_line_of_search hk htext rfl
          obtain ⟨rfl, rfl⟩ := List.append_eq_nil_iff.mp hrest
          obtain ⟨b₁, hb₁, hloop⟩ := parseLoop_end receiveTime fuel hb rfl (by simp) state
          obtain ⟨b₁', hb₁', hloop'⟩ := parseLoop_end receiveTime fuel hb' rfl (by simp) state
          exact ⟨_, _, hloop, hloop', .got hb₁ hb₁' rfl rfl⟩
      | cons f fields =>
        have hf := lines f List.mem_cons_self
        have htext : q ++ d = headerLine f ++ crlf ++ (headerText fields ++ crlf) := by
          rw [text, headerText, List.flatMap_cons, ← headerText, List.append_assoc]
        cases hk : search q with
        | none =>
          exact hpause (.headers (f :: fields) state rfl lines text) hk (Or.inr state)
            (Or.inr state) htext hf.2
        | some k =>
          obtain ⟨q₁, rfl, hrest⟩ := eq_line_of_search hk htext hf.2
          obtain ⟨b₁, hb₁, hloop⟩ := parseLoop_header receiveTime fuel hb hf state
          obtain ⟨b₁', hb₁', hloop'⟩ := parseLoop_header receiveTime fuel hb' hf state
          rw [hloop, hloop']
          have hrestLines : ∀ g ∈ fields, IsHeader g :=
            fun g hg => lines g (List.mem_cons_of_mem _ hg)
          refine ih (.headers fields state rfl hrestLines hrest) hb₁ hb₁' ?_
          simp only [List.length_append, crlf, List.length_cons] at hfuel
          omega

end Parse

namespace HttpConnection

variable {httpCallback_ : List HttpRequest → HttpResponse → HttpResponse}
  {s s' : HttpConnection} {q : Bytes} {read : Bytes × ℤ} {reads : List (Bytes × ℤ)}

/-- What is recorded of a run is what the callback was given, the times apart. -/
theorem dispatched_of_requestOf (hs : s.step httpCallback_ read = .ok s') :
    ∃ request, s.requestOf read = .ok request ∧
      s'.answers.dispatched = s.answers.dispatched ++ (request.map HttpRequest.timeless).toList := by
  simp only [step, bind_eq_ok, mapError_ok_iff] at hs
  obtain ⟨b, hb, hs⟩ := hs
  simp only [onMessage, bind_eq_ok] at hs
  obtain ⟨parsed, hparse, hs⟩ := hs
  refine ⟨_, by simp only [requestOf, hb, mapError_ok, ok_bind, hparse]; rfl, ?_⟩
  have hanswers : (if parsed.1 then s.answers else s.answers.badRequest).dispatched =
      s.answers.dispatched := by
    split
    · rfl
    · exact HttpAnswers.send_dispatched _
  split at hs
  · rename_i hgot
    obtain rfl := Except.ok.inj hs
    rw [if_pos hgot, Option.map_some, Option.toList_some, ← hanswers]
    exact HttpAnswers.onRequest_dispatched _
  · rename_i hgot
    obtain rfl := Except.ok.inj hs
    rw [if_neg hgot, hanswers]
    simp

/-- Nothing is buffered and the parser is before a request line. -/
structure Idle (s : HttpConnection) : Prop where
  empty : s.inputBuffer_.Represents []
  state : s.context.state_ = .kExpectRequestLine
  clean : s.context.request_.Clean

theorem new_idle : new.Idle := ⟨Buffer.new_represents, rfl, HttpRequest.clean_new⟩

/-- The request `head` comes in reads of its own. -/
structure DeliveredIn (head : RequestHead) (reads : List (Bytes × ℤ)) : Prop where
  text : (reads.map Prod.fst).flatten = head.text ++ crlf
  nonempty : ∀ read ∈ reads, read.1 ≠ []

/-- The reads that complete a request hand the same one to the callback on both
connections, and leave both idle. -/
theorem requestsOf_alike (hs : s.inputBuffer_.Represents q) (hs' : s'.inputBuffer_.Represents q)
    (h : Alike (q ++ (reads.map Prod.fst).flatten) s.context s'.context)
    (hreads : ∀ read ∈ reads, read.1 ≠ []) (hmissing : reads ≠ []) :
    ∃ request e e', (machine httpCallback_).Run s reads e ∧ e.Idle ∧
      (machine httpCallback_).Run s' reads e' ∧ e'.Idle ∧
      s.requestsOf httpCallback_ reads = .ok [request] ∧
      s'.requestsOf httpCallback_ reads = .ok [request] := by
  induction reads generalizing s s' q with
  | nil => exact absurd rfl hmissing
  | cons read reads ih =>
    obtain ⟨b, hb, hrep⟩ := hs.readFd read.1
    obtain ⟨b', hb', hrep'⟩ := hs'.readFd read.1
    rw [List.map_cons, List.flatten_cons, ← List.append_assoc] at h
    obtain ⟨x, x', hparse, hparse', halike⟩ :=
      h.parse read.2 ((q ++ read.1).length + 1) hrep hrep' (by omega)
    have hp : parseRequest b s.context read.2 = .ok x := by
      rw [parseRequest, hrep.readableBytes_eq, hparse]
    have hp' : parseRequest b' s'.context read.2 = .ok x' := by
      rw [parseRequest, hrep'.readableBytes_eq, hparse']
    have hread := hreads read List.mem_cons_self
    have hrest : ∀ r ∈ reads, r.1 ≠ [] := fun r hr => hreads r (List.mem_cons_of_mem _ hr)
    cases halike with
    | @more q₁ b₁ b₁' c₁ c₁' left right alike missing =>
      have hpending : c₁.state_ ≠ .kGotAll ∧ c₁'.state_ ≠ .kGotAll := by
        cases alike with
        | line head state state' => simp [state, state']
        | headers fields state same => simp [state, ← same]
      have hreadsNe : reads ≠ [] := by
        rintro rfl
        exact missing rfl
      have hstep : s.step httpCallback_ read =
          .ok { context := c₁, inputBuffer_ := b₁, answers := s.answers } := by
        rw [step_of_parsed hb hp, afterParse, if_neg hpending.1, if_pos rfl]
      have hstep' : s'.step httpCallback_ read =
          .ok { context := c₁', inputBuffer_ := b₁', answers := s'.answers } := by
        rw [step_of_parsed hb' hp', afterParse, if_neg hpending.2, if_pos rfl]
      obtain ⟨request, e, e', hrun, hidle, hrun', hidle', hreq, hreq'⟩ :=
        ih (s := ⟨c₁, b₁, s.answers⟩) left
          (show (⟨c₁', b₁', s'.answers⟩ : HttpConnection).inputBuffer_.Represents q₁ from right)
          alike hrest hreadsNe
      refine ⟨request, e, e', Run.cons hread hstep hrun, hidle, Run.cons hread hstep' hrun',
        hidle', ?_, ?_⟩
      · simp [requestsOf, requestOf, hb, hp, hpending.1, hstep, hreq, pure, Except.pure]
      · simp [requestsOf, requestOf, hb', hp', hpending.2, hstep', hreq', pure, Except.pure]
    | @got b₁ b₁' c₁ left right state complete =>
      have hnil : reads = [] := by
        cases reads with
        | nil => rfl
        | cons r reads =>
          rw [List.map_cons, List.flatten_cons] at complete
          exact absurd (List.append_eq_nil_iff.mp complete).1 (hrest r List.mem_cons_self)
      subst hnil
      have hstep : s.step httpCallback_ read = .ok (s.afterParse httpCallback_ true b₁ c₁) :=
        step_of_parsed hb hp
      have hstep' : s'.step httpCallback_ read = .ok (s'.afterParse httpCallback_ true b₁' c₁) :=
        step_of_parsed hb' hp'
      refine ⟨c₁.request_, _, _, Run.cons hread hstep (Run.nil _), ?_,
        Run.cons hread hstep' (Run.nil _), ?_, ?_, ?_⟩
      · rw [afterParse, if_pos state]
        exact ⟨left, rfl, HttpRequest.clean_swapped _⟩
      · rw [afterParse, if_pos state]
        exact ⟨right, rfl, HttpRequest.clean_swapped _⟩
      · simp [requestsOf, requestOf, hb, hp, state, hstep, pure, Except.pure]
      · simp [requestsOf, requestOf, hb', hp', state, hstep', pure, Except.pure]

section Requests

variable (httpCallback_)

/-- Two idle connections hand the same request to the callback and are idle again. -/
theorem Idle.requestsOf (h : s.Idle) (h' : s'.Idle) {head : RequestHead}
    (hreads : DeliveredIn head reads) :
    ∃ request e, (machine httpCallback_).Run s reads e ∧ e.Idle ∧
      s.requestsOf httpCallback_ reads = .ok [request] ∧
      s'.requestsOf httpCallback_ reads = .ok [request] := by
  have halike : Alike ([] ++ (reads.map Prod.fst).flatten) s.context s'.context :=
    .line head h.state h'.state h.clean h'.clean hreads.text
  have hmissing : reads ≠ [] := by
    rintro rfl
    have hlen := congrArg List.length hreads.text
    simp [crlf] at hlen
  obtain ⟨request, e, -, hrun, hidle, -, -, hreq, hreq'⟩ :=
    requestsOf_alike h.empty h'.empty halike hreads.nonempty hmissing
  exact ⟨request, e, hrun, hidle, hreq, hreq'⟩

variable {before : List (RequestHead × List (Bytes × ℤ))}

/-- After any requests the connection is idle. -/
theorem idle_after (h : s.Idle) (hbefore : ∀ r ∈ before, DeliveredIn r.1 r.2) :
    ∃ e, (machine httpCallback_).Run s (before.flatMap Prod.snd) e ∧ e.Idle := by
  induction before generalizing s with
  | nil => exact ⟨s, Run.nil s, h⟩
  | cons r before ih =>
    obtain ⟨-, e, hrun, hidle, -, -⟩ :=
      h.requestsOf httpCallback_ h (hbefore r List.mem_cons_self)
    obtain ⟨e', hrest, hidle'⟩ := ih hidle fun r' hr' => hbefore r' (List.mem_cons_of_mem _ hr')
    exact ⟨e', hrun.append hrest, hidle'⟩

end Requests

section Independence

/-- After any requests on the connection the callback is given the same request as when it
is the first one. -/
theorem requests_independent {requests : List (RequestHead × List (Bytes × ℤ))}
    (hrequests : ∀ r ∈ requests, DeliveredIn r.1 r.2) (k : Fin requests.length) :
    ∃ s request,
      (machine httpCallback_).Run new ((requests.take k).flatMap Prod.snd) s ∧
      s.requestsOf httpCallback_ requests[k].2 = .ok [request] ∧
      new.requestsOf httpCallback_ requests[k].2 = .ok [request] := by
  obtain ⟨s, hrun, hidle⟩ := idle_after httpCallback_ new_idle
    fun r hr => hrequests r (List.mem_of_mem_take hr)
  obtain ⟨request, -, -, -, hreq, hnew⟩ :=
    hidle.requestsOf httpCallback_ new_idle (hrequests _ (List.getElem_mem k.isLt))
  exact ⟨s, request, hrun, hreq, hnew⟩

/-- A request of the older version with a header line. -/
def sampleOlder : RequestHead where
  method := .kPost
  path := bytes "/a"
  version := .kHttp10
  fields := [(bytes "Connection", bytes " Keep-Alive")]
  method_known := by decide
  version_known := by decide
  path_word := by decide
  one_line := by decide
  field_lines := by
    intro f hf
    obtain rfl := List.mem_singleton.mp hf
    exact ⟨by decide, by decide⟩

def sampleOlderReads : List (Bytes × ℤ) :=
  [(bytes "POST /a HTTP/1.0\r\nConn", 3), (bytes "ection: Keep-Alive\r\n\r\n", 4)]

def sampleReads : List (Bytes × ℤ) := [(bytes "GET / HTTP/1.1\r", 5), (bytes "\n\r\n", 6)]

theorem requests_independent_sample :
    ∃ s request, (machine fun _ r => r).Run new sampleOlderReads s ∧
      s.requestsOf (fun _ r => r) sampleReads = .ok [request] ∧
      new.requestsOf (fun _ r => r) sampleReads = .ok [request] := by
  have hrequests : ∀ r ∈ [(sampleOlder, sampleOlderReads), (sampleHead, sampleReads)],
      DeliveredIn r.1 r.2 := by
    intro r hr
    rcases List.mem_cons.mp hr with rfl | hr
    · exact ⟨by decide +kernel, by decide +kernel⟩
    · obtain rfl := List.mem_singleton.mp hr
      exact ⟨by decide +kernel, by decide +kernel⟩
  exact requests_independent hrequests ⟨1, by decide⟩

end Independence

end HttpConnection

end MuduoServer
