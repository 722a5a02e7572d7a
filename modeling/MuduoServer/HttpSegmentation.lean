import MuduoServer.HttpParsing

/-!
A connection of `HttpServer` and the stream it has received so far. One call of
`onMessage` handles one item of the stream, and the callback is not called again for the
items that are left in the buffer. So the answers follow the stream when a read completes
one item at most, and nothing follows a malformed line that has left a method behind.
-/
namespace MuduoServer

open FaultMachine FaultMachine.Machine CrlfLines
open HttpRequest (Fault)

variable (httpCallback_ : List HttpRequest → HttpResponse → HttpResponse)

namespace HttpAnswers

def handle (o : HttpAnswers) : Item → HttpAnswers
  | .request r => o.onRequest httpCallback_ r
  | .badLine _ => o.badRequest

/-- The answers to a list of items. -/
def outcome (is : List Item) : HttpAnswers := is.foldl (handle httpCallback_) new

variable {httpCallback_} {o : HttpAnswers}

theorem outcome_snoc (is : List Item) (x : Item) :
    outcome httpCallback_ (is ++ [x]) = (outcome httpCallback_ is).handle httpCallback_ x := by
  simp [outcome]

theorem outcome_badLine (is : List Item) (known : Bool) :
    outcome httpCallback_ (is ++ [.badLine known]) = (outcome httpCallback_ is).badRequest :=
  outcome_snoc is (.badLine known)

theorem badRequest_of_not_connected (h : o.connected = false) : o.badRequest = o := by
  cases o
  simp_all [badRequest, send, shutdown]

theorem badRequest_connected : o.badRequest.connected = false := rfl

theorem send_dispatched (message : Bytes) : (o.send message).dispatched = o.dispatched := by
  unfold send
  split <;> rfl

theorem onRequest_dispatched (req : HttpRequest) :
    (o.onRequest httpCallback_ req).dispatched = o.dispatched ++ [req.timeless] := by
  unfold onRequest
  dsimp only
  split
  · exact send_dispatched _
  · exact send_dispatched _

theorem handle_dispatched (x : Item) :
    (o.handle httpCallback_ x).dispatched.length =
      o.dispatched.length + if x.isRequest then 1 else 0 := by
  cases x with
  | request r => simp [handle, onRequest_dispatched, Item.isRequest]
  | badLine known =>
    simp [handle, badRequest, shutdown, send_dispatched, Item.isRequest]

theorem outcome_dispatched (is : List Item) :
    (outcome httpCallback_ is).dispatched.length = is.countP Item.isRequest := by
  induction is using List.reverseRecOn with
  | nil => rfl
  | append_singleton is x ih =>
    rw [outcome_snoc, handle_dispatched, ih, List.countP_append, List.countP_singleton]

/-- A malformed line is answered just when the connection is connected. -/
theorem badRequest_eq_iff : o.badRequest = o ↔ o.connected = false := by
  constructor
  · intro heq
    rw [← heq]
    rfl
  · exact badRequest_of_not_connected

end HttpAnswers

namespace HttpConnection

open HttpAnswers (outcome)

variable {httpCallback_} {s s' : HttpConnection} {stream chunk : Bytes} {done : List Item}

/-- A malformed request line with a known method is at the front of the buffer, and its
method is still set. -/
def Poisoned (s : HttpConnection) : Prop :=
  s.context.state_ = .kExpectRequestLine ∧ s.context.request_.method_ ≠ .kInvalid

/-- Where the parser is in `stream` when the items `done` have been handled and the bytes
`q` are buffered. -/
inductive Place (c : HttpContext) (q stream : Bytes) (done : List Item) : Prop
  | reading (ready : c.Ready) (requests : ∀ x ∈ done, x.isRequest = true)
      (same : ∀ d, items (stream ++ d) = done ++ c.itemsFrom (q ++ d))
  | refused (last : done.getLast? = some (.badLine false)) (ready : c.Ready)
      (again : ∀ d, c.itemsFrom (q ++ d) = [.badLine false])
      (same : ∀ d, items (stream ++ d) = done)
  | poisoned (last : done.getLast? = some (.badLine true))
      (state : c.state_ = .kExpectRequestLine) (method : c.request_.method_ ≠ .kInvalid)
      (k : ℕ) (line : search q = some k) (space : (cut (byte ' ') (q.take k)).isSome)
      (same : ∀ d, items (stream ++ d) = done)

/-- The connection has received `stream` and answered the items `done` of it. -/
structure Follows (httpCallback_ : List HttpRequest → HttpResponse → HttpResponse)
    (s : HttpConnection) (stream : Bytes) (done : List Item) : Prop where
  answers : s.answers = outcome httpCallback_ done
  place : ∃ q, s.inputBuffer_.Represents q ∧ Place s.context q stream done

instance (s : HttpConnection) : Decidable s.Poisoned :=
  inferInstanceAs (Decidable (_ ∧ _))

instance (s : HttpConnection) (read : Bytes × ℤ) :
    Decidable ((machine httpCallback_).enabled s read) :=
  inferInstanceAs (Decidable (read.1 ≠ []))

theorem new_follows : Follows httpCallback_ new [] [] where
  answers := rfl
  place := ⟨[], Buffer.new_represents, .reading (Or.inl ⟨rfl, HttpRequest.clean_new⟩)
    (by simp) fun d => rfl⟩

theorem not_poisoned_of_ready (h : s.context.Ready) : ¬ s.Poisoned := by
  rintro ⟨hstate, hmethod⟩
  rcases h with ⟨-, hclean⟩ | hheaders
  · exact hmethod hclean.method
  · cases hstate.symm.trans hheaders

theorem step_poisoned {q : Bytes} {k : ℕ} (hq : s.inputBuffer_.Represents q)
    (hp : s.Poisoned) (hk : search q = some k) (hspace : (cut (byte ' ') (q.take k)).isSome)
    (read : Bytes × ℤ) : s.step httpCallback_ read = .error .methodNotInvalid := by
  obtain ⟨b, hb, hrep⟩ := hq.readFd read.1
  have hlen := search_bound hk
  have hline : (q ++ read.1).take k = q.take k := List.take_append_of_le_length (by omega)
  have hloop := parseLoop_poisoned read.2 b.readableBytes hrep hp.1 hp.2
    (search_append hk read.1) (hline ▸ hspace)
  simp only [step, hb, mapError_ok, ok_bind, onMessage, parseRequest, hloop]
  rfl

/-- What the next read makes of the items handled so far: one item more, if there is one. -/
def handled (stream : Bytes) (done : List Item) : List Item :=
  (items stream).take (done.length + 1)

theorem handled_of_append {more : List Item} (h : items stream = done ++ more) :
    handled stream done = done ++ more.take 1 := by
  rw [handled, h, List.take_append, List.take_of_length_le (by omega)]
  congr 2
  omega

theorem outcome_of_refused {known : Bool} (h : done.getLast? = some (.badLine known)) :
    (outcome httpCallback_ done).connected = false := by
  obtain ⟨is, rfl⟩ := List.getLast?_eq_some_iff.mp h
  rw [HttpAnswers.outcome_snoc]
  exact HttpAnswers.badRequest_connected

/-- The connection after a call of `parseRequest` that returned `ok` and left `b'` and `c'`. -/
def afterParse (httpCallback_ : List HttpRequest → HttpResponse → HttpResponse)
    (s : HttpConnection) (ok : Bool) (b' : Buffer) (c' : HttpContext) : HttpConnection :=
  if c'.state_ = .kGotAll then
    { context := c'.reset
      inputBuffer_ := b'
      answers := (if ok then s.answers else s.answers.badRequest).onRequest
        httpCallback_ c'.request_ }
  else
    { context := c'
      inputBuffer_ := b'
      answers := if ok then s.answers else s.answers.badRequest }

theorem step_of_parsed {b b' : Buffer} {c' : HttpContext} {ok : Bool} {read : Bytes × ℤ}
    (hb : s.inputBuffer_.readFd (.bytes read.1) = .ok b)
    (hparse : parseRequest b s.context read.2 = .ok (ok, b', c')) :
    s.step httpCallback_ read = .ok (s.afterParse httpCallback_ ok b' c') := by
  simp only [step, hb, mapError_ok, ok_bind, onMessage, hparse, afterParse]
  split <;> rfl

/-- What `parseRequest` does with the next read. -/
theorem Follows.parsed (h : Follows httpCallback_ s stream done) (hnot : ¬ s.Poisoned)
    (read : Bytes × ℤ) :
    ∃ q b ok b' c' q', Place s.context q stream done ∧
      s.inputBuffer_.readFd (.bytes read.1) = .ok b ∧
      parseRequest b s.context read.2 = .ok (ok, b', c') ∧ b'.Represents q' ∧
      Parsed s.context (q ++ read.1) ok c' q' := by
  obtain ⟨-, q, hq, hplace⟩ := h
  obtain ⟨b, hb, hrep⟩ := hq.readFd read.1
  have hready : s.context.Ready := by
    cases hplace with
    | reading ready requests same => exact ready
    | refused last ready again same => exact ready
    | poisoned last state method => exact absurd ⟨state, method⟩ hnot
  have hfuel : (q ++ read.1).length < b.readableBytes + 1 := by
    rw [hrep.readableBytes_eq]
    omega
  obtain ⟨ok, b', c', q', hloop, hrep', hparsed⟩ := parseLoop_spec read.2 hrep hfuel hready
  exact ⟨q, b, ok, b', c', q', hplace, hb, hloop, hrep', hparsed⟩

section Parse
variable {q q' : Bytes} {b' : Buffer} {c' : HttpContext} {ok : Bool}

/-- The parser was inside the stream: it has found one item more, or none. -/
theorem Follows.parse_reading (hanswers : s.answers = outcome httpCallback_ done)
    (requests : ∀ x ∈ done, x.isRequest = true)
    (same : ∀ d, items (stream ++ d) = done ++ s.context.itemsFrom (q ++ d))
    (hrep : b'.Represents q') (hparsed : Parsed s.context (q ++ chunk) ok c' q') :
    Follows httpCallback_ (s.afterParse httpCallback_ ok b' c') (stream ++ chunk)
      (handled (stream ++ chunk) done) := by
  have hsame : ∀ d, items (stream ++ chunk ++ d) =
      done ++ s.context.itemsFrom (q ++ chunk ++ d) := by
    intro d
    rw [List.append_assoc, same, List.append_assoc]
  have hend := hsame []
  rw [List.append_nil, List.append_nil] at hend
  unfold afterParse
  cases hparsed with
  | more ready none same' =>
    have hnone : s.context.itemsFrom (q ++ chunk) = [] := by
      have hnil := same' []
      rw [List.append_nil, List.append_nil] at hnil
      rw [hnil, HttpContext.itemsFrom, none, itemsOf]
    have hstate : c'.state_ ≠ .kGotAll := by
      rcases ready with ⟨hline, -⟩ | hheaders
      · simp [hline]
      · simp [hheaders]
    rw [if_neg hstate, handled_of_append hend, hnone]
    refine ⟨by simpa using hanswers, q', hrep, ?_⟩
    refine .reading ready (by simpa using requests) fun d => ?_
    rw [hsame, same', List.take_nil, List.append_nil]
  | got state same' =>
    have hone : s.context.itemsFrom (q ++ chunk) =
        .request c'.request_.timeless :: items q' := by
      have hnil := same' []
      rwa [List.append_nil, List.append_nil] at hnil
    rw [if_pos state, handled_of_append hend, hone]
    refine ⟨?_, q', hrep, ?_⟩
    · rw [List.take_one, List.head?_cons, Option.toList_some, HttpAnswers.outcome_snoc, ← hanswers]
      rfl
    · refine .reading (Or.inl ⟨rfl, HttpRequest.clean_swapped _⟩) ?_ fun d => ?_
      · intro x hx
        rcases List.mem_append.mp hx with hx | hx
        · exact requests x hx
        · obtain rfl := List.mem_singleton.mp hx
          rfl
      · rw [hsame, same', itemsFrom_of_line rfl]
        simp
  | bad k state headers line space again same' =>
    have hone : s.context.itemsFrom (q ++ chunk) =
        [.badLine (c'.request_.method_ ≠ .kInvalid)] := by
      have hnil := same' []
      rwa [List.append_nil] at hnil
    have hstate : c'.state_ ≠ .kGotAll := by simp [state]
    have hall : ∀ d, items (stream ++ chunk ++ d) =
        done ++ [.badLine (c'.request_.method_ ≠ .kInvalid)] := by
      intro d
      rw [hsame, same']
    rw [if_neg hstate, handled_of_append hend, hone]
    refine ⟨?_, q', hrep, ?_⟩
    · rw [List.take_one, List.head?_cons, Option.toList_some, HttpAnswers.outcome_snoc, ← hanswers]
      rfl
    · by_cases hmethod : c'.request_.method_ = .kInvalid
      · have hready : c'.Ready := Or.inl ⟨state, hmethod, headers⟩
        exact .refused (by simp [hmethod]) hready (again hmethod) hall
      · exact .poisoned (by simp [hmethod]) state hmethod k line (space hmethod) hall

/-- A refused line is refused once more. -/
theorem Follows.parse_refused (hanswers : s.answers = outcome httpCallback_ done)
    (last : done.getLast? = some (.badLine false))
    (again : ∀ d, s.context.itemsFrom (q ++ d) = [.badLine false])
    (same : ∀ d, items (stream ++ d) = done)
    (hrep : b'.Represents q') (hparsed : Parsed s.context (q ++ chunk) ok c' q') :
    Follows httpCallback_ (s.afterParse httpCallback_ ok b' c') (stream ++ chunk)
      (handled (stream ++ chunk) done) := by
  have hfront : ∀ d, s.context.itemsFrom (q ++ chunk ++ d) = [.badLine false] := by
    intro d
    rw [List.append_assoc]
    exact again _
  have hall : ∀ d, items (stream ++ chunk ++ d) = done := by
    intro d
    rw [List.append_assoc]
    exact same _
  have hdone : handled (stream ++ chunk) done = done := by
    have hend : items (stream ++ chunk) = done ++ [] := by simpa using hall []
    rw [handled_of_append hend, List.take_nil, List.append_nil]
  rw [hdone]
  unfold afterParse
  cases hparsed with
  | more ready none same' =>
    have hnil := (hfront []).symm.trans (same' [])
    rw [List.append_nil, HttpContext.itemsFrom, none, itemsOf] at hnil
    cases hnil
  | got state same' => cases (hfront []).symm.trans (same' [])
  | bad k state headers line space again' same' =>
    have hmethod : c'.request_.method_ = .kInvalid := by
      have hknown := (hfront []).symm.trans (same' [])
      simpa using hknown
    have hstate : c'.state_ ≠ .kGotAll := by simp [state]
    have hready : c'.Ready := Or.inl ⟨state, hmethod, headers⟩
    rw [if_neg hstate]
    refine ⟨?_, q', hrep, .refused last hready (again' hmethod) hall⟩
    have hclosed : (outcome httpCallback_ done).connected = false := outcome_of_refused last
    rw [← hanswers] at hclosed
    rw [← hanswers]
    exact HttpAnswers.badRequest_of_not_connected hclosed

end Parse

/-- A call of `onMessage` handles the next item, and keeps what it has read of a further one. -/
theorem Follows.step (h : Follows httpCallback_ s stream done) (hnot : ¬ s.Poisoned)
    (read : Bytes × ℤ) :
    ∃ s', s.step httpCallback_ read = .ok s' ∧
      Follows httpCallback_ s' (stream ++ read.1) (handled (stream ++ read.1) done) := by
  obtain ⟨q, b, ok, b', c', q', hplace, hb, hloop, hrep', hparsed⟩ := h.parsed hnot read
  refine ⟨_, step_of_parsed hb hloop, ?_⟩
  cases hplace with
  | poisoned last state method => exact absurd ⟨state, method⟩ hnot
  | reading _ requests same => exact .parse_reading h.answers requests same hrep' hparsed
  | refused last _ again same => exact .parse_refused h.answers last again same hrep' hparsed

/-- `parseRequest` fails in the call that the read leads to. -/
def Refuses (s : HttpConnection) (read : Bytes × ℤ) : Prop :=
  ∃ b b' c', s.inputBuffer_.readFd (.bytes read.1) = .ok b ∧
    parseRequest b s.context read.2 = .ok (false, b', c')

theorem refuses_of_parse {read : Bytes × ℤ}
    (h : ((s.inputBuffer_.readFd (.bytes read.1)).toOption.bind fun b =>
      (parseRequest b s.context read.2).toOption.map Prod.fst) = some false) :
    s.Refuses read := by
  cases hb : s.inputBuffer_.readFd (.bytes read.1) with
  | error e => simp [hb, Except.toOption] at h
  | ok b =>
    cases hparse : parseRequest b s.context read.2 with
    | error e => simp [hb, hparse, Except.toOption] at h
    | ok parsed =>
      obtain ⟨ok, b', c'⟩ := parsed
      simp only [hb, hparse, Except.toOption, Option.bind_some, Option.map_some,
        Option.some.injEq] at h
      subst h
      exact ⟨b, b', c', hb, hparse⟩

theorem Follows.refuses (h : Follows httpCallback_ s stream done) (hnot : ¬ s.Poisoned)
    {read : Bytes × ℤ} (hrefuse : s.Refuses read) :
    ∃ known, (handled (stream ++ read.1) done).getLast? = some (.badLine known) := by
  obtain ⟨q, b, ok, b', c', q', hplace, hb, hloop, -, hparsed⟩ := h.parsed hnot read
  obtain ⟨b₁, b₂, c₂, hb₁, hfalse⟩ := hrefuse
  obtain rfl := Except.ok.inj (hb.symm.trans hb₁)
  rw [hloop, Except.ok.injEq, Prod.mk.injEq] at hfalse
  obtain ⟨rfl, -⟩ := hfalse
  cases hparsed with
  | bad k state headers line space again same' =>
    cases hplace with
    | poisoned last state method => exact absurd ⟨state, method⟩ hnot
    | reading ready requests same =>
      have hend := same' []
      rw [List.append_nil] at hend
      rw [handled_of_append (same read.1), hend]
      exact ⟨_, List.getLast?_concat⟩
    | refused last ready again same =>
      have hend : items (stream ++ read.1) = done ++ [] := by rw [same, List.append_nil]
      refine ⟨false, ?_⟩
      rw [handled_of_append hend]
      simpa using last

/-- In a poisoned state every further read fails the assertion of `setMethod`. -/
theorem Follows.step_fault (h : Follows httpCallback_ s stream done) (hp : s.Poisoned)
    (read : Bytes × ℤ) : s.step httpCallback_ read = .error .methodNotInvalid := by
  obtain ⟨-, q, hq, hplace⟩ := h
  cases hplace with
  | reading ready requests same => exact absurd hp (not_poisoned_of_ready ready)
  | refused last ready again same => exact absurd hp (not_poisoned_of_ready ready)
  | poisoned last state method k line space same => exact step_poisoned hq hp line space read

theorem Follows.step_iff (h : Follows httpCallback_ s stream done) (read : Bytes × ℤ) :
    (∃ s', s.step httpCallback_ read = .ok s') ↔ ¬ s.Poisoned := by
  constructor
  · rintro ⟨s', hs⟩ hp
    cases (h.step_fault hp read).symm.trans hs
  · intro hnot
    obtain ⟨s', hs, -⟩ := h.step hnot read
    exact ⟨s', hs⟩

/-- A malformed line that has been handled is the last item of the stream. -/
theorem Follows.items_of_refused (h : Follows httpCallback_ s stream done) {known : Bool}
    (hlast : done.getLast? = some (.badLine known)) (d : Bytes) : items (stream ++ d) = done := by
  obtain ⟨-, q, hq, hplace⟩ := h
  cases hplace with
  | reading ready requests same =>
    obtain ⟨is, rfl⟩ := List.getLast?_eq_some_iff.mp hlast
    cases requests (.badLine known) (by simp)
  | refused last ready again same => exact same d
  | poisoned last state method k line space same => exact same d

theorem Follows.next (h : Follows httpCallback_ s stream done) {read : Bytes × ℤ}
    (hs : s.step httpCallback_ read = .ok s') :
    Follows httpCallback_ s' (stream ++ read.1) (handled (stream ++ read.1) done) := by
  obtain ⟨t, ht, hfollows⟩ := h.step ((h.step_iff read).mp ⟨s', hs⟩) read
  rw [Except.ok.inj (hs.symm.trans ht)]
  exact hfollows

/-- Once a malformed line has been handled nothing more is. -/
theorem Follows.stays (h : Follows httpCallback_ s stream done) {known : Bool}
    (hlast : done.getLast? = some (.badLine known)) {read : Bytes × ℤ}
    (hs : s.step httpCallback_ read = .ok s') :
    Follows httpCallback_ s' (stream ++ read.1) done := by
  have hnext := h.next hs
  have hall : items (stream ++ read.1) = done ++ [] := by
    rw [h.items_of_refused hlast, List.append_nil]
  rwa [handled_of_append hall, List.take_nil, List.append_nil] at hnext

theorem follows_of_reachable (h : (machine httpCallback_).Reachable s) :
    ∃ stream done, Follows httpCallback_ s stream done := by
  apply h.invariant
  · rintro s₀ rfl
    exact ⟨[], [], new_follows⟩
  · rintro s read s' ⟨stream, done, hfollows⟩ - hs
    exact ⟨_, _, hfollows.next hs⟩

section Malformed

/-- A call of `onMessage` completes if and only if no malformed line has left its method
behind; and after a malformed line the connection gives no further answer. -/
theorem malformed_input (h : (machine httpCallback_).Reachable s) (read : Bytes × ℤ) :
    ((∃ s', s.step httpCallback_ read = .ok s') ↔ ¬ s.Poisoned) ∧
    (s.Refuses read → ∀ s' reads s'', s.step httpCallback_ read = .ok s' →
      (machine httpCallback_).Run s' reads s'' → s''.answers = s'.answers) := by
  obtain ⟨stream, done, hfollows⟩ := follows_of_reachable h
  refine ⟨hfollows.step_iff read, ?_⟩
  intro hrefuse s' reads s'' hs hrun
  have hnot := (hfollows.step_iff read).mp ⟨s', hs⟩
  obtain ⟨known, hlast⟩ := hfollows.refuses hnot hrefuse
  have hnext := hfollows.next hs
  have hall : ∃ stream', Follows httpCallback_ s'' stream' (handled (stream ++ read.1) done) := by
    refine hrun.invariant (I := fun t => ∃ stream', Follows httpCallback_ t stream' _) ?_
      ⟨_, hnext⟩
    rintro t read' t' ⟨stream', ht⟩ - hstep
    exact ⟨_, ht.stays hlast hstep⟩
  obtain ⟨stream', hend⟩ := hall
  rw [hend.answers, hnext.answers]

theorem malformed_input_sample :
    (∃ s', new.step (fun _ r => r) (bytes "X\r\n", 0) = .ok s') ∧
    ∀ s' reads s'', new.step (fun _ r => r) (bytes "X\r\n", 0) = .ok s' →
      (machine fun _ r => r).Run s' reads s'' → s''.answers = s'.answers := by
  have hreach : (machine fun _ r => r).Reachable new := ⟨new, [], rfl, Run.nil new⟩
  have hrefuse : new.Refuses (bytes "X\r\n", 0) := refuses_of_parse (by decide +kernel)
  obtain ⟨hok, hquiet⟩ := malformed_input hreach (bytes "X\r\n", 0)
  exact ⟨hok.mpr (by decide), hquiet hrefuse⟩

/-- The line of the first read is refused with its method stored; it is parsed again when
the next byte arrives. -/
theorem refused_line_parsed_again : ∃ s, (machine fun _ r => r).Reachable s ∧
    s.step (fun _ r => r) (bytes "X", 1) = .error .methodNotInvalid := by
  have hfault : ((new.step (fun _ r => r) (bytes "GET /a\r\n", 0)).toOption.map fun s =>
      fault? (s.step (fun _ r => r) (bytes "X", 1))) = some (some .methodNotInvalid) := by
    decide +kernel
  cases hs : new.step (fun _ r => r) (bytes "GET /a\r\n", 0) with
  | error e => simp [hs, Except.toOption] at hfault
  | ok s =>
    simp only [hs, Except.toOption, Option.map_some, Option.some.injEq] at hfault
    have hread : (machine fun _ r => r).enabled new (bytes "GET /a\r\n", 0) := by decide +kernel
    refine ⟨s, ⟨new, _, rfl, (Run.nil new).snoc hread hs⟩, ?_⟩
    exact fault?_eq_some.mp hfault

end Malformed

end HttpConnection

end MuduoServer
