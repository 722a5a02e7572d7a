import MuduoServer.HttpSegmentation

/-!
Two ways of splitting one stream into reads. At every point of a stream the answers are
those to its items just when every read brings one item at most; a malformed line that
comes together with a request that closes the connection does no harm. And nothing may be
read once the server has looked at a malformed line that leaves its method in the parser.
-/
namespace MuduoServer

open FaultMachine FaultMachine.Machine CrlfLines
open HttpRequest (Fault)

/-- A malformed line with a known method: the parser keeps the method. -/
def Item.keepsMethod : Item → Bool
  | .request _ => false
  | .badLine known => known

namespace HttpConnection

open HttpAnswers (outcome)

section Splits

variable (httpCallback_ : List HttpRequest → HttpResponse → HttpResponse)

/-- The last read, which has led from `before` to `stream`, has brought a malformed line
behind a request, so the server has not looked at the line yet. -/
def Waiting (before stream : Bytes) : Prop :=
  ∃ r known, items stream = items before ++ [.request r, .badLine known]

/-- The read brings one item at most, or a malformed line behind a request whose response
ends the connection. -/
def Fits (stream chunk : Bytes) : Prop :=
  (items (stream ++ chunk)).length ≤ (items stream).length + 1 ∨
  ∃ r known, items (stream ++ chunk) = items stream ++ [.request r, .badLine known] ∧
    (outcome httpCallback_ (items stream ++ [.request r])).connected = false

/-- A split of what follows `stream`, into which the last read has led from `before`. -/
def Orderly (before stream : Bytes) : List Bytes → Prop
  | [] => True
  | chunk :: chunks =>
      ((items stream).getLast?.any Item.keepsMethod = true → Waiting before stream) ∧
      Fits httpCallback_ stream chunk ∧ Orderly stream (stream ++ chunk) chunks

/-- The answers at every point of the split are those that the bytes received determine. -/
def Answered (s : HttpConnection) (stream : Bytes) (reads : List (Bytes × ℤ)) : Prop :=
  ∀ k ≤ reads.length, ∃ s', (machine httpCallback_).Run s (reads.take k) s' ∧
    s'.answers = outcome httpCallback_ (items (stream ++ ((reads.take k).map Prod.fst).flatten))

end Splits

variable {httpCallback_ : List HttpRequest → HttpResponse → HttpResponse}
  {s s' : HttpConnection} {before stream chunk : Bytes} {done : List Item}
  {read : Bytes × ℤ} {reads : List (Bytes × ℤ)}

/-- All items of the stream have been handled, but for a malformed line without effect. -/
def CaughtUp (httpCallback_ : List HttpRequest → HttpResponse → HttpResponse)
    (before stream : Bytes) (done : List Item) : Prop :=
  done = items stream ∧ ¬ Waiting before stream ∨
  ∃ r known, items stream = items before ++ [.request r, .badLine known] ∧
    done = items before ++ [.request r] ∧ (outcome httpCallback_ done).connected = false

theorem not_waiting_of_length (h : (items stream).length ≤ (items before).length + 1) :
    ¬ Waiting before stream := by
  rintro ⟨r, known, hitems⟩
  rw [hitems, List.length_append] at h
  simp at h

theorem CaughtUp.answers (h : CaughtUp httpCallback_ before stream done) :
    outcome httpCallback_ done = outcome httpCallback_ (items stream) := by
  rcases h with ⟨rfl, -⟩ | ⟨r, known, hitems, rfl, hclosed⟩
  · rfl
  · have hlast : items stream = items before ++ [.request r] ++ [.badLine known] := by
      rw [hitems, List.append_assoc]
      rfl
    rw [hlast, HttpAnswers.outcome_badLine]
    exact (HttpAnswers.badRequest_of_not_connected hclosed).symm

/-- The parser has kept a method just when the stream ends with such a line and the server
has looked at it. -/
theorem poisoned_iff (h : Follows httpCallback_ s stream done) :
    s.Poisoned ↔ done.getLast? = some (.badLine true) := by
  obtain ⟨-, q, hq, hplace⟩ := h
  cases hplace with
  | reading ready requests same =>
    refine iff_of_false (not_poisoned_of_ready ready) ?_
    intro hlast
    obtain ⟨is, rfl⟩ := List.getLast?_eq_some_iff.mp hlast
    cases requests (.badLine true) (by simp)
  | refused last ready again same =>
    refine iff_of_false (not_poisoned_of_ready ready) ?_
    simp [last]
  | poisoned last state method k line space same => exact iff_of_true ⟨state, method⟩ last

theorem keepsMethod_iff {is : List Item} :
    is.getLast?.any Item.keepsMethod = true ↔ is.getLast? = some (.badLine true) := by
  cases is.getLast? with
  | none => simp
  | some x =>
    cases x with
    | request r => simp [Item.keepsMethod]
    | badLine known => simp [Item.keepsMethod]

theorem CaughtUp.poisoned_iff (h : CaughtUp httpCallback_ before stream done)
    (hfollows : Follows httpCallback_ s stream done) :
    ¬ s.Poisoned ↔
      ((items stream).getLast?.any Item.keepsMethod = true → Waiting before stream) := by
  rw [HttpConnection.poisoned_iff hfollows, keepsMethod_iff]
  rcases h with ⟨rfl, hnot⟩ | ⟨r, known, hitems, rfl, -⟩
  · constructor
    · intro hlast hline
      exact absurd hline hlast
    · intro hwait hline
      exact hnot (hwait hline)
  · refine iff_of_true (by simp) ?_
    intro _
    exact ⟨r, known, hitems⟩

/-- Two answers to one request more are the same only when the rest is a malformed line on a
closed connection. -/
theorem outcome_cons_eq {is more : List Item} {x y : Item}
    (hlast : ∀ z ∈ (is ++ x :: y :: more).dropLast, z.isRequest = true) :
    outcome httpCallback_ (is ++ [x]) = outcome httpCallback_ (is ++ x :: y :: more) ↔
      ∃ r known, x = .request r ∧ y = .badLine known ∧ more = [] ∧
        (outcome httpCallback_ (is ++ [.request r])).connected = false := by
  have hx : x.isRequest = true := by
    refine hlast x ?_
    rw [List.dropLast_append_of_ne_nil (by simp)]
    simp
  constructor
  · intro heq
    have hcount : (is ++ [x]).countP Item.isRequest =
        (is ++ x :: y :: more).countP Item.isRequest := by
      have hlen := congrArg (fun o => o.dispatched.length) heq
      simpa only [HttpAnswers.outcome_dispatched] using hlen
    cases more with
    | cons z more =>
      have hy : y.isRequest = true := by
        refine hlast y ?_
        rw [List.dropLast_append_of_ne_nil (by simp)]
        simp
      simp [List.countP_append, List.countP_cons, hx, hy] at hcount
    | nil =>
      cases x with
      | badLine known => cases hx
      | request r =>
        cases y with
        | request r' => simp [List.countP_append, List.countP_cons, Item.isRequest] at hcount
        | badLine known =>
          refine ⟨r, known, rfl, rfl, rfl, ?_⟩
          have hsplit : is ++ [.request r, .badLine known] =
              is ++ [.request r] ++ [.badLine known] := by simp
          rw [hsplit, HttpAnswers.outcome_badLine] at heq
          exact HttpAnswers.badRequest_eq_iff.mp heq.symm
  · rintro ⟨r, known, rfl, rfl, rfl, hclosed⟩
    have hsplit : is ++ [.request r, .badLine known] =
        is ++ [.request r] ++ [.badLine known] := by simp
    rw [hsplit, HttpAnswers.outcome_badLine]
    exact (HttpAnswers.badRequest_of_not_connected hclosed).symm

/-- A read that brings one item at most, after which nothing is left unhandled. -/
theorem caughtUp_of_handled {chunk : Bytes}
    (hlen : (items (stream ++ chunk)).length ≤ (items stream).length + 1)
    (hdone : handled (stream ++ chunk) done = items (stream ++ chunk)) :
    (outcome httpCallback_ (handled (stream ++ chunk) done) =
        outcome httpCallback_ (items (stream ++ chunk)) ↔ Fits httpCallback_ stream chunk) ∧
    (Fits httpCallback_ stream chunk →
      CaughtUp httpCallback_ stream (stream ++ chunk) (handled (stream ++ chunk) done)) := by
  rw [hdone]
  refine ⟨iff_of_true rfl (Or.inl hlen), ?_⟩
  intro _
  exact Or.inl ⟨rfl, not_waiting_of_length hlen⟩

/-- What one read does to a connection that has caught up. -/
theorem CaughtUp.next (h : CaughtUp httpCallback_ before stream done) (chunk : Bytes) :
    (outcome httpCallback_ (handled (stream ++ chunk) done) =
        outcome httpCallback_ (items (stream ++ chunk)) ↔ Fits httpCallback_ stream chunk) ∧
    (Fits httpCallback_ stream chunk →
      CaughtUp httpCallback_ stream (stream ++ chunk) (handled (stream ++ chunk) done)) := by
  obtain ⟨more, hmore, hend⟩ := items_append stream chunk
  rcases h with ⟨rfl, -⟩ | ⟨r, known, hitems, rfl, -⟩
  · cases more with
    | nil =>
      apply caughtUp_of_handled
      · simp [hmore]
      · rw [handled_of_append hmore, hmore]
        rfl
    | cons x more =>
      cases more with
      | nil =>
        apply caughtUp_of_handled
        · simp [hmore]
        · rw [handled_of_append hmore, hmore]
          rfl
      | cons y more =>
        rw [handled_of_append hmore]
        have hlast : ∀ z ∈ (items stream ++ x :: y :: more).dropLast, z.isRequest = true := by
          rw [← hmore]
          exact isRequest_of_dropLast none _
        have hfits : Fits httpCallback_ stream chunk ↔
            ∃ r known, x = .request r ∧ y = .badLine known ∧ more = [] ∧
              (outcome httpCallback_ (items stream ++ [.request r])).connected = false := by
          unfold Fits
          rw [hmore]
          constructor
          · rintro (hlen | ⟨r, known, heq, hclosed⟩)
            · simp at hlen
            · simp only [List.append_cancel_left_eq, List.cons.injEq] at heq
              exact ⟨r, known, heq.1, heq.2.1, heq.2.2, hclosed⟩
          · rintro ⟨r, known, rfl, rfl, rfl, hclosed⟩
            exact Or.inr ⟨r, known, rfl, hclosed⟩
        refine ⟨?_, ?_⟩
        · rw [hfits, hmore]
          exact outcome_cons_eq hlast
        · intro hfit
          obtain ⟨r, known, rfl, rfl, rfl, hclosed⟩ := hfits.mp hfit
          exact Or.inr ⟨r, known, hmore, rfl, hclosed⟩
  · have hnil : more = [] := hend ⟨.badLine known, by simp [hitems], rfl⟩
    have hsame : items (stream ++ chunk) = items stream := by rw [hmore, hnil, List.append_nil]
    have happend : items (stream ++ chunk) =
        items before ++ [.request r] ++ [.badLine known] := by simp [hsame, hitems]
    apply caughtUp_of_handled
    · rw [hsame]
      omega
    · rw [handled_of_append happend, happend]
      rfl

/-- The first read of a split, and the rest of it. -/
theorem answered_cons :
    Answered httpCallback_ s stream (read :: reads) ↔
      s.answers = outcome httpCallback_ (items stream) ∧ read.1 ≠ [] ∧
        ∃ s', s.step httpCallback_ read = .ok s' ∧
          Answered httpCallback_ s' (stream ++ read.1) reads := by
  constructor
  · intro h
    obtain ⟨s₀, hrun₀, hanswers⟩ := h 0 (Nat.zero_le _)
    obtain rfl := hrun₀.eq_of_nil
    obtain ⟨s₁, hrun₁, -⟩ := h 1 (by simp)
    obtain ⟨s', hread, hs, -⟩ := hrun₁.uncons
    refine ⟨by simpa using hanswers, hread, s', hs, ?_⟩
    intro k hk
    obtain ⟨t, hrun, ht⟩ := h (k + 1) (by simpa using hk)
    obtain ⟨s₂, -, hs₂, hrest⟩ := hrun.uncons
    have heq : s' = s₂ := Except.ok.inj (hs.symm.trans hs₂)
    refine ⟨t, heq ▸ hrest, ?_⟩
    simpa using ht
  · rintro ⟨hanswers, hread, s', hs, hrest⟩ k hk
    cases k with
    | zero => exact ⟨s, Run.nil s, by simpa using hanswers⟩
    | succ k =>
      obtain ⟨t, hrun, ht⟩ := hrest k (by simpa using hk)
      refine ⟨t, Run.cons (a := read) hread hs hrun, ?_⟩
      simpa using ht

theorem answered_iff (hreads : ∀ read ∈ reads, read.1 ≠ [])
    (hfollows : Follows httpCallback_ s stream done)
    (hcaught : CaughtUp httpCallback_ before stream done) :
    Answered httpCallback_ s stream reads ↔
      Orderly httpCallback_ before stream (reads.map Prod.fst) := by
  have hanswers := hfollows.answers.trans hcaught.answers
  induction reads generalizing s before stream done with
  | nil =>
    refine iff_of_true ?_ trivial
    intro k hk
    obtain rfl : k = 0 := by simpa using hk
    exact ⟨s, Run.nil s, by simpa using hanswers⟩
  | cons read reads ih =>
    have hrest : ∀ r ∈ reads, r.1 ≠ [] := fun r hr => hreads r (List.mem_cons_of_mem _ hr)
    obtain ⟨heq, hkeep⟩ := hcaught.next read.1
    rw [answered_cons, List.map_cons, Orderly, ← hcaught.poisoned_iff hfollows]
    constructor
    · rintro ⟨-, -, s', hs, hanswered⟩
      have hnext := hfollows.next hs
      have hnow : s'.answers = outcome httpCallback_ (items (stream ++ read.1)) := by
        obtain ⟨t, hrun, ht⟩ := hanswered 0 (Nat.zero_le _)
        obtain rfl := hrun.eq_of_nil
        simpa using ht
      have hfits := heq.mp (hnext.answers.symm.trans hnow)
      have hcaught' := hkeep hfits
      have hlater := ih hrest hnext hcaught' (hnext.answers.trans hcaught'.answers)
      exact ⟨(hfollows.step_iff read).mp ⟨s', hs⟩, hfits, hlater.mp hanswered⟩
    · rintro ⟨hnot, hfits, horderly⟩
      obtain ⟨s', hs, hnext⟩ := hfollows.step hnot read
      have hcaught' := hkeep hfits
      have hlater := ih hrest hnext hcaught' (hnext.answers.trans hcaught'.answers)
      exact ⟨hanswers, hreads read List.mem_cons_self, s', hs, hlater.mpr horderly⟩

theorem new_answered_iff (hreads : ∀ read ∈ reads, read.1 ≠ []) :
    Answered httpCallback_ new [] reads ↔
      Orderly httpCallback_ [] [] (reads.map Prod.fst) := by
  have hcaught : CaughtUp httpCallback_ [] [] [] :=
    Or.inl ⟨rfl, not_waiting_of_length (by simp)⟩
  exact answered_iff hreads new_follows hcaught

theorem orderly_cons {chunks : List Bytes}
    (hline : (items stream).getLast?.any Item.keepsMethod = false)
    (hlen : (items (stream ++ chunk)).length ≤ (items stream).length + 1)
    (h : Orderly httpCallback_ stream (stream ++ chunk) chunks) :
    Orderly httpCallback_ before stream (chunk :: chunks) := by
  refine ⟨?_, Or.inl hlen, h⟩
  intro hkeeps
  rw [hline] at hkeeps
  cases hkeeps

section Independence

/-- A split is answered as its stream says at every point if and only if it is orderly; and
two orderly splits of one stream are answered alike. -/
theorem segmentation_independent {reads reads' : List (Bytes × ℤ)}
    (hreads : ∀ read ∈ reads, read.1 ≠ []) (hreads' : ∀ read ∈ reads', read.1 ≠ [])
    (hsame : (reads.map Prod.fst).flatten = (reads'.map Prod.fst).flatten) :
    (Answered httpCallback_ new [] reads ↔
      Orderly httpCallback_ [] [] (reads.map Prod.fst)) ∧
    (Orderly httpCallback_ [] [] (reads.map Prod.fst) →
      Orderly httpCallback_ [] [] (reads'.map Prod.fst) →
      ∃ s s', (machine httpCallback_).Run new reads s ∧
        (machine httpCallback_).Run new reads' s' ∧ s.answers = s'.answers) := by
  refine ⟨new_answered_iff hreads, ?_⟩
  intro horderly horderly'
  obtain ⟨s, hrun, hs⟩ := (new_answered_iff hreads).mpr horderly reads.length (Nat.le_refl _)
  obtain ⟨s', hrun', hs'⟩ :=
    (new_answered_iff hreads').mpr horderly' reads'.length (Nat.le_refl _)
  rw [List.take_length] at hrun hs hrun' hs'
  refine ⟨s, s', hrun, hrun', ?_⟩
  rw [hs, hs', hsame]

theorem segmentation_independent_sample :
    ∃ s s', (machine fun _ r => r).Run new
        [(bytes "GET /a HT", 0), (bytes "TP/1.1\r\n\r\nGET", 1), (bytes " /b HTTP/1.1\r\n\r\n", 2)] s ∧
      (machine fun _ r => r).Run new
        [(bytes "GET /a HTTP/1.1\r\n\r\n", 0), (bytes "GET /b HTTP/1.1\r\n\r\n", 1)] s' ∧
      s.answers = s'.answers := by
  refine (segmentation_independent (by decide +kernel) (by decide +kernel)
    (by decide +kernel)).2 ?_ ?_
  · refine orderly_cons (by decide +kernel) (by decide +kernel) ?_
    refine orderly_cons (by decide +kernel) (by decide +kernel) ?_
    exact orderly_cons (by decide +kernel) (by decide +kernel) trivial
  · refine orderly_cons (by decide +kernel) (by decide +kernel) ?_
    exact orderly_cons (by decide +kernel) (by decide +kernel) trivial

/-- Two requests that come in one read: the second is not dispatched. -/
theorem second_request_not_dispatched :
    ∃ s s', (machine fun _ r => r).Run new
        [(bytes "GET /a HTTP/1.1\r\n\r\nGET /b HTTP/1.1\r\n\r\n", 0)] s ∧
      (machine fun _ r => r).Run new
        [(bytes "GET /a HTTP/1.1\r\n\r\n", 0), (bytes "GET /b HTTP/1.1\r\n\r\n", 1)] s' ∧
      s.answers.dispatched.length = 1 ∧ s'.answers.dispatched.length = 2 := by
  have hone : (((machine fun _ r => r).execute new
      [(bytes "GET /a HTTP/1.1\r\n\r\nGET /b HTTP/1.1\r\n\r\n", 0)]).map
        fun s => s.answers.dispatched.length) = some 1 := by decide +kernel
  have htwo : (((machine fun _ r => r).execute new
      [(bytes "GET /a HTTP/1.1\r\n\r\n", 0), (bytes "GET /b HTTP/1.1\r\n\r\n", 1)]).map
        fun s => s.answers.dispatched.length) = some 2 := by decide +kernel
  obtain ⟨s, hs, hlen⟩ := Option.map_eq_some_iff.mp hone
  obtain ⟨s', hs', hlen'⟩ := Option.map_eq_some_iff.mp htwo
  exact ⟨s, s', run_of_execute _ hs, run_of_execute _ hs', hlen, hlen'⟩

end Independence

end HttpConnection

end MuduoServer
