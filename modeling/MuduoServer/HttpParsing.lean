import MuduoServer.Http

/-!
What a byte stream asks for, read line by line from its beginning: its complete requests,
up to the first request line that is malformed. The parser of a connection, stopped and
resumed at any place, finds these items one after the other.
-/
namespace MuduoServer

open FaultMachine CrlfLines Block
open HttpRequest (Fault)

/-- A complete request, or a malformed request line; `known` tells whether a known method
has been read from it. -/
inductive Item
  | request (r : HttpRequest)
  | badLine (known : Bool)

/-- The items in a list of lines, when `r` is what has been read of a request. -/
def itemsOf : Option HttpRequest → List Bytes → List Item
  | _, [] => []
  | none, l :: ls =>
      match processRequestLine l HttpRequest.new with
      | .ok (true, r) => itemsOf (some r) ls
      | .ok (false, r) => [.badLine (r.method_ ≠ .kInvalid)]
      | .error _ => []
  | some r, l :: ls =>
      match cut (byte ':') l with
      | some (field, value) => itemsOf (some (r.addHeader field value)) ls
      | none => .request r.timeless :: itemsOf none ls

def items (stream : Bytes) : List Item := itemsOf none (lines stream)

def Item.isRequest : Item → Bool
  | .request _ => true
  | .badLine _ => false

/-- More lines bring more items, but none after a malformed line. -/
theorem itemsOf_append (p : Option HttpRequest) (ls ls' : List Bytes) :
    ∃ more, itemsOf p (ls ++ ls') = itemsOf p ls ++ more ∧
      ((∃ x ∈ itemsOf p ls, x.isRequest = false) → more = []) := by
  induction ls generalizing p with
  | nil => exact ⟨itemsOf p ls', by simp [itemsOf], by simp [itemsOf]⟩
  | cons l ls ih =>
    cases p with
    | none =>
      simp only [List.cons_append, itemsOf]
      split
      · exact ih _
      · exact ⟨[], by simp, fun _ => rfl⟩
      · exact ⟨[], by simp, fun _ => rfl⟩
    | some r =>
      simp only [List.cons_append, itemsOf]
      split
      · exact ih _
      · obtain ⟨more, hmore, hend⟩ := ih none
        refine ⟨more, by rw [hmore, List.cons_append], ?_⟩
        rintro ⟨x, hx, hbad⟩
        rcases List.mem_cons.mp hx with rfl | hx
        · cases hbad
        · exact hend ⟨x, hx, hbad⟩

/-- Only the last item may be a malformed line. -/
theorem isRequest_of_dropLast (p : Option HttpRequest) (ls : List Bytes) :
    ∀ x ∈ (itemsOf p ls).dropLast, x.isRequest = true := by
  induction ls generalizing p with
  | nil => simp [itemsOf]
  | cons l ls ih =>
    cases p with
    | none =>
      simp only [itemsOf]
      split
      · exact ih _
      · simp
      · simp
    | some r =>
      simp only [itemsOf]
      split
      · exact ih _
      · intro x hx
        cases hrest : itemsOf none ls with
        | nil => simp [hrest] at hx
        | cons y ys =>
          rw [hrest, List.dropLast_cons_cons] at hx
          rcases List.mem_cons.mp hx with rfl | hx
          · rfl
          · exact ih none x (hrest ▸ hx)

theorem items_append (stream d : Bytes) :
    ∃ more, items (stream ++ d) = items stream ++ more ∧
      ((∃ x ∈ items stream, x.isRequest = false) → more = []) := by
  obtain ⟨ls, hls⟩ := lines_prefix stream d
  unfold items
  rw [hls]
  exact itemsOf_append none _ _

namespace HttpRequest

variable {r r' : HttpRequest} {l : Bytes}

/-- Nothing has been read into the request since it was reset. -/
structure Clean (r : HttpRequest) : Prop where
  method : r.method_ = .kInvalid
  headers : r.headers_ = fun _ => none

theorem clean_new : new.Clean := ⟨rfl, rfl⟩

theorem clean_swapped (r : HttpRequest) : r.swapped.Clean := ⟨rfl, rfl⟩

theorem addHeader_congr (h : r.timeless = r'.timeless) (field value : Bytes) :
    (r.addHeader field value).timeless = (r'.addHeader field value).timeless := by
  simp only [timeless, mk.injEq] at h
  obtain ⟨hm, hv, hp, -, hh⟩ := h
  simp [timeless, addHeader, hm, hv, hp, hh]

theorem itemsOf_congr (h : r.timeless = r'.timeless) (ls : List Bytes) :
    itemsOf (some r) ls = itemsOf (some r') ls := by
  induction ls generalizing r r' with
  | nil => rfl
  | cons l ls ih =>
    simp only [itemsOf]
    split
    · exact ih (addHeader_congr h _ _)
    · rw [h]

/-- What two requests have in common after the same request line. -/
structure SameLine (ok : Bool) (l : Bytes) (r n : HttpRequest) : Prop where
  method : r.method_ = n.method_
  headers : r.headers_ = fun _ => none
  timeless : ok = true → r.timeless = n.timeless
  space : r.method_ ≠ .kInvalid → (cut (byte ' ') l).isSome

/-- A request line says the same to every clean request. -/
theorem processRequestLine_clean (h : r.Clean) (l : Bytes) :
    ∃ ok r' n, processRequestLine l r = .ok (ok, r') ∧
      processRequestLine l new = .ok (ok, n) ∧ SameLine ok l r' n := by
  obtain ⟨hmethod, hheaders⟩ := h
  unfold processRequestLine
  cases hcut : cut (byte ' ') l with
  | none => exact ⟨false, r, new, rfl, rfl, hmethod, hheaders, by simp, by simp [hmethod]⟩
  | some p =>
    obtain ⟨m, rest⟩ := p
    have hr : r.setMethod m = .ok (methodOf m ≠ .kInvalid, { r with method_ := methodOf m }) := by
      simp [setMethod, hmethod, check_of, pure, Except.pure]
    have hn : new.setMethod m =
        .ok (methodOf m ≠ .kInvalid, { new with method_ := methodOf m }) := by
      simp [setMethod, new, check_of, pure, Except.pure]
    simp only [hr, hn, ok_bind]
    by_cases hknown : methodOf m = .kInvalid
    · simp only [hknown, ne_eq, not_true_eq_false, decide_false, Bool.false_eq_true, if_false]
      exact ⟨false, _, _, rfl, rfl, rfl, hheaders, by simp, by simp⟩
    · simp only [ne_eq, hknown, not_false_eq_true, decide_true, if_true]
      cases hrest : cut (byte ' ') rest with
      | none => exact ⟨false, _, _, rfl, rfl, rfl, hheaders, by simp, by simp [hcut]⟩
      | some p =>
        obtain ⟨path, version⟩ := p
        dsimp only
        by_cases hform : version.length = 8 ∧ version.take 7 = bytes "HTTP/1."
        · rw [if_pos hform, if_pos hform]
          by_cases hone : version.getLast? = some (byte '1')
          · rw [if_pos hone, if_pos hone]
            exact ⟨true, _, _, rfl, rfl, rfl, hheaders, by simp [HttpRequest.timeless, hheaders, new],
              by simp [hcut]⟩
          · rw [if_neg hone, if_neg hone]
            by_cases hzero : version.getLast? = some (byte '0')
            · rw [if_pos hzero, if_pos hzero]
              exact ⟨true, _, _, rfl, rfl, rfl, hheaders,
                by simp [HttpRequest.timeless, hheaders, new], by simp [hcut]⟩
            · rw [if_neg hzero, if_neg hzero]
              exact ⟨false, _, _, rfl, rfl, rfl, hheaders, by simp, by simp [hcut]⟩
        · rw [if_neg hform, if_neg hform]
          exact ⟨false, _, _, rfl, rfl, rfl, hheaders, by simp, by simp [hcut]⟩

end HttpRequest

namespace HttpContext

/-- What has been read of a request. -/
def progress (c : HttpContext) : Option HttpRequest :=
  if c.state_ = .kExpectHeaders then some c.request_ else none

/-- The items of `q` for a parser in state `c`. -/
def itemsFrom (c : HttpContext) (q : Bytes) : List Item := itemsOf c.progress (lines q)

/-- The parser may be called: it is at a request line with nothing read yet, or at headers. -/
def Ready (c : HttpContext) : Prop :=
  c.state_ = .kExpectRequestLine ∧ c.request_.Clean ∨ c.state_ = .kExpectHeaders

end HttpContext

/-- What `parseRequest` has done with the bytes `q`, of which `q'` are left: it needs more,
has got a request, or has met a malformed request line, which stays at the front. -/
inductive Parsed (c : HttpContext) (q : Bytes) : Bool → HttpContext → Bytes → Prop
  | more {c' : HttpContext} {q' : Bytes} (ready : c'.Ready) (none : lines q' = [])
      (same : ∀ d, c.itemsFrom (q ++ d) = c'.itemsFrom (q' ++ d)) : Parsed c q true c' q'
  | got {c' : HttpContext} {q' : Bytes} (state : c'.state_ = .kGotAll)
      (same : ∀ d, c.itemsFrom (q ++ d) =
        .request c'.request_.timeless :: items (q' ++ d)) : Parsed c q true c' q'
  | bad {c' : HttpContext} {q' : Bytes} (k : ℕ) (state : c'.state_ = .kExpectRequestLine)
      (headers : c'.request_.headers_ = fun _ => Option.none) (line : search q' = some k)
      (space : c'.request_.method_ ≠ .kInvalid → (cut (byte ' ') (q'.take k)).isSome)
      (again : c'.request_.method_ = .kInvalid →
        ∀ d, c'.itemsFrom (q' ++ d) = [.badLine false])
      (same : ∀ d, c.itemsFrom (q ++ d) = [.badLine (c'.request_.method_ ≠ .kInvalid)]) :
      Parsed c q false c' q'

section Parse

variable {b : Buffer} {q : Bytes} {c : HttpContext} {k : ℕ}

theorem findCRLF_of (h : b.Represents q) (hk : search q = some k) :
    b.findCRLF = some (b.readerIndex_ + k) := by
  simp [Buffer.findCRLF, h.readable_eq, hk]

theorem findCRLF_none (h : b.Represents q) (hk : search q = none) : b.findCRLF = none := by
  simp [Buffer.findCRLF, h.readable_eq, hk]

theorem line_of (h : b.Represents q) (hk : search q = some k) :
    slice b.buffer_ b.readerIndex_ (b.readerIndex_ + k) = q.take k := by
  have hlen := search_bound hk
  have hn := h.readableBytes_eq
  have hr := h.inv.reader_le
  have hsize : b.readableBytes = b.writerIndex_ - b.readerIndex_ := rfl
  rw [← h.readable_eq, Buffer.readable, slice, slice, List.take_drop, List.take_take,
    Nat.min_eq_left (by omega)]

/-- `retrieveUntil(crlf + 2)` stays within the buffer. -/
theorem retrieve_line (h : b.Represents q) (hk : search q = some k) :
    ∃ b', b.retrieveUntil (b.readerIndex_ + k + 2) = .ok b' ∧
      b'.Represents (q.drop (k + 2)) := by
  have hlen := search_bound hk
  have hn := h.readableBytes_eq
  have hr := h.inv.reader_le
  have hsize : b.readableBytes = b.writerIndex_ - b.readerIndex_ := rfl
  have hfront : b.readerIndex_ ≤ b.readerIndex_ + k + 2 := by omega
  obtain ⟨b', hb', hrep⟩ := h.retrieveUntil hfront (by omega)
  rw [show b.readerIndex_ + k + 2 - b.readerIndex_ = k + 2 by omega] at hrep
  exact ⟨b', hb', hrep⟩

theorem itemsFrom_of_line (hstate : c.state_ = .kExpectRequestLine) (q : Bytes) :
    c.itemsFrom q = items q := by
  simp [HttpContext.itemsFrom, HttpContext.progress, hstate, items]

theorem itemsFrom_of_headers (hstate : c.state_ = .kExpectHeaders) (q : Bytes) :
    c.itemsFrom q = itemsOf (some c.request_) (lines q) := by
  simp [HttpContext.itemsFrom, HttpContext.progress, hstate]

theorem Parsed.of_same {c₁ c' : HttpContext} {q₁ q' : Bytes} {ok : Bool}
    (h : Parsed c₁ q₁ ok c' q') (hsame : ∀ d, c.itemsFrom (q ++ d) = c₁.itemsFrom (q₁ ++ d)) :
    Parsed c q ok c' q' := by
  cases h with
  | more ready hnone same => exact .more ready hnone fun d => (hsame d).trans (same d)
  | got state same => exact .got state fun d => (hsame d).trans (same d)
  | bad k state headers line space again same =>
    exact .bad k state headers line space again fun d => (hsame d).trans (same d)

/-- The loop ends in one of the three ways, with fuel for every line of the buffer. -/
theorem parseLoop_spec (receiveTime : ℤ) {fuel : ℕ} (h : b.Represents q) (hfuel : q.length < fuel)
    (hready : c.Ready) :
    ∃ ok b' c' q', parseLoop receiveTime fuel b c = .ok (ok, b', c') ∧ b'.Represents q' ∧
      Parsed c q ok c' q' := by
  induction fuel generalizing b q c with
  | zero => omega
  | succ fuel ih =>
    cases hk : search q with
    | none =>
      refine ⟨true, b, c, q, ?_, h, .more hready (lines_of_none hk) fun d => rfl⟩
      rcases hready with ⟨hstate, -⟩ | hstate <;>
        simp [parseLoop, hstate, findCRLF_none h hk, pure, Except.pure]
    | some k =>
      have hlen := search_bound hk
      have hcrlf := findCRLF_of h hk
      have hline := line_of h hk
      obtain ⟨b₁, hb₁, hrep⟩ := retrieve_line h hk
      have hless : (q.drop (k + 2)).length < fuel := by
        rw [List.length_drop]
        omega
      rcases hready with ⟨hstate, hclean⟩ | hstate
      · obtain ⟨ok, r, n, hr, hn, hsame⟩ := HttpRequest.processRequestLine_clean hclean (q.take k)
        have hitems : ∀ d, c.itemsFrom (q ++ d) =
            itemsOf none (q.take k :: lines (q.drop (k + 2) ++ d)) := by
          intro d
          rw [itemsFrom_of_line hstate, items, lines_append hk]
        cases ok with
        | true =>
          obtain ⟨ok', b', c', q', hloop, hq', hparsed⟩ :=
            ih (c := { state_ := .kExpectHeaders
                       request_ := { r with receiveTime_ := receiveTime } })
              hrep hless (Or.inr rfl)
          refine ⟨ok', b', c', q', ?_, hq', hparsed.of_same fun d => ?_⟩
          · simp only [parseLoop, hstate, hcrlf, hline, hr, ok_bind, hb₁, mapError_ok, if_true]
            exact hloop
          · rw [hitems, itemsFrom_of_headers rfl]
            simp only [itemsOf, hn]
            have htimeless : n.timeless = { r with receiveTime_ := receiveTime }.timeless :=
              (hsame.timeless rfl).symm
            exact HttpRequest.itemsOf_congr htimeless _
        | false =>
          have hbad : ∀ d, itemsOf none (q.take k :: lines (q.drop (k + 2) ++ d)) =
              [.badLine (r.method_ ≠ .kInvalid)] := by
            intro d
            simp only [itemsOf, hn, hsame.method]
          refine ⟨false, b, { c with request_ := r }, q, ?_, h, ?_⟩
          · simp [parseLoop, hstate, hcrlf, hline, hr, pure, Except.pure]
          · refine .bad k hstate hsame.headers hk hsame.space ?_ fun d => (hitems d).trans (hbad d)
            intro hmethod d
            have hfrom := itemsFrom_of_line (c := { c with request_ := r }) hstate (q ++ d)
            have hunknown : r.method_ = .kInvalid := hmethod
            rw [hfrom, items, lines_append hk, hbad]
            simp [hunknown]
      · have hitems : ∀ d, c.itemsFrom (q ++ d) =
            itemsOf (some c.request_) (q.take k :: lines (q.drop (k + 2) ++ d)) := by
          intro d
          rw [itemsFrom_of_headers hstate, lines_append hk]
        cases hcut : cut (byte ':') (q.take k) with
        | some p =>
          obtain ⟨field, value⟩ := p
          obtain ⟨ok', b', c', q', hloop, hq', hparsed⟩ :=
            ih (c := { c with request_ := c.request_.addHeader field value }) hrep hless
              (Or.inr hstate)
          refine ⟨ok', b', c', q', ?_, hq', hparsed.of_same fun d => ?_⟩
          · simp only [parseLoop, hstate, hcrlf, hline, hcut, ok_bind, hb₁, mapError_ok]
            simpa only [hstate] using hloop
          · have hfrom := itemsFrom_of_headers hstate
              (c := { c with request_ := c.request_.addHeader field value }) (q.drop (k + 2) ++ d)
            rw [hitems, hfrom]
            simp only [itemsOf, hcut]
        | none =>
          refine ⟨true, b₁, { c with state_ := .kGotAll }, _, ?_, hrep, .got rfl fun d => ?_⟩
          · simp [parseLoop, hstate, hcrlf, hline, hcut, hb₁, pure, Except.pure]
          · rw [hitems]
            simp only [itemsOf, hcut, items]

/-- A parser that has met a malformed line with a known method fails on it in the next call. -/
theorem parseLoop_poisoned (receiveTime : ℤ) (fuel : ℕ) (h : b.Represents q)
    (hstate : c.state_ = .kExpectRequestLine) (hmethod : c.request_.method_ ≠ .kInvalid)
    (hk : search q = some k) (hspace : (cut (byte ' ') (q.take k)).isSome) :
    parseLoop receiveTime (fuel + 1) b c = .error .methodNotInvalid := by
  obtain ⟨p, hp⟩ := Option.isSome_iff_exists.mp hspace
  simp [parseLoop, hstate, findCRLF_of h hk, line_of h hk, processRequestLine, hp,
    HttpRequest.setMethod, check, hmethod, bind, Except.bind]

end Parse

end MuduoServer
