import MuduoServer.HttpParsing
import Mathlib.Data.List.DropRight

/-!
The grammar of a request: a request line, header lines with a colon, and an empty line.
A head is a request line with header lines, so the end of the headers is what follows
it. Parsing the text of a head leads to the line after it, and every text that gets past
its request line is a head followed by a line without a colon or by an incomplete line.
-/
namespace MuduoServer

open FaultMachine CrlfLines Block
open HttpRequest (Fault)

section Cut

variable {c : UInt8} {a l : Bytes}

theorem cut_append (h : c ∉ a) (l : Bytes) : cut c (a ++ c :: l) = some (a, l) := by
  induction a with
  | nil => simp [cut]
  | cons b a ih =>
    rw [List.mem_cons, not_or] at h
    rw [List.cons_append, cut, if_neg (Ne.symm h.1), ih h.2]
    rfl

theorem cut_eq_some {r : Bytes} (h : cut c l = some (a, r)) : l = a ++ c :: r ∧ c ∉ a := by
  induction l generalizing a with
  | nil => cases h
  | cons b l ih =>
    rw [cut] at h
    split at h
    · rename_i heq
      obtain ⟨rfl, rfl⟩ := Prod.mk.inj (Option.some.inj h)
      exact ⟨by rw [heq]; rfl, List.not_mem_nil⟩
    · rename_i hne
      obtain ⟨p, hp, heq⟩ := Option.map_eq_some_iff.mp h
      obtain ⟨rfl, rfl⟩ := Prod.mk.inj heq
      obtain ⟨hl, hc⟩ := ih hp
      refine ⟨by rw [hl, List.cons_append], ?_⟩
      simp [hc, Ne.symm hne]

theorem cut_eq_none : cut c l = none ↔ c ∉ l := by
  induction l with
  | nil => simp [cut]
  | cons b l ih =>
    rw [cut]
    split
    · rename_i heq
      simp [heq]
    · rename_i hne
      simp [ih, Ne.symm hne]

end Cut

namespace HttpRequest

def methodString : Method → Bytes
  | .kGet => bytes "GET"
  | .kPost => bytes "POST"
  | .kHead => bytes "HEAD"
  | .kPut => bytes "PUT"
  | .kDelete => bytes "DELETE"
  | .kInvalid => bytes "UNKNOWN"

def versionString : Version → Bytes
  | .kHttp10 => bytes "HTTP/1.0"
  | .kHttp11 => bytes "HTTP/1.1"
  | .kUnknown => []

theorem methodOf_methodString (m : Method) : methodOf (methodString m) = m := by
  cases m <;> decide

theorem space_notMem_methodString (m : Method) : byte ' ' ∉ methodString m := by
  cases m <;> decide

theorem eq_methodString {t : Bytes} (h : methodOf t ≠ .kInvalid) : t = methodString (methodOf t) := by
  unfold methodOf at h ⊢
  repeat' split
  all_goals simp_all [methodString]

end HttpRequest

open HttpRequest

def requestLine (method : Method) (path : Bytes) (version : Version) : Bytes :=
  methodString method ++ byte ' ' :: (path ++ byte ' ' :: versionString version)

def headerLine (f : Bytes × Bytes) : Bytes := f.1 ++ byte ':' :: f.2

/-- A field without a colon and a value on one line. -/
def IsHeader (f : Bytes × Bytes) : Prop := byte ':' ∉ f.1 ∧ search (headerLine f) = none

/-- The request line and the header lines of a request. -/
structure RequestHead where
  method : Method
  path : Bytes
  version : Version
  fields : List (Bytes × Bytes)
  method_known : method ≠ .kInvalid
  version_known : version ≠ .kUnknown
  path_word : byte ' ' ∉ path
  one_line : search (requestLine method path version) = none
  field_lines : ∀ f ∈ fields, IsHeader f

def headerText (fields : List (Bytes × Bytes)) : Bytes :=
  fields.flatMap fun f => headerLine f ++ crlf

namespace RequestHead

def text (h : RequestHead) : Bytes :=
  requestLine h.method h.path h.version ++ crlf ++ headerText h.fields

end RequestHead

/-- The value of the last line with the field `name`. -/
def lastValue (name : Bytes) (fields : List (Bytes × Bytes)) : Option Bytes :=
  ((fields.filter fun f => f.1 = name).getLast?).map Prod.snd

/-- `t` is `v` without the white space on both sides. -/
structure Trimmed (v t : Bytes) : Prop where
  split : ∃ left right, v = left ++ t ++ right ∧ left.all isspace ∧ right.all isspace
  head : t.head?.all fun b => !isspace b
  last : t.getLast?.all fun b => !isspace b

namespace HttpRequest

variable {r : HttpRequest} {l path : Bytes}

theorem processRequestLine_text (hr : r.method_ = .kInvalid) {m : Method} (hm : m ≠ .kInvalid)
    {v : Version} (hv : v ≠ .kUnknown) (hp : byte ' ' ∉ path) :
    processRequestLine (requestLine m path v) r =
      .ok (true, { r with method_ := m, path_ := path, version_ := v }) := by
  have hmethod : r.setMethod (methodString m) = .ok (true, { r with method_ := m }) := by
    simp [setMethod, hr, methodOf_methodString, hm, pure, Except.pure, check_of]
  unfold processRequestLine requestLine
  rw [cut_append (space_notMem_methodString m)]
  simp only [hmethod, ok_bind, if_true, cut_append hp]
  cases v with
  | kUnknown => exact absurd rfl hv
  | kHttp10 => rfl
  | kHttp11 => rfl

/-- Seven bytes are fixed and the last one is looked at. -/
theorem eq_version {v : Bytes} {b : UInt8} (hv : v.length = 8 ∧ v.take 7 = bytes "HTTP/1.")
    (hlast : v.getLast? = some b) : v = bytes "HTTP/1." ++ [b] := by
  obtain ⟨front, rfl⟩ := List.getLast?_eq_some_iff.mp hlast
  have hlen : front.length = 7 := by simpa using hv.1
  rw [← hv.2, ← hlen, List.take_left]

theorem text_of_processRequestLine (h : processRequestLine l new = .ok (true, r)) :
    ∃ m path v, m ≠ .kInvalid ∧ v ≠ .kUnknown ∧ byte ' ' ∉ path ∧ l = requestLine m path v := by
  unfold processRequestLine at h
  cases hcut : cut (byte ' ') l with
  | none => simp [hcut, pure, Except.pure] at h
  | some p =>
    obtain ⟨m, rest⟩ := p
    obtain ⟨rfl, -⟩ := cut_eq_some hcut
    simp only [hcut, bind_eq_ok] at h
    obtain ⟨known, hknown, h⟩ := h
    split at h
    swap
    · simp [pure, Except.pure] at h
    rename_i hmethod
    have hm : methodOf m ≠ .kInvalid := by
      simp only [setMethod, bind_eq_ok, pure_eq_ok] at hknown
      obtain ⟨-, -, rfl⟩ := hknown
      exact of_decide_eq_true hmethod
    cases hrest : cut (byte ' ') rest with
    | none => simp [hrest, pure, Except.pure] at h
    | some p =>
      obtain ⟨path, version⟩ := p
      obtain ⟨rfl, hpath⟩ := cut_eq_some hrest
      simp only [hrest] at h
      have hline : ∀ v, version = versionString v →
          m ++ byte ' ' :: (path ++ byte ' ' :: version) = requestLine (methodOf m) path v := by
        intro v hv
        rw [requestLine, ← eq_methodString hm, hv]
      split at h
      swap
      · simp [pure, Except.pure] at h
      rename_i hform
      split at h
      · rename_i hone
        exact ⟨methodOf m, path, .kHttp11, hm, by simp, hpath, hline _ (eq_version hform hone)⟩
      · split at h
        · rename_i hzero
          exact ⟨methodOf m, path, .kHttp10, hm, by simp, hpath, hline _ (eq_version hform hzero)⟩
        · simp [pure, Except.pure] at h

/-- The request after the header lines `fields`. -/
def addHeaders (r : HttpRequest) (fields : List (Bytes × Bytes)) : HttpRequest :=
  fields.foldl (fun r f => r.addHeader f.1 f.2) r

theorem addHeaders_snoc (r : HttpRequest) (fields : List (Bytes × Bytes)) (f : Bytes × Bytes) :
    r.addHeaders (fields ++ [f]) = (r.addHeaders fields).addHeader f.1 f.2 := by
  rw [addHeaders, List.foldl_append]
  rfl

theorem addHeaders_eq (r : HttpRequest) (fields : List (Bytes × Bytes)) :
    ∃ headers, r.addHeaders fields = { r with headers_ := headers } := by
  induction fields using List.reverseRecOn with
  | nil => exact ⟨r.headers_, rfl⟩
  | append_singleton fields f ih =>
    obtain ⟨headers, hfields⟩ := ih
    rw [addHeaders_snoc, hfields]
    exact ⟨_, rfl⟩

/-- `addHeader` without its map: spaces go on both sides. -/
def trim (v : Bytes) : Bytes := (v.dropWhile isspace).rdropWhile isspace

theorem trimmed_trim (v : Bytes) : Trimmed v (trim v) := by
  have hsplit : trim v ++ (v.dropWhile isspace).rtakeWhile isspace = v.dropWhile isspace :=
    List.rdropWhile_append_rtakeWhile
  constructor
  · refine ⟨v.takeWhile isspace, (v.dropWhile isspace).rtakeWhile isspace, ?_, ?_, ?_⟩
    · rw [List.append_assoc, hsplit, List.takeWhile_append_dropWhile]
    · exact List.all_takeWhile
    · rw [List.all_eq_true]
      exact fun b hb => List.mem_rtakeWhile_imp hb
  · cases hfront : (trim v) with
    | nil => rfl
    | cons b rest =>
      have hdrop := List.head?_dropWhile_not isspace v
      rw [← hsplit, hfront] at hdrop
      simpa using hdrop
  · cases hlast : (trim v).getLast? with
    | none => rfl
    | some b =>
      have hne : trim v ≠ [] := by
        intro hnil
        simp [hnil] at hlast
      have hnot : isspace ((trim v).getLast hne) = false :=
        Bool.eq_false_of_not_eq_true (List.rdropWhile_last_not isspace _ hne)
      rw [List.getLast?_eq_some_getLast hne, Option.some.injEq] at hlast
      simp [← hlast, hnot]

theorem lastValue_snoc (name : Bytes) (fields : List (Bytes × Bytes)) (f : Bytes × Bytes) :
    lastValue name (fields ++ [f]) = if f.1 = name then some f.2 else lastValue name fields := by
  unfold lastValue
  rw [List.filter_append]
  split
  · rename_i heq
    simp [heq]
  · rename_i hne
    simp [hne]

theorem addHeaders_headers (hr : r.headers_ = fun _ => none) (fields : List (Bytes × Bytes))
    (name : Bytes) : (r.addHeaders fields).headers_ name = (lastValue name fields).map trim := by
  induction fields using List.reverseRecOn with
  | nil => simp [addHeaders, hr, lastValue]
  | append_singleton fields f ih =>
    rw [lastValue_snoc, addHeaders_snoc]
    simp only [addHeader]
    split
    · rename_i heq
      rw [heq, Function.update_self]
      rfl
    · rename_i hne
      rw [Function.update_of_ne (Ne.symm hne), ih]

end HttpRequest

section Parse

variable {b : Buffer} {q l : Bytes} {c : HttpContext} {f : Bytes × Bytes}

/-- The first line of the buffer and the buffer after it. -/
theorem first_line (h : b.Represents (l ++ crlf ++ q)) (hl : search l = none) :
    ∃ k b', b.findCRLF = some k ∧ slice b.buffer_ b.readerIndex_ k = l ∧
      b.retrieveUntil (k + 2) = .ok b' ∧ b'.Represents q := by
  have hk := search_line hl q
  obtain ⟨b', hb', hrep⟩ := retrieve_line h hk
  have hline := line_of h hk
  rw [List.append_assoc, List.take_left] at hline
  have hdrop : (l ++ crlf ++ q).drop (l.length + 2) = q :=
    List.drop_left' (by simp [crlf])
  rw [hdrop] at hrep
  exact ⟨_, b', findCRLF_of h hk, hline, hb', hrep⟩

theorem parseLoop_header (receiveTime : ℤ) (fuel : ℕ)
    (h : b.Represents (headerLine f ++ crlf ++ q)) (hf : IsHeader f)
    (hstate : c.state_ = .kExpectHeaders) :
    ∃ b', b'.Represents q ∧ parseLoop receiveTime (fuel + 1) b c =
      parseLoop receiveTime fuel b' { c with request_ := c.request_.addHeader f.1 f.2 } := by
  obtain ⟨k, b', hcrlf, hline, hb', hrep⟩ := first_line h hf.2
  refine ⟨b', hrep, ?_⟩
  have hcut : cut (byte ':') (headerLine f) = some (f.1, f.2) := cut_append hf.1 f.2
  simp only [parseLoop, hstate, hcrlf, hline, hcut, hb', mapError_ok, ok_bind]

theorem parseLoop_headers (receiveTime : ℤ) (fuel : ℕ) {fields : List (Bytes × Bytes)}
    (h : b.Represents (headerText fields ++ q)) (hf : ∀ f ∈ fields, IsHeader f)
    (hstate : c.state_ = .kExpectHeaders) :
    ∃ b', b'.Represents q ∧ parseLoop receiveTime (fuel + fields.length) b c =
      parseLoop receiveTime fuel b' { c with request_ := c.request_.addHeaders fields } := by
  induction fields generalizing b c with
  | nil => exact ⟨b, h, rfl⟩
  | cons f fields ih =>
    rw [headerText, List.flatMap_cons, ← headerText, List.append_assoc] at h
    obtain ⟨b₁, h₁, hfirst⟩ := parseLoop_header receiveTime (fuel + fields.length) h
      (hf f List.mem_cons_self) hstate
    obtain ⟨b', h', hrest⟩ := ih (c := { c with request_ := c.request_.addHeader f.1 f.2 }) h₁
      (fun g hg => hf g (List.mem_cons_of_mem _ hg)) hstate
    exact ⟨b', h', hfirst.trans hrest⟩

/-- A line without a colon ends the headers, whatever it holds. -/
theorem parseLoop_end (receiveTime : ℤ) (fuel : ℕ) (h : b.Represents (l ++ crlf ++ q))
    (hl : search l = none) (hcolon : byte ':' ∉ l) (hstate : c.state_ = .kExpectHeaders) :
    ∃ b', b'.Represents q ∧
      parseLoop receiveTime (fuel + 1) b c = .ok (true, b', { c with state_ := .kGotAll }) := by
  obtain ⟨k, b', hcrlf, hline, hb', hrep⟩ := first_line h hl
  refine ⟨b', hrep, ?_⟩
  simp [parseLoop, hstate, hcrlf, hline, cut_eq_none.mpr hcolon, hb', pure, Except.pure]

theorem parseLoop_pause (receiveTime : ℤ) (fuel : ℕ) (h : b.Represents q) (hq : search q = none)
    (hstate : c.state_ = .kExpectRequestLine ∨ c.state_ = .kExpectHeaders) :
    parseLoop receiveTime (fuel + 1) b c = .ok (true, b, c) := by
  rcases hstate with hstate | hstate <;>
    simp [parseLoop, hstate, findCRLF_none h hq, pure, Except.pure]

theorem length_headerText (fields : List (Bytes × Bytes)) :
    fields.length ≤ (headerText fields).length := by
  induction fields with
  | nil => exact Nat.le_refl 0
  | cons f fields ih =>
    rw [headerText, List.flatMap_cons, ← headerText]
    simp only [List.length_cons, List.length_append, crlf, List.length_nil]
    omega

/-- The request that has been read when the head has been. -/
def RequestHead.request (h : RequestHead) (receiveTime : ℤ) : HttpRequest :=
  HttpRequest.addHeaders
    { HttpRequest.new with
      method_ := h.method
      path_ := h.path
      version_ := h.version
      receiveTime_ := receiveTime } h.fields

/-- A head brings the parser to the line after it, with fuel left for that line. -/
theorem parseRequest_head (receiveTime : ℤ) (head : RequestHead)
    (h : b.Represents (head.text ++ q)) :
    ∃ b' fuel, b'.Represents q ∧ parseRequest b HttpContext.new receiveTime =
      parseLoop receiveTime (fuel + 1) b'
        { state_ := .kExpectHeaders, request_ := head.request receiveTime } := by
  have hlen := h.readableBytes_eq
  have hfields := length_headerText head.fields
  rw [RequestHead.text] at h hlen
  simp only [List.length_append, crlf, List.length_cons, List.length_nil] at hlen
  obtain ⟨fuel, hfuel⟩ : ∃ fuel, b.readableBytes + 1 = fuel + 1 + head.fields.length + 1 :=
    ⟨b.readableBytes - 1 - head.fields.length, by omega⟩
  rw [List.append_assoc] at h
  obtain ⟨k, b₁, hcrlf, hline, hb₁, h₁⟩ := first_line h head.one_line
  obtain ⟨b', h', hloop⟩ := parseLoop_headers receiveTime (fuel + 1)
    (c := { state_ := .kExpectHeaders
            request_ := { HttpRequest.new with
              method_ := head.method
              path_ := head.path
              version_ := head.version
              receiveTime_ := receiveTime } }) h₁ head.field_lines rfl
  refine ⟨b', fuel, h', ?_⟩
  have hrequest := HttpRequest.processRequestLine_text (r := HttpRequest.new) rfl head.method_known
    head.version_known head.path_word
  rw [parseRequest, hfuel, parseLoop]
  simp only [HttpContext.new, hcrlf, hline, hrequest, ok_bind, if_true, hb₁, mapError_ok]
  exact hloop

end Parse

/-- Every text has header lines in front, up to a line without a colon or to an incomplete
line. -/
theorem exists_headerText (q : Bytes) :
    ∃ fields rest, q = headerText fields ++ rest ∧ (∀ f ∈ fields, IsHeader f) ∧
      (search rest = none ∨
        ∃ l q', rest = l ++ crlf ++ q' ∧ search l = none ∧ byte ':' ∉ l) := by
  induction hn : q.length using Nat.strongRecOn generalizing q with
  | _ n ih =>
    cases hk : search q with
    | none => exact ⟨[], q, rfl, by simp, Or.inl hk⟩
    | some k =>
      obtain ⟨hl, hq⟩ := eq_of_search hk
      have hlen := search_bound hk
      cases hcut : cut (byte ':') (q.take k) with
      | none => exact ⟨[], q, rfl, by simp, Or.inr ⟨_, _, hq, hl, cut_eq_none.mp hcut⟩⟩
      | some p =>
        obtain ⟨field, value⟩ := p
        obtain ⟨hline, hfield⟩ := cut_eq_some hcut
        obtain ⟨fields, rest, hrest, hfields, hend⟩ :=
          ih (q.drop (k + 2)).length (by rw [List.length_drop]; omega) _ rfl
        refine ⟨(field, value) :: fields, rest, ?_, ?_, hend⟩
        · rw [headerText, List.flatMap_cons, ← headerText, List.append_assoc, ← hrest, headerLine,
            ← hline]
          exact hq
        · intro f hf
          rcases List.mem_cons.mp hf with rfl | hf
          · exact ⟨hfield, by rw [headerLine, ← hline]; exact hl⟩
          · exact hfields f hf

/-- The text does not get past its request line, or it is a head and what follows it. -/
theorem text_cases (q : Bytes) :
    (search q = none ∨
      ∃ k r, search q = some k ∧ processRequestLine (q.take k) new = .ok (false, r)) ∨
    ∃ (head : RequestHead) (rest : Bytes), q = head.text ++ rest ∧
      (search rest = none ∨
        ∃ l q', rest = l ++ crlf ++ q' ∧ search l = none ∧ byte ':' ∉ l) := by
  cases hk : search q with
  | none => exact Or.inl (Or.inl rfl)
  | some k =>
    obtain ⟨ok, -, n, -, hline, -⟩ := processRequestLine_clean clean_new (q.take k)
    cases ok with
    | false => exact Or.inl (Or.inr ⟨k, n, rfl, hline⟩)
    | true =>
      obtain ⟨hl, hq⟩ := eq_of_search hk
      obtain ⟨m, path, v, hm, hv, hpath, htext⟩ := text_of_processRequestLine hline
      obtain ⟨fields, rest, hrest, hfields, hend⟩ := exists_headerText (q.drop (k + 2))
      rw [htext] at hl hq
      refine Or.inr ⟨⟨m, path, v, fields, hm, hv, hpath, hl, hfields⟩, rest, ?_, hend⟩
      rw [RequestHead.text, List.append_assoc, ← hrest]
      exact hq

/-- What has been read is the request with this head: the method, the path and the version
as written, and for every field its last value without the white space around it. -/
structure RequestHead.ReadAs (head : RequestHead) (r : HttpRequest) : Prop where
  method : r.method_ = head.method
  path : r.path_ = head.path
  version : r.version_ = head.version
  headers : ∀ name, Option.Rel Trimmed (lastValue name head.fields) (r.headers_ name)

theorem request_readAs (head : RequestHead) (receiveTime : ℤ) :
    head.ReadAs (head.request receiveTime) := by
  obtain ⟨headers, heq⟩ := addHeaders_eq
    { HttpRequest.new with
      method_ := head.method
      path_ := head.path
      version_ := head.version
      receiveTime_ := receiveTime } head.fields
  constructor
  · rw [RequestHead.request, heq]
  · rw [RequestHead.request, heq]
  · rw [RequestHead.request, heq]
  · intro name
    rw [RequestHead.request, addHeaders_headers rfl]
    cases lastValue name head.fields with
    | none => exact Option.Rel.none
    | some v => exact Option.Rel.some (trimmed_trim v)

/-- The bytes `q` start with a head and a line that is not empty and has no colon. -/
def ColonlessLine (q : Bytes) : Prop :=
  ∃ (head : RequestHead) (l rest : Bytes), q = head.text ++ l ++ crlf ++ rest ∧
    l ≠ [] ∧ search l = none ∧ byte ':' ∉ l

/-- What parsing `q` with a new context should lead to. -/
structure ReadsGrammar (q : Bytes) (buf : Buffer) (context : HttpContext) : Prop where
  gotAll : context.state_ = .kGotAll ↔
    ∃ (head : RequestHead) (rest : Bytes), q = head.text ++ crlf ++ rest
  request : ∀ (head : RequestHead) (rest : Bytes), q = head.text ++ crlf ++ rest →
    head.ReadAs context.request_ ∧ buf.Represents rest
  colonless : ColonlessLine q → context.state_ ≠ .kGotAll

section Grammar

variable {b : Buffer} {q l rest : Bytes}

theorem parseRequest_text (receiveTime : ℤ) (head : RequestHead)
    (h : b.Represents (head.text ++ l ++ crlf ++ rest)) (hl : search l = none)
    (hcolon : byte ':' ∉ l) :
    ∃ b', b'.Represents rest ∧ parseRequest b HttpContext.new receiveTime =
      .ok (true, b', { state_ := .kGotAll, request_ := head.request receiveTime }) := by
  rw [List.append_assoc, List.append_assoc, ← List.append_assoc l] at h
  obtain ⟨b₁, fuel, h₁, hparse⟩ := parseRequest_head receiveTime head h
  obtain ⟨b', h', hend⟩ := parseLoop_end receiveTime fuel h₁ hl hcolon
    (c := { state_ := .kExpectHeaders, request_ := head.request receiveTime }) rfl
  exact ⟨b', h', hparse.trans hend⟩

/-- The parser ends on every text: at the line after a head, or before the headers. -/
theorem parseRequest_cases (h : b.Represents q) (receiveTime : ℤ) :
    (∃ (head : RequestHead) (l rest : Bytes) (b' : Buffer), q = head.text ++ l ++ crlf ++ rest ∧
      search l = none ∧ byte ':' ∉ l ∧ b'.Represents rest ∧
      parseRequest b HttpContext.new receiveTime =
        .ok (true, b', { state_ := .kGotAll, request_ := head.request receiveTime })) ∨
    ∃ ok b' c', parseRequest b HttpContext.new receiveTime = .ok (ok, b', c') ∧
      c'.state_ ≠ .kGotAll := by
  rcases text_cases q with (hnone | ⟨k, r, hk, hline⟩) | ⟨head, rest, rfl, hend⟩
  · exact Or.inr ⟨true, b, HttpContext.new,
      parseLoop_pause receiveTime _ h hnone (Or.inl rfl), by simp [HttpContext.new]⟩
  · obtain ⟨hl, hq⟩ := eq_of_search hk
    rw [hq] at h
    obtain ⟨crlf, b', hcrlf, hslice, -, -⟩ := first_line h hl
    refine Or.inr ⟨false, b, { HttpContext.new with request_ := r }, ?_, by simp [HttpContext.new]⟩
    simp [parseRequest, parseLoop, HttpContext.new, hcrlf, hslice, hline, pure, Except.pure]
  · rcases hend with hnone | ⟨l, q', rfl, hl, hcolon⟩
    · obtain ⟨b', fuel, h', hparse⟩ := parseRequest_head receiveTime head h
      rw [parseLoop_pause receiveTime fuel h' hnone (Or.inr rfl)] at hparse
      exact Or.inr ⟨_, _, _, hparse, by simp⟩
    · rw [← List.append_assoc, ← List.append_assoc] at h ⊢
      obtain ⟨b', h', hparse⟩ := parseRequest_text receiveTime head h hl hcolon
      exact Or.inl ⟨head, l, q', b', rfl, hl, hcolon, h', hparse⟩

/-- The parser accepts its grammar, and reads and consumes what it accepts, exactly when the
header lines are not followed by a line that is not empty and has no colon. -/
theorem parseRequest_grammar_iff (h : b.Represents q) (receiveTime : ℤ) :
    (∃ ok b' c', parseRequest b HttpContext.new receiveTime = .ok (ok, b', c') ∧
      ReadsGrammar q b' c') ↔ ¬ ColonlessLine q := by
  constructor
  · rintro ⟨ok, b', c', hparse, hreads⟩ hline
    obtain ⟨head, l, rest, rfl, -, hl, hcolon⟩ := id hline
    obtain ⟨b₁, -, hgot⟩ := parseRequest_text receiveTime head h hl hcolon
    obtain ⟨-, -, rfl⟩ : true = ok ∧ b₁ = b' ∧ _ = c' := by
      simpa using Except.ok.inj (hgot.symm.trans hparse)
    exact hreads.colonless hline rfl
  · intro hnot
    have hread : ∀ (head : RequestHead) (rest : Bytes), q = head.text ++ crlf ++ rest →
        ∃ b', b'.Represents rest ∧ parseRequest b HttpContext.new receiveTime =
          .ok (true, b', { state_ := .kGotAll, request_ := head.request receiveTime }) := by
      intro head rest heq
      have htext : q = head.text ++ [] ++ crlf ++ rest := by rw [heq, List.append_nil]
      exact parseRequest_text receiveTime head (htext ▸ h) rfl (by simp)
    rcases parseRequest_cases h receiveTime with
      ⟨head, l, rest, b', heq, hl, hcolon, h', hparse⟩ | ⟨ok, b', c', hparse, hstate⟩
    · have hnil : l = [] := by
        by_contra hne
        exact hnot ⟨head, l, rest, heq, hne, hl, hcolon⟩
      rw [hnil, List.append_nil] at heq
      refine ⟨_, _, _, hparse, ⟨iff_of_true rfl ⟨head, rest, heq⟩, ?_, fun hc => absurd hc hnot⟩⟩
      intro head' rest' heq'
      obtain ⟨b₁, h₁, hgot⟩ := hread head' rest' heq'
      have hsame := Except.ok.inj (hparse.symm.trans hgot)
      simp only [Prod.mk.injEq, HttpContext.mk.injEq, true_and] at hsame
      obtain ⟨rfl, hrequest⟩ := hsame
      rw [hrequest]
      exact ⟨request_readAs head' receiveTime, h₁⟩
    · have hnone : ∀ (head : RequestHead) (rest : Bytes), q ≠ head.text ++ crlf ++ rest := by
        intro head rest heq
        obtain ⟨b₁, -, hgot⟩ := hread head rest heq
        have hsame := Except.ok.inj (hparse.symm.trans hgot)
        simp only [Prod.mk.injEq] at hsame
        exact hstate (by rw [hsame.2.2])
      refine ⟨ok, b', c', hparse, ⟨?_, fun head rest heq => absurd heq (hnone head rest), fun _ => hstate⟩⟩
      exact iff_of_false hstate fun hq => by
        obtain ⟨head, rest, heq⟩ := hq
        exact hnone head rest heq

end Grammar

def sampleHead : RequestHead where
  method := .kGet
  path := bytes "/"
  version := .kHttp11
  fields := []
  method_known := by decide
  version_known := by decide
  path_word := by decide
  one_line := by decide
  field_lines := by simp

/-- A request line, a line without a colon and an empty line. -/
def sampleText : Bytes := sampleHead.text ++ bytes "Host" ++ crlf ++ crlf

theorem sampleText_colonless : ColonlessLine sampleText :=
  ⟨sampleHead, bytes "Host", crlf, rfl, by decide, by decide, by decide⟩

theorem parseRequest_grammar_sample :
    ∃ b : Buffer, b.Represents sampleText ∧
      ¬ ∃ ok b' c', parseRequest b HttpContext.new 0 = .ok (ok, b', c') ∧
        ReadsGrammar sampleText b' c' := by
  obtain ⟨b, -, hb⟩ := Buffer.new_represents.append sampleText
  exact ⟨b, hb, fun hreads => (parseRequest_grammar_iff hb 0).mp hreads sampleText_colonless⟩

/-- The line `Host` ends the headers, and the empty line after it stays in the buffer. -/
theorem colonless_line_ends_headers :
    ¬ ∀ (b : Buffer) (q : Bytes) (receiveTime : ℤ), b.Represents q →
      ∃ ok b' c', parseRequest b HttpContext.new receiveTime = .ok (ok, b', c') ∧
        ReadsGrammar q b' c' := by
  intro hall
  obtain ⟨b, -, hb⟩ := Buffer.new_represents.append sampleText
  obtain ⟨ok, b', c', hparse, hreads⟩ := hall b sampleText 0 hb
  obtain ⟨b₁, -, hgot⟩ := parseRequest_text 0 sampleHead (l := bytes "Host") hb (by decide)
    (by decide)
  have hsame := Except.ok.inj (hgot.symm.trans hparse)
  simp only [Prod.mk.injEq] at hsame
  exact hreads.colonless sampleText_colonless (by rw [← hsame.2.2])

end MuduoServer
