import MuduoServer.Digits
import MuduoServer.HttpGrammar
import Mathlib.Algebra.Order.BigOperators.Group.List

/-!
Responses on a connection that is kept alive, and a reader that finds out where each of them
ends: the head goes up to the first empty line, and the body has `Content-Length` bytes. A
string that is longer than an `int` loses bytes on its way into the buffer, while the header
still counts them, and then the reader looks for the next response in the wrong place.
-/
namespace MuduoServer

open FaultMachine CrlfLines Digits

/-- What a reader finds out about a response. -/
structure HttpReply where
  statusCode : ℕ
  statusMessage : Bytes
  headers : List (Bytes × Bytes)
  body : Bytes

namespace HttpReply

def contentLength : Bytes := bytes "Content-Length"

def connection : Bytes := bytes "Connection"

def keepAlive : Bytes := bytes "Keep-Alive"

def version : Bytes := bytes "HTTP/1.1 "

/-- The lines up to the first empty one, and what follows it. -/
def splitHead : ℕ → Bytes → Option (List Bytes × Bytes)
  | 0, _ => none
  | fuel + 1, q =>
      match search q with
      | none => none
      | some 0 => some ([], q.drop 2)
      | some (k + 1) =>
          (splitHead fuel (q.drop (k + 3))).map fun p => (q.take (k + 1) :: p.1, p.2)

def readStatusLine (l : Bytes) : Option (ℕ × Bytes) :=
  if l.take 9 = version then
    (cut (byte ' ') (l.drop 9)).bind fun p => (readDecimal p.1).map fun code => (code, p.2)
  else none

/-- A name, a colon, one space and the value. -/
def readHeader (l : Bytes) : Option (Bytes × Bytes) :=
  (cut (byte ':') l).bind fun p =>
    match p.2 with
    | [] => none
    | b :: value => if b = byte ' ' then some (p.1, value) else none

def readHeaders : List Bytes → Option (List (Bytes × Bytes))
  | [] => some []
  | l :: ls => (readHeader l).bind fun h => (readHeaders ls).map fun hs => h :: hs

/-- The first value with this name, and the headers with other names. -/
def takeHeader (name : Bytes) (hs : List (Bytes × Bytes)) :
    Option (Bytes × List (Bytes × Bytes)) :=
  (hs.find? fun h => h.1 = name).map fun h => (h.2, hs.filter fun h => h.1 ≠ name)

/-- One response that does not end its connection, and what follows it. -/
def read (q : Bytes) : Option (HttpReply × Bytes) :=
  (splitHead q.length q).bind fun (head, rest) =>
    match head with
    | [] => none
    | status :: fields =>
        (readStatusLine status).bind fun (statusCode, statusMessage) =>
        (readHeaders fields).bind fun headers =>
        (takeHeader contentLength headers).bind fun (length, headers) =>
        (readDecimal length).bind fun length =>
        (takeHeader connection headers).bind fun (connection, headers) =>
        if connection = keepAlive ∧ length ≤ rest.length then
          some ({ statusCode := statusCode
                  statusMessage := statusMessage
                  headers := headers
                  body := rest.take length }, rest.drop length)
        else none

def readAll : ℕ → Bytes → Option (List HttpReply)
  | _, [] => some []
  | 0, _ :: _ => none
  | fuel + 1, q => (read q).bind fun p => (readAll fuel p.2).map fun replies => p.1 :: replies

/-- The responses in a stream. -/
def decode (stream : Bytes) : Option (List HttpReply) := readAll stream.length stream

/-- The bytes that the name and the value of a header take in a head. -/
def headerSize (h : Bytes × Bytes) : ℕ := h.1.length + h.2.length + 4

/-- The least number of bytes from which the reply can be read. -/
def size (r : HttpReply) : ℕ :=
  version.length + (decimal r.statusCode).length + r.statusMessage.length + 3 +
    headerSize (contentLength, decimal r.body.length) + headerSize (connection, keepAlive) +
    (r.headers.map headerSize).sum + 2 + r.body.length

section Lines

variable {q rest l : Bytes} {ls : List Bytes} {fuel : ℕ}

theorem splitHead_lines (hls : ∀ l ∈ ls, l ≠ [] ∧ search l = none) (hfuel : ls.length < fuel)
    (rest : Bytes) :
    splitHead fuel (ls.flatMap (fun l => l ++ crlf) ++ crlf ++ rest) = some (ls, rest) := by
  induction ls generalizing fuel with
  | nil =>
    obtain ⟨fuel, rfl⟩ : ∃ n, fuel = n + 1 := ⟨fuel - 1, by simp at hfuel; omega⟩
    rfl
  | cons l ls ih =>
    obtain ⟨fuel, rfl⟩ : ∃ n, fuel = n + 1 := ⟨fuel - 1, by omega⟩
    obtain ⟨hne, hl⟩ := hls l List.mem_cons_self
    have hrest := ih (fun l hl => hls l (List.mem_cons_of_mem _ hl)) (by simpa using hfuel)
    obtain ⟨k, hk⟩ : ∃ k, l.length = k + 1 :=
      ⟨l.length - 1, by have := List.length_pos_iff.mpr hne; omega⟩
    simp only [List.flatMap_cons, List.append_assoc] at hrest ⊢
    rw [← List.append_assoc l crlf]
    have htake : ∀ tail : Bytes, (l ++ crlf ++ tail).take (k + 1) = l := by
      intro tail
      rw [← hk, List.append_assoc, List.take_left]
    have hdrop : ∀ tail : Bytes, (l ++ crlf ++ tail).drop (k + 3) = tail := by
      intro tail
      exact List.drop_left' (by simp [crlf, hk])
    rw [splitHead, search_line hl, hk]
    simp only [htake, hdrop, hrest, Option.map_some]

/-- The head and what follows it are the whole text. -/
theorem length_of_splitHead (h : splitHead fuel q = some (ls, rest)) :
    q.length = (ls.map fun l => l.length + 2).sum + 2 + rest.length := by
  induction fuel generalizing q ls with
  | zero => cases h
  | succ fuel ih =>
    rw [splitHead] at h
    split at h
    · cases h
    · rename_i hk
      have hlen := search_bound hk
      obtain ⟨rfl, rfl⟩ := Prod.mk.inj (Option.some.inj h)
      simp only [List.map_nil, List.sum_nil, List.length_drop]
      omega
    · rename_i k hk
      have hlen := search_bound hk
      obtain ⟨p, hp, heq⟩ := Option.map_eq_some_iff.mp h
      obtain ⟨rfl, rfl⟩ := Prod.mk.inj heq
      have hrest := ih hp
      rw [List.length_drop] at hrest
      simp only [List.map_cons, List.sum_cons, List.length_take]
      omega

theorem readStatusLine_text {code : ℕ} (message : Bytes) :
    readStatusLine (version ++ decimal code ++ byte ' ' :: message) = some (code, message) := by
  have hspace : byte ' ' ∉ decimal code := by
    intro hmem
    exact absurd (isDigit_of_mem hmem) (by decide)
  have hfront : (version ++ decimal code ++ byte ' ' :: message).take 9 = version := by
    rw [List.append_assoc]
    exact List.take_left' (by decide)
  have hback : (version ++ decimal code ++ byte ' ' :: message).drop 9 =
      decimal code ++ byte ' ' :: message := by
    rw [List.append_assoc]
    exact List.drop_left' (by decide)
  rw [readStatusLine, if_pos hfront, hback, cut_append hspace]
  simp [readDecimal_decimal]

theorem length_of_readStatusLine {code : ℕ} {message : Bytes}
    (h : readStatusLine l = some (code, message)) :
    version.length + (decimal code).length + message.length + 1 ≤ l.length := by
  unfold readStatusLine at h
  split at h
  · rename_i hversion
    obtain ⟨p, hp, hcode⟩ := Option.bind_eq_some_iff.mp h
    obtain ⟨n, hn, heq⟩ := Option.map_eq_some_iff.mp hcode
    obtain ⟨rfl, rfl⟩ := Prod.mk.inj heq
    obtain ⟨hsplit, -⟩ := cut_eq_some hp
    have hdigits := length_decimal_le_of_read hn
    have hlen := congrArg List.length hsplit
    have hfront := congrArg List.length hversion
    simp only [List.length_append, List.length_cons, List.length_drop, List.length_take] at hlen hfront
    omega
  · cases h

/-- The line of a header in a head. -/
def line (h : Bytes × Bytes) : Bytes := h.1 ++ byte ':' :: byte ' ' :: h.2

theorem readHeader_line {h : Bytes × Bytes} (hname : byte ':' ∉ h.1) :
    readHeader (line h) = some h := by
  rw [readHeader, line, cut_append hname]
  simp

theorem length_of_readHeader {h : Bytes × Bytes} (hl : readHeader l = some h) :
    headerSize h = l.length + 2 := by
  obtain ⟨p, hp, hvalue⟩ := Option.bind_eq_some_iff.mp hl
  obtain ⟨hsplit, -⟩ := cut_eq_some hp
  obtain ⟨name, value⟩ := p
  cases value with
  | nil => cases hvalue
  | cons b value =>
    dsimp only at hvalue
    split at hvalue
    · obtain rfl := Option.some.inj hvalue
      rw [hsplit]
      simp only [headerSize, List.length_append, List.length_cons]
      omega
    · cases hvalue

theorem readHeaders_lines {hs : List (Bytes × Bytes)} (hnames : ∀ h ∈ hs, byte ':' ∉ h.1) :
    readHeaders (hs.map line) = some hs := by
  induction hs with
  | nil => rfl
  | cons h hs ih =>
    rw [List.map_cons, readHeaders, readHeader_line (hnames h List.mem_cons_self),
      Option.bind_some, ih fun h hh => hnames h (List.mem_cons_of_mem _ hh), Option.map_some]

theorem size_of_readHeaders {hs : List (Bytes × Bytes)} (h : readHeaders ls = some hs) :
    (hs.map headerSize).sum = (ls.map fun l => l.length + 2).sum := by
  induction ls generalizing hs with
  | nil =>
    obtain rfl := Option.some.inj h
    rfl
  | cons l ls ih =>
    obtain ⟨f, hf, hrest⟩ := Option.bind_eq_some_iff.mp h
    obtain ⟨fs, hfs, rfl⟩ := Option.map_eq_some_iff.mp hrest
    rw [List.map_cons, List.sum_cons, List.map_cons, List.sum_cons, ih hfs, length_of_readHeader hf]

theorem size_of_takeHeader {name value : Bytes} {hs hs' : List (Bytes × Bytes)}
    (h : takeHeader name hs = some (value, hs')) :
    headerSize (name, value) + (hs'.map headerSize).sum ≤ (hs.map headerSize).sum := by
  obtain ⟨f, hf, heq⟩ := Option.map_eq_some_iff.mp h
  obtain ⟨rfl, rfl⟩ := Prod.mk.inj heq
  clear h heq
  induction hs with
  | nil => cases hf
  | cons g hs ih =>
    have hle : ((hs.filter fun h => h.1 ≠ name).map headerSize).sum ≤ (hs.map headerSize).sum :=
      (List.filter_sublist.map headerSize).sum_le_sum fun _ _ => Nat.zero_le _
    by_cases hg : g.1 = name
    · rw [List.find?_cons_of_pos (by simpa using hg)] at hf
      obtain rfl := Option.some.inj hf
      rw [List.filter_cons_of_neg (by simpa using hg), List.map_cons, List.sum_cons]
      subst hg
      exact Nat.add_le_add_left hle _
    · rw [List.find?_cons_of_neg (by simpa using hg)] at hf
      have hrest := ih hf
      rw [List.filter_cons_of_pos (by simpa using hg), List.map_cons, List.sum_cons, List.map_cons,
        List.sum_cons]
      omega

end Lines

/-- A reply is read from at least as many bytes as its size. -/
theorem size_of_read {q rest : Bytes} {r : HttpReply} (h : read q = some (r, rest)) :
    r.size + rest.length ≤ q.length := by
  obtain ⟨⟨head, tail⟩, hhead, h⟩ := Option.bind_eq_some_iff.mp h
  have htext := length_of_splitHead hhead
  cases head with
  | nil => cases h
  | cons status fields =>
    obtain ⟨⟨code, message⟩, hstatus, h⟩ := Option.bind_eq_some_iff.mp h
    obtain ⟨all, hall, h⟩ := Option.bind_eq_some_iff.mp h
    obtain ⟨⟨length, others⟩, hlength, h⟩ := Option.bind_eq_some_iff.mp h
    obtain ⟨n, hn, h⟩ := Option.bind_eq_some_iff.mp h
    obtain ⟨⟨option, headers⟩, hconnection, h⟩ := Option.bind_eq_some_iff.mp h
    dsimp only at h
    split at h
    · rename_i hbody
      obtain ⟨rfl, hbody⟩ := hbody
      obtain ⟨rfl, rfl⟩ := Prod.mk.inj (Option.some.inj h)
      have hline := length_of_readStatusLine hstatus
      have hfields := size_of_readHeaders hall
      have htake := size_of_takeHeader hlength
      have htake' := size_of_takeHeader hconnection
      have hdigits := length_decimal_le_of_read hn
      have htaken : (tail.take n).length = n := List.length_take_of_le hbody
      simp only [List.map_cons, List.sum_cons] at htext
      simp only [size, headerSize, htaken, List.length_drop] at htake htake' ⊢
      omega
    · cases h

theorem size_of_readAll {fuel : ℕ} {q : Bytes} {rs : List HttpReply}
    (h : readAll fuel q = some rs) :
    (rs.map size).sum ≤ q.length := by
  induction fuel generalizing q rs with
  | zero =>
    cases q with
    | nil =>
      obtain rfl := Option.some.inj h
      exact Nat.le_refl 0
    | cons b q => cases h
  | succ fuel ih =>
    cases q with
    | nil =>
      obtain rfl := Option.some.inj h
      exact Nat.le_refl 0
    | cons b q =>
      obtain ⟨⟨r, rest⟩, hr, h⟩ := Option.bind_eq_some_iff.mp h
      obtain ⟨rs, hrs, rfl⟩ := Option.map_eq_some_iff.mp h
      have hone : r.size + rest.length ≤ (b :: q).length := size_of_read hr
      have hrest : (rs.map size).sum ≤ rest.length := ih hrs
      simp only [List.map_cons, List.sum_cons]
      omega

end HttpReply

namespace HttpResponse

open HttpReply (contentLength connection keepAlive headerSize)

/-- The strings of a response that go through `StringPiece`. -/
def strings (r : HttpResponse) : List Bytes :=
  r.statusMessage_ :: r.headers_.flatMap (fun h => [h.1, h.2]) ++ [r.body_]

/-- No string is longer than an `int`. -/
def Short (r : HttpResponse) : Prop := ∀ s ∈ r.strings, s.length < 2 ^ 31

/-- What a keep-alive response may hold. -/
structure Sendable (r : HttpResponse) : Prop where
  keepAlive : r.closeConnection_ = false
  statusCode : r.statusCode_ < 2 ^ 31
  statusMessage : cr ∉ r.statusMessage_ ∧ lf ∉ r.statusMessage_
  names : ∀ h ∈ r.headers_, cr ∉ h.1 ∧ lf ∉ h.1 ∧ byte ':' ∉ h.1 ∧
    h.1 ≠ contentLength ∧ h.1 ≠ connection
  values : ∀ h ∈ r.headers_, cr ∉ h.2 ∧ lf ∉ h.2
  body : r.body_.length < 10 ^ 13

/-- What is to be read of a response. -/
def reply (r : HttpResponse) : HttpReply :=
  { statusCode := r.statusCode_
    statusMessage := r.statusMessage_
    headers := r.headers_
    body := r.body_ }

/-- The outputs of `appendToBuffer` one after the other, each from a buffer of its own. -/
def outputs : List HttpResponse → Except Buffer.Fault Bytes
  | [] => pure []
  | r :: rs => do
      let buf ← r.appendToBuffer Buffer.new
      let rest ← outputs rs
      pure (buf.readable ++ rest)

/-- What is left of a string whose length has become an `int`. -/
def kept (s : Bytes) : Bytes := s.take (s.length % 2 ^ 32)

/-- The bytes of a response of whose strings `f` is left. -/
def written (f : Bytes → Bytes) (r : HttpResponse) : Bytes :=
  snprintf (bytes "HTTP/1.1 " ++ bytes (toString r.statusCode_) ++ bytes " ") ++
    f r.statusMessage_ ++ bytes "\r\n" ++
    (if r.closeConnection_ then bytes "Connection: close\r\n"
      else snprintf (bytes "Content-Length: " ++ bytes (toString r.body_.length) ++ bytes "\r\n") ++
        bytes "Connection: Keep-Alive\r\n") ++
    r.headers_.flatMap (fun h => f h.1 ++ bytes ": " ++ f h.2 ++ bytes "\r\n") ++
    bytes "\r\n" ++ f r.body_

section Append

variable {b : Buffer} {q s : Bytes} {r : HttpResponse} {rs : List HttpResponse}

theorem size_nonneg_iff (n : ℕ) : 0 ≤ (BitVec.ofNat 32 n).toInt ↔ n % 2 ^ 32 < 2 ^ 31 := by
  rw [BitVec.toInt_eq_toNat_cond, BitVec.toNat_ofNat]
  split <;> omega

theorem toNat_size {n : ℕ} (h : n % 2 ^ 32 < 2 ^ 31) :
    (BitVec.ofNat 32 n).toInt.toNat = n % 2 ^ 32 := by
  rw [BitVec.toInt_eq_toNat_cond, BitVec.toNat_ofNat, if_pos (by omega), Int.toNat_natCast]

theorem appendString_of_size (h : b.Represents q) (hs : s.length % 2 ^ 32 < 2 ^ 31) :
    ∃ b', b.appendString s = .ok b' ∧ b'.Represents (q ++ kept s) := by
  obtain ⟨b', hb', hq⟩ := h.append (kept s)
  refine ⟨b', ?_, hq⟩
  rw [Buffer.appendString, check_of ((size_nonneg_iff _).mpr hs), ok_bind, toNat_size hs]
  exact hb'

theorem size_of_appendString {b' : Buffer} (h : b.appendString s = .ok b') :
    s.length % 2 ^ 32 < 2 ^ 31 := by
  simp only [Buffer.appendString, bind_eq_ok, check_eq_ok] at h
  obtain ⟨-, hsize, -⟩ := h
  exact (size_nonneg_iff _).mp hsize

/-- The lines of the headers, of whose strings `f` is left. -/
def headerLines (f : Bytes → Bytes) (hs : List (Bytes × Bytes)) : Bytes :=
  hs.flatMap fun h => f h.1 ++ bytes ": " ++ f h.2 ++ bytes "\r\n"

theorem appendHeaders_of_size {hs : List (Bytes × Bytes)} (h : b.Represents q)
    (hsize : ∀ h ∈ hs, h.1.length % 2 ^ 32 < 2 ^ 31 ∧ h.2.length % 2 ^ 32 < 2 ^ 31) :
    ∃ b', hs.foldlM appendHeader b = .ok b' ∧ b'.Represents (q ++ headerLines kept hs) := by
  induction hs generalizing b q with
  | nil => exact ⟨b, rfl, by simpa [headerLines] using h⟩
  | cons f hs ih =>
    obtain ⟨hname, hvalue⟩ := hsize f List.mem_cons_self
    obtain ⟨b₁, hb₁, h₁⟩ := appendString_of_size h hname
    obtain ⟨b₂, hb₂, h₂⟩ := h₁.append (bytes ": ")
    obtain ⟨b₃, hb₃, h₃⟩ := appendString_of_size h₂ hvalue
    obtain ⟨b₄, hb₄, h₄⟩ := h₃.append (bytes "\r\n")
    obtain ⟨b', hb', h'⟩ := ih h₄ fun h hh => hsize h (List.mem_cons_of_mem _ hh)
    refine ⟨b', ?_, ?_⟩
    · rw [List.foldlM_cons]
      simp only [appendHeader, hb₁, hb₂, hb₃, hb₄, ok_bind]
      exact hb'
    · simpa only [headerLines, List.flatMap_cons, List.append_assoc] using h'

theorem size_of_appendHeaders {hs : List (Bytes × Bytes)} {b' : Buffer}
    (h : hs.foldlM appendHeader b = .ok b') :
    ∀ h ∈ hs, h.1.length % 2 ^ 32 < 2 ^ 31 ∧ h.2.length % 2 ^ 32 < 2 ^ 31 := by
  induction hs generalizing b with
  | nil => simp
  | cons f hs ih =>
    simp only [List.foldlM_cons, appendHeader, bind_eq_ok] at h
    obtain ⟨b₄, ⟨b₁, hb₁, b₂, -, b₃, hb₃, -⟩, hrest⟩ := h
    intro g hg
    rcases List.mem_cons.mp hg with rfl | hg
    · exact ⟨size_of_appendString hb₁, size_of_appendString hb₃⟩
    · exact ih hrest g hg

theorem forall_strings_iff {P : Bytes → Prop} :
    (∀ s ∈ r.strings, P s) ↔
      P r.statusMessage_ ∧ (∀ h ∈ r.headers_, P h.1 ∧ P h.2) ∧ P r.body_ := by
  simp only [strings, List.cons_append, List.mem_cons, List.mem_append, List.mem_flatMap,
    List.not_mem_nil, or_false]
  constructor
  · intro hall
    refine ⟨hall _ (Or.inl rfl), fun h hh => ⟨?_, ?_⟩, hall _ (Or.inr (Or.inr rfl))⟩
    · exact hall _ (Or.inr (Or.inl ⟨h, hh, Or.inl rfl⟩))
    · exact hall _ (Or.inr (Or.inl ⟨h, hh, Or.inr rfl⟩))
  · rintro ⟨hmessage, hheaders, hbody⟩ s (rfl | ⟨h, hh, rfl | rfl⟩ | rfl)
    · exact hmessage
    · exact (hheaders h hh).1
    · exact (hheaders h hh).2
    · exact hbody

theorem appendConnection_represents (r : HttpResponse) (h : b.Represents q) :
    ∃ b', r.appendConnection b = .ok b' ∧ b'.Represents (q ++
      if r.closeConnection_ then bytes "Connection: close\r\n"
      else snprintf (bytes "Content-Length: " ++ bytes (toString r.body_.length) ++ bytes "\r\n") ++
        bytes "Connection: Keep-Alive\r\n") := by
  unfold appendConnection
  split
  · exact h.append (bytes "Connection: close\r\n")
  · obtain ⟨b₁, hb₁, h₁⟩ := h.append
      (snprintf (bytes "Content-Length: " ++ bytes (toString r.body_.length) ++ bytes "\r\n"))
    obtain ⟨b₂, hb₂, h₂⟩ := h₁.append (bytes "Connection: Keep-Alive\r\n")
    refine ⟨b₂, ?_, ?_⟩
    · simp only [hb₁, ok_bind, hb₂]
    · rwa [List.append_assoc] at h₂

/-- The response goes into the buffer with what is left of its strings. -/
theorem appendToBuffer_of_size (h : b.Represents q)
    (hsize : ∀ s ∈ r.strings, s.length % 2 ^ 32 < 2 ^ 31) :
    ∃ b', r.appendToBuffer b = .ok b' ∧ b'.Represents (q ++ r.written kept) := by
  obtain ⟨hmessage, hheaders, hbody⟩ := forall_strings_iff.mp hsize
  obtain ⟨b₁, hb₁, h₁⟩ := h.append
    (snprintf (bytes "HTTP/1.1 " ++ bytes (toString r.statusCode_) ++ bytes " "))
  obtain ⟨b₂, hb₂, h₂⟩ := appendString_of_size h₁ hmessage
  obtain ⟨b₃, hb₃, h₃⟩ := h₂.append (bytes "\r\n")
  obtain ⟨b₄, hb₄, h₄⟩ := r.appendConnection_represents h₃
  obtain ⟨b₅, hb₅, h₅⟩ := appendHeaders_of_size h₄ hheaders
  obtain ⟨b₆, hb₆, h₆⟩ := h₅.append (bytes "\r\n")
  obtain ⟨b₇, hb₇, h₇⟩ := appendString_of_size h₆ hbody
  refine ⟨b₇, ?_, ?_⟩
  · simp only [appendToBuffer, hb₁, hb₂, hb₃, ok_bind, hb₄, hb₅, hb₆, hb₇]
  · simpa only [written, headerLines, List.append_assoc] using h₇

theorem size_of_appendToBuffer {b' : Buffer} (h : r.appendToBuffer b = .ok b') :
    ∀ s ∈ r.strings, s.length % 2 ^ 32 < 2 ^ 31 := by
  simp only [appendToBuffer, bind_eq_ok] at h
  obtain ⟨b₁, -, b₂, hb₂, b₃, -, b₄, -, b₅, hb₅, b₆, -, hb'⟩ := h
  exact forall_strings_iff.mpr
    ⟨size_of_appendString hb₂, size_of_appendHeaders hb₅, size_of_appendString hb'⟩

theorem kept_of_short (h : s.length < 2 ^ 31) : kept s = s := by
  rw [kept, Nat.mod_eq_of_lt (by omega), List.take_length]

/-- A longer string has lost bytes when its length has stayed positive. -/
theorem length_kept (h : s.length % 2 ^ 32 < 2 ^ 31) :
    (kept s).length ≤ s.length ∧ (2 ^ 31 ≤ s.length → (kept s).length < s.length) := by
  have hle := Nat.mod_le s.length (2 ^ 32)
  rw [kept, List.length_take]
  omega

theorem length_headerLines (f : Bytes → Bytes) (hs : List (Bytes × Bytes)) :
    (headerLines f hs).length =
      4 * hs.length + ((hs.flatMap fun h => [h.1, h.2]).map fun s => (f s).length).sum := by
  induction hs with
  | nil => rfl
  | cons h hs ih =>
    have hcolon : (bytes ": ").length = 2 := rfl
    have hend : (bytes "\r\n").length = 2 := rfl
    rw [headerLines, List.flatMap_cons, ← headerLines]
    simp only [List.length_append, List.length_cons, ih, hcolon, hend, List.flatMap_cons,
      List.cons_append, List.nil_append, List.map_cons, List.sum_cons]
    omega

/-- The strings and the rest of a response add up. -/
theorem length_written (r : HttpResponse) :
    ∃ n, ∀ f : Bytes → Bytes,
      (r.written f).length = n + (r.strings.map fun s => (f s).length).sum := by
  refine ⟨(r.written fun _ => []).length, fun f => ?_⟩
  have hheaders := length_headerLines f r.headers_
  have hnone := length_headerLines (fun _ => []) r.headers_
  simp only [List.length_nil, List.map_const', List.sum_replicate_nat, Nat.mul_zero,
    Nat.add_zero] at hnone
  rw [headerLines] at hheaders hnone
  simp only [written, strings, List.length_append, hheaders, hnone, List.length_nil,
    List.cons_append, List.map_cons, List.map_append, List.map_nil, List.sum_cons, List.sum_append,
    List.sum_nil]
  omega

theorem written_of_short (h : r.Short) : r.written kept = r.text := by
  obtain ⟨hmessage, hheaders, hbody⟩ := forall_strings_iff.mp h
  have hlines : (r.headers_.flatMap fun h =>
      kept h.1 ++ bytes ": " ++ kept h.2 ++ bytes "\r\n") =
      r.headers_.flatMap fun h => h.1 ++ bytes ": " ++ h.2 ++ bytes "\r\n" := by
    refine List.flatMap_congr fun h hh => ?_
    rw [kept_of_short (hheaders h hh).1, kept_of_short (hheaders h hh).2]
  rw [written, text, kept_of_short hmessage, hlines, kept_of_short hbody]

/-- What has gone into the buffer is shorter than the response when a string was too long. -/
theorem length_written_le (h : ∀ s ∈ r.strings, s.length % 2 ^ 32 < 2 ^ 31) :
    (r.written kept).length ≤ r.text.length ∧
      (¬ r.Short → (r.written kept).length < r.text.length) := by
  obtain ⟨n, hn⟩ := length_written r
  have htext : r.text.length = n + (r.strings.map fun s => s.length).sum := hn id
  rw [htext, hn kept]
  have hle : ∀ s ∈ r.strings, (kept s).length ≤ s.length := fun s hs => (length_kept (h s hs)).1
  refine ⟨Nat.add_le_add_left (List.sum_le_sum hle) n, fun hlong => ?_⟩
  simp only [Short, not_forall] at hlong
  obtain ⟨s, hs, hlong⟩ := hlong
  refine Nat.add_lt_add_left (List.sum_lt_sum _ _ hle ⟨s, hs, ?_⟩) n
  exact (length_kept (h s hs)).2 (by omega)

/-- Every output is as long as its response, and shorter when a string was too long. -/
theorem length_outputs {stream : Bytes} (h : outputs rs = .ok stream) :
    stream.length ≤ (rs.map fun r => r.text.length).sum ∧
      (¬ (∀ r ∈ rs, r.Short) → stream.length < (rs.map fun r => r.text.length).sum) := by
  induction rs generalizing stream with
  | nil =>
    obtain rfl := Except.ok.inj h
    simp
  | cons r rs ih =>
    simp only [outputs, bind_eq_ok, pure_eq_ok] at h
    obtain ⟨b, hb, rest, hrest, rfl⟩ := h
    have hsize := size_of_appendToBuffer hb
    obtain ⟨b', hb', hrep⟩ := appendToBuffer_of_size Buffer.new_represents hsize
    obtain rfl := Except.ok.inj (hb.symm.trans hb')
    obtain ⟨hle, hlt⟩ := length_written_le hsize
    obtain ⟨hle', hlt'⟩ := ih hrest
    rw [hrep.readable_eq, List.nil_append, List.length_append, List.map_cons, List.sum_cons]
    refine ⟨by omega, fun hlong => ?_⟩
    by_cases hr : r.Short
    · have hrs : ¬ ∀ r ∈ rs, r.Short := by
        intro hall
        exact hlong (List.forall_mem_cons.mpr ⟨hr, hall⟩)
      have := hlt' hrs
      omega
    · have := hlt hr
      omega

end Append

section Text

variable {r : HttpResponse} {rs : List HttpResponse}

theorem bytes_toString (n : ℕ) : bytes (toString n) = decimal n := by
  rw [bytes, Nat.toString_eq_ofList_toDigits, String.toList_ofList, toDigits_eq_decimal]

/-- The lines of the head. -/
def headLines (r : HttpResponse) : List Bytes :=
  (HttpReply.version ++ decimal r.statusCode_ ++ byte ' ' :: r.statusMessage_) ::
    ((contentLength, decimal r.body_.length) :: (connection, keepAlive) :: r.headers_).map
      HttpReply.line

theorem text_eq (h : r.Sendable) :
    r.text = r.headLines.flatMap (fun l => l ++ crlf) ++ crlf ++ r.body_ := by
  have hcode : (decimal r.statusCode_).length ≤ 10 :=
    length_decimal_le (by omega) (by have := h.statusCode; omega)
  have hlength : (decimal r.body_.length).length ≤ 13 := length_decimal_le (by omega) h.body
  have hstatus : snprintf (bytes "HTTP/1.1 " ++ decimal r.statusCode_ ++ bytes " ") =
      HttpReply.version ++ decimal r.statusCode_ ++ [byte ' '] := by
    refine List.take_of_length_le ?_
    have hversion : (bytes "HTTP/1.1 ").length = 9 := rfl
    have hspace : (bytes " ").length = 1 := rfl
    simp only [List.length_append, hversion, hspace]
    omega
  have hcontent : snprintf (bytes "Content-Length: " ++ decimal r.body_.length ++ bytes "\r\n") =
      HttpReply.line (contentLength, decimal r.body_.length) ++ crlf := by
    have hname : bytes "Content-Length: " = contentLength ++ [byte ':', byte ' '] := by decide
    have hend : bytes "\r\n" = crlf := by decide
    have hsize : (contentLength ++ [byte ':', byte ' ']).length = 16 := rfl
    rw [snprintf, List.take_of_length_le, hname, hend, HttpReply.line]
    · simp only [List.append_assoc, List.cons_append, List.nil_append]
    · rw [hname, hend]
      simp only [List.length_append, hsize, crlf, List.length_cons, List.length_nil] at hsize ⊢
      omega
  have hkeep : bytes "Connection: Keep-Alive\r\n" =
      HttpReply.line (connection, keepAlive) ++ crlf := by
    decide
  have hheaders : (r.headers_.flatMap fun h => h.1 ++ bytes ": " ++ h.2 ++ bytes "\r\n") =
      (r.headers_.map HttpReply.line).flatMap fun l => l ++ crlf := by
    rw [List.flatMap_map]
    refine List.flatMap_congr fun h _ => ?_
    have hcolon : bytes ": " = [byte ':', byte ' '] := by decide
    have hend : bytes "\r\n" = crlf := by decide
    rw [HttpReply.line, hcolon, hend]
    simp only [List.append_assoc, List.cons_append, List.nil_append]
  have hend : bytes "\r\n" = crlf := by decide
  rw [text, bytes_toString, bytes_toString, hstatus, hcontent, hkeep, hheaders, h.keepAlive,
    if_neg (by decide), hend, headLines]
  simp only [List.map_cons, List.flatMap_cons, List.append_assoc, List.cons_append,
    List.nil_append]

theorem headLines_lines (h : r.Sendable) : ∀ l ∈ r.headLines, l ≠ [] ∧ search l = none := by
  have hdecimal : ∀ n, cr ∉ decimal n := by
    intro n hmem
    exact absurd (isDigit_of_mem hmem) (by decide)
  intro l hl
  rcases List.mem_cons.mp hl with rfl | hl
  · have hversion : cr ∉ HttpReply.version := by decide
    have hspace : cr ≠ byte ' ' := by decide
    refine ⟨by simp, search_of_notMem ?_⟩
    simp [hversion, hspace, hdecimal, h.statusMessage.1]
  · obtain ⟨f, hf, rfl⟩ := List.mem_map.mp hl
    refine ⟨by simp [HttpReply.line], search_of_notMem ?_⟩
    have hcolon : cr ≠ byte ':' := by decide
    have hspace : cr ≠ byte ' ' := by decide
    have hboth : cr ∉ f.1 ∧ cr ∉ f.2 := by
      rcases List.mem_cons.mp hf with rfl | hf
      · exact ⟨(by decide : cr ∉ contentLength), hdecimal _⟩
      · rcases List.mem_cons.mp hf with rfl | hf
        · exact ⟨by decide, by decide⟩
        · exact ⟨(h.names f hf).1, (h.values f hf).1⟩
    simp [HttpReply.line, hcolon, hspace, hboth.1, hboth.2]

theorem takeHeader_cons (name value : Bytes) {hs : List (Bytes × Bytes)}
    (hne : ∀ h ∈ hs, h.1 ≠ name) :
    HttpReply.takeHeader name ((name, value) :: hs) = some (value, hs) := by
  have hfilter : (hs.filter fun h => h.1 ≠ name) = hs :=
    List.filter_eq_self.mpr fun h hh => by simpa using hne h hh
  rw [HttpReply.takeHeader, List.find?_cons_of_pos (by simp), Option.map_some,
    List.filter_cons_of_neg (by simp), hfilter]

theorem length_le_flatMap (ls : List Bytes) :
    ls.length ≤ (ls.flatMap fun l => l ++ crlf).length := by
  induction ls with
  | nil => exact Nat.le_refl 0
  | cons l ls ih =>
    rw [List.flatMap_cons]
    simp only [List.length_cons, List.length_append, length_crlf]
    omega

/-- The reader finds the response and where it ends. -/
theorem read_text (h : r.Sendable) (rest : Bytes) :
    HttpReply.read (r.text ++ rest) = some (r.reply, rest) := by
  have hhead : HttpReply.splitHead (r.text ++ rest).length (r.text ++ rest) =
      some (r.headLines, r.body_ ++ rest) := by
    have hfuel : r.headLines.length < (r.text ++ rest).length := by
      have hle := length_le_flatMap r.headLines
      rw [text_eq h]
      simp only [List.length_append, length_crlf]
      omega
    have hsplit := HttpReply.splitHead_lines (headLines_lines h) hfuel (r.body_ ++ rest)
    rwa [← List.append_assoc, ← text_eq h] at hsplit
  have hnames : ∀ f ∈ (contentLength, decimal r.body_.length) :: (connection, keepAlive) ::
      r.headers_, byte ':' ∉ f.1 := by
    intro f hf
    rcases List.mem_cons.mp hf with rfl | hf
    · exact (by decide : byte ':' ∉ contentLength)
    · rcases List.mem_cons.mp hf with rfl | hf
      · exact (by decide : byte ':' ∉ connection)
      · exact (h.names f hf).2.2.1
  have hothers : ∀ f ∈ (connection, keepAlive) :: r.headers_, f.1 ≠ contentLength := by
    intro f hf
    rcases List.mem_cons.mp hf with rfl | hf
    · decide
    · exact (h.names f hf).2.2.2.1
  have hlength := takeHeader_cons contentLength (decimal r.body_.length) hothers
  have hconnection := takeHeader_cons connection keepAlive
    fun f hf => (h.names f hf).2.2.2.2
  have hbody : r.body_.length ≤ (r.body_ ++ rest).length := by
    rw [List.length_append]
    omega
  rw [HttpReply.read, hhead, Option.bind_some]
  simp only [headLines, HttpReply.readStatusLine_text, HttpReply.readHeaders_lines hnames, hlength,
    hconnection, readDecimal_decimal, Option.bind_some, hbody, and_true, if_true, List.take_left,
    List.drop_left]
  rfl

/-- What has been sent of the response is no longer than the least text of its reply. -/
theorem size_reply (h : r.Sendable) : r.reply.size = r.text.length := by
  have hlines : ∀ hs : List (Bytes × Bytes),
      ((hs.map HttpReply.line).flatMap fun l => l ++ crlf).length = (hs.map headerSize).sum := by
    intro hs
    induction hs with
    | nil => rfl
    | cons f hs ih =>
      rw [List.map_cons, List.flatMap_cons, List.length_append, ih, List.map_cons, List.sum_cons]
      simp only [HttpReply.line, headerSize, List.length_append, List.length_cons, length_crlf]
      omega
  rw [text_eq h, headLines, List.flatMap_cons, List.length_append, List.length_append,
    List.length_append, hlines]
  simp only [List.length_append, List.map_cons, List.sum_cons, HttpReply.size, reply, length_crlf,
    List.length_cons]
  omega

/-- Short responses are read back one after the other. -/
theorem readAll_outputs (h : ∀ r ∈ rs, r.Sendable) (hshort : ∀ r ∈ rs, r.Short) :
    ∃ stream, outputs rs = .ok stream ∧
      ∀ fuel, rs.length ≤ fuel → HttpReply.readAll fuel stream = some (rs.map reply) := by
  induction rs with
  | nil =>
    refine ⟨[], rfl, fun fuel _ => ?_⟩
    cases fuel <;> rfl
  | cons r rs ih =>
    obtain ⟨rest, hrest, hread⟩ := ih (fun r hr => h r (List.mem_cons_of_mem _ hr))
      fun r hr => hshort r (List.mem_cons_of_mem _ hr)
    have hr := h r List.mem_cons_self
    have hrshort := hshort r List.mem_cons_self
    have hsize : ∀ s ∈ r.strings, s.length % 2 ^ 32 < 2 ^ 31 := by
      intro s hs
      have hlt := hrshort s hs
      rwa [Nat.mod_eq_of_lt (by omega)]
    obtain ⟨b, hb, hrep⟩ := appendToBuffer_of_size Buffer.new_represents hsize
    rw [written_of_short hrshort, List.nil_append] at hrep
    refine ⟨r.text ++ rest, ?_, ?_⟩
    · simp only [outputs, hb, ok_bind, hrest, hrep.readable_eq]
      rfl
    · intro fuel hfuel
      obtain ⟨fuel, rfl⟩ : ∃ n, fuel = n + 1 := ⟨fuel - 1, by simp at hfuel; omega⟩
      cases htext : r.text ++ rest with
      | nil =>
        have hnil := (List.append_eq_nil_iff.mp htext).1
        rw [text_eq hr] at hnil
        simp [crlf] at hnil
      | cons b₁ q =>
        have hstep : HttpReply.readAll (fuel + 1) (b₁ :: q) =
          (HttpReply.read (b₁ :: q)).bind fun p =>
            (HttpReply.readAll fuel p.2).map fun replies => p.1 :: replies := rfl
        rw [hstep, ← htext, read_text hr rest, Option.bind_some, hread fuel (by simpa using hfuel)]
        rfl

theorem length_le_outputs (h : ∀ r ∈ rs, r.Sendable) {stream : Bytes}
    (hs : outputs rs = .ok stream) (hshort : ∀ r ∈ rs, r.Short) : rs.length ≤ stream.length := by
  induction rs generalizing stream with
  | nil => exact Nat.zero_le _
  | cons r rs ih =>
    simp only [outputs, bind_eq_ok, pure_eq_ok] at hs
    obtain ⟨b, hb, rest, hrest, rfl⟩ := hs
    have hle := ih (fun r hr => h r (List.mem_cons_of_mem _ hr)) hrest
      fun r hr => hshort r (List.mem_cons_of_mem _ hr)
    obtain ⟨b', hb', hrep⟩ := appendToBuffer_of_size Buffer.new_represents
      (size_of_appendToBuffer hb)
    obtain rfl := Except.ok.inj (hb.symm.trans hb')
    rw [written_of_short (hshort r List.mem_cons_self), List.nil_append] at hrep
    have hpos : 0 < r.text.length := by
      rw [text_eq (h r List.mem_cons_self)]
      simp [crlf]
    rw [List.length_append, hrep.readable_eq, List.length_cons]
    omega

/-- A stream that is read back has not lost a byte. -/
theorem short_of_decode (h : ∀ r ∈ rs, r.Sendable) {stream : Bytes}
    (hs : outputs rs = .ok stream) (hdecode : HttpReply.decode stream = some (rs.map reply)) :
    ∀ r ∈ rs, r.Short := by
  by_contra hlong
  have hlt := (length_outputs hs).2 hlong
  have hle := HttpReply.size_of_readAll hdecode
  rw [List.map_map] at hle
  have hsame : rs.map (HttpReply.size ∘ reply) = rs.map fun r => r.text.length :=
    List.map_congr_left fun r hr => size_reply (h r hr)
  rw [hsame] at hle
  omega

end Text

section Framing

variable {rs : List HttpResponse}

/-- The outputs of keep-alive responses are read back as these responses exactly when no
string of them is longer than an `int`. -/
theorem responses_delimited_iff (h : ∀ r ∈ rs, r.Sendable) :
    (∃ stream, outputs rs = .ok stream ∧ HttpReply.decode stream = some (rs.map reply)) ↔
      ∀ r ∈ rs, r.Short := by
  constructor
  · rintro ⟨stream, hs, hdecode⟩
    exact short_of_decode h hs hdecode
  · intro hshort
    obtain ⟨stream, hs, hread⟩ := readAll_outputs h hshort
    exact ⟨stream, hs, hread _ (length_le_outputs h hs hshort)⟩

/-- A response `200 OK` without headers. -/
def sampleResponse (body : Bytes) : HttpResponse :=
  { new false with
    statusCode_ := 200
    statusMessage_ := bytes "OK"
    body_ := body }

theorem sampleResponse_sendable {body : Bytes} (h : body.length < 10 ^ 13) :
    (sampleResponse body).Sendable where
  keepAlive := rfl
  statusCode := (by decide : 200 < 2 ^ 31)
  statusMessage := (by decide : cr ∉ bytes "OK" ∧ lf ∉ bytes "OK")
  names := by simp [sampleResponse, new]
  values := by simp [sampleResponse, new]
  body := h

/-- A body that looks like the end of a head, and another response. -/
theorem responses_delimited_sample : ∃ stream,
    outputs [sampleResponse (bytes "\r\n\r\nHTTP/1.1 "), sampleResponse []] = .ok stream ∧
      HttpReply.decode stream =
        some [(sampleResponse (bytes "\r\n\r\nHTTP/1.1 ")).reply, (sampleResponse []).reply] := by
  have hsendable : ∀ r ∈ [sampleResponse (bytes "\r\n\r\nHTTP/1.1 "), sampleResponse []],
      r.Sendable := by
    intro r hr
    rcases List.mem_cons.mp hr with rfl | hr
    · exact sampleResponse_sendable (by decide)
    · obtain rfl := List.mem_singleton.mp hr
      exact sampleResponse_sendable (by decide)
  refine (responses_delimited_iff hsendable).mpr fun r hr s hs => ?_
  rcases List.mem_cons.mp hr with rfl | hr
  · revert s
    decide
  · obtain rfl := List.mem_singleton.mp hr
    revert s
    decide

/-- Of a body of `2 ^ 32` bytes nothing is sent. -/
theorem long_body_not_delimited :
    ¬ ∀ rs : List HttpResponse, (∀ r ∈ rs, r.Sendable) →
      ∃ stream, outputs rs = .ok stream ∧ HttpReply.decode stream = some (rs.map reply) := by
  intro hall
  have hlong : (List.replicate (2 ^ 32) (0 : UInt8)).length = 2 ^ 32 := List.length_replicate ..
  have hsendable : ∀ r ∈ [sampleResponse (List.replicate (2 ^ 32) 0)], r.Sendable := by
    intro r hr
    obtain rfl := List.mem_singleton.mp hr
    exact sampleResponse_sendable (by rw [hlong]; omega)
  obtain ⟨stream, hs, hdecode⟩ := hall _ hsendable
  have hshort := (forall_strings_iff.mp
    (short_of_decode hsendable hs hdecode _ List.mem_cons_self)).2.2
  rw [sampleResponse, hlong] at hshort
  omega

end Framing

end HttpResponse

end MuduoServer
