import MuduoServer.Http
import MuduoServer.NestedMap
import MuduoServer.Segments

/-!
`muduo/net/inspect`: commands of the process that are called over HTTP. The path of a
request is split at its slashes into the module, the command and the arguments, and the
path `/` lists what there is. A callback may read and change the state of the process,
which stands for all that it does.
-/
namespace MuduoServer

open Block NestedMap Segments

def slash : UInt8 := byte '/'
def tab : UInt8 := byte '\t'
def newline : UInt8 := byte '\n'

namespace HttpResponse

def setStatusCode (r : HttpResponse) (code : ℕ) : HttpResponse := { r with statusCode_ := code }

def setStatusMessage (r : HttpResponse) (message : Bytes) : HttpResponse :=
  { r with statusMessage_ := message }

/-- `headers_[key] = value` -/
def addHeader (r : HttpResponse) (key value : Bytes) : HttpResponse :=
  { r with headers_ := ((Std.TreeMap.ofList r.headers_ compare).insert key value).toList }

def setContentType (r : HttpResponse) (contentType : Bytes) : HttpResponse :=
  r.addHeader (bytes "Content-Type") contentType

def setBody (r : HttpResponse) (body : Bytes) : HttpResponse := { r with body_ := body }

end HttpResponse

abbrev ArgList := List Bytes

/-- The string of a callback, and what it makes of the state of the process. -/
abbrev Callback (σ : Type) := HttpRequest.Method → ArgList → σ → Bytes × σ

/-- An entry of `commands_` may be empty. -/
structure Inspector (σ : Type) where
  commands_ : Nested Bytes (Option (Callback σ))
  helps_ : Nested Bytes Bytes

namespace Inspector

/-- The loop of `split` at the index `start`, with what it leaves there. -/
def splitLoop (str : Bytes) (start : ℕ) (result : List Bytes) : List Bytes × ℕ :=
  match _hfind : find slash str start with
  | none => (result, start)
  | some pos =>
    splitLoop str (pos + 1) (if pos > start then result ++ [slice str start pos] else result)
termination_by str.length - start
decreasing_by
  have hbounds := find_bounds _hfind
  omega

def split (str : Bytes) : List Bytes :=
  let (result, start) := splitLoop str 0 []
  if start < str.length then result ++ [str.drop start] else result

section Requests

variable {σ : Type}

def new : Inspector σ := { commands_ := ∅, helps_ := ∅ }

def add (ins : Inspector σ) (module command : Bytes) (cb : Option (Callback σ)) (help : Bytes) :
    Inspector σ :=
  { commands_ := assign ins.commands_ module command cb
    helps_ := assign ins.helps_ module command help }

def helpLine (module command help : Bytes) : Bytes :=
  bytes "/" ++ module ++ bytes "/" ++ command ++ bytes "\t" ++ help

/-- What is put together from `helps_`. -/
def listing (ins : Inspector σ) : Bytes :=
  (entries ins.helps_).flatMap fun e => helpLine e.1 e.2.1 e.2.2 ++ bytes "\n"

def ok (resp : HttpResponse) (body : Bytes) : HttpResponse :=
  (((resp.setStatusCode 200).setStatusMessage (bytes "OK")).setContentType
    (bytes "text/plain")).setBody body

def notFound (resp : HttpResponse) : HttpResponse :=
  (resp.setStatusCode 404).setStatusMessage (bytes "Not Found")

def onRequest (ins : Inspector σ) (req : HttpRequest) (resp : HttpResponse) (world : σ) :
    HttpResponse × σ :=
  if req.path_ = bytes "/" then (ok resp ins.listing, world)
  else
    match split req.path_ with
    | module :: command :: args =>
      match ins.commands_[module]? with
      | some commList =>
        match commList[command]? with
        | some (some cb) =>
          let (body, world) := cb req.method_ args world
          (ok resp body, world)
        | _ => (notFound resp, world)
      | none => (notFound resp, world)
    | _ => (notFound resp, world)

end Requests

theorem splitLoop_spec (str : Bytes) (start : ℕ) (result : List Bytes) :
    (if (splitLoop str start result).2 < str.length then
      (splitLoop str start result).1 ++ [str.drop (splitLoop str start result).2]
    else (splitLoop str start result).1) = result ++ pieces slash (str.drop start) := by
  fun_induction splitLoop str start result with
  | case1 start result hfind =>
    rw [pieces_of_notMem (find_eq_none hfind)]
    by_cases hlt : start < str.length
    · simp [hlt]
    · simp [List.drop_eq_nil_of_le (Nat.le_of_not_lt hlt), hlt]
  | case2 start result pos hfind ih =>
    obtain ⟨piece, heq, hfree, hpos, hpiece⟩ := exists_piece_of_find hfind
    simp only [dite_eq_ite] at ih
    rw [ih, heq, pieces_split, pieces_of_notMem hfree, hpiece]
    cases piece with
    | nil => simp [hpos]
    | cons c piece => simp [hpos]

/-- The loop finds the pieces of the path. -/
theorem split_eq_pieces (str : Bytes) : split str = pieces slash str := splitLoop_spec str 0 []

end Inspector

end MuduoServer
