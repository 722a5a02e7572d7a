import MuduoServer.Buffer
import MuduoServer.ByteText
import MuduoServer.CrlfLines

/-!
`muduo/net/http`: the request, the parser that goes on where the last read has left it,
and the message callback of `HttpServer` on one connection. The user's callback is any
function of the requests so far, the times at which they were received apart; no string of
its responses is longer than an `int`. What `send` is given counts only while the connection
is connected, and `shutdown` ends that.
-/
namespace MuduoServer

open FaultMachine Block

/-- `std::find`: what stands before the first `c`, and after it. -/
def cut (c : UInt8) : Bytes → Option (Bytes × Bytes)
  | [] => none
  | b :: l => if b = c then some ([], l) else (cut c l).map fun p => (b :: p.1, p.2)

/-- `isspace` of the C locale. -/
def isspace (b : UInt8) : Bool := b = byte ' ' || (9 ≤ b && b ≤ 13)

namespace Buffer

/-- `std::search(peek(), beginWrite(), kCRLF, kCRLF+2)`. -/
def findCRLF (b : Buffer) : Option ℕ :=
  (CrlfLines.search b.readable).map fun k => b.readerIndex_ + k

/-- `append(const StringPiece&)` of a string: `StringPiece` keeps its length as an `int`. -/
def appendString (b : Buffer) (s : Bytes) : Except Fault Buffer := do
  let size := (BitVec.ofNat 32 s.length).toInt
  check (0 ≤ size) .pieceLengthNotInt
  b.append (s.take size.toNat)

end Buffer

namespace HttpRequest

inductive Method
  | kInvalid
  | kGet
  | kPost
  | kHead
  | kPut
  | kDelete
  deriving DecidableEq

inductive Version
  | kUnknown
  | kHttp10
  | kHttp11
  deriving DecidableEq

end HttpRequest

/-- `headers_` is the map from fields to values. -/
structure HttpRequest where
  method_ : HttpRequest.Method
  version_ : HttpRequest.Version
  path_ : Bytes
  receiveTime_ : ℤ
  headers_ : Bytes → Option Bytes

namespace HttpRequest

def new : HttpRequest :=
  { method_ := .kInvalid
    version_ := .kUnknown
    path_ := []
    receiveTime_ := 0
    headers_ := fun _ => none }

inductive Fault
  | methodNotInvalid
  | hangs
  | buffer (f : Buffer.Fault)
  deriving DecidableEq

def methodOf (m : Bytes) : Method :=
  if m = bytes "GET" then .kGet
  else if m = bytes "POST" then .kPost
  else if m = bytes "HEAD" then .kHead
  else if m = bytes "PUT" then .kPut
  else if m = bytes "DELETE" then .kDelete
  else .kInvalid

/-- `assert(method_ == kInvalid)`; the result tells whether the method is known. -/
def setMethod (r : HttpRequest) (m : Bytes) : Except Fault (Bool × HttpRequest) := do
  check (r.method_ = .kInvalid) .methodNotInvalid
  pure (methodOf m ≠ .kInvalid, { r with method_ := methodOf m })

/-- `value` is what stands after the colon; spaces are trimmed on both sides. -/
def addHeader (r : HttpRequest) (field value : Bytes) : HttpRequest :=
  let value := ((value.dropWhile isspace).reverse.dropWhile isspace).reverse
  { r with headers_ := Function.update r.headers_ field (some value) }

def getHeader (r : HttpRequest) (field : Bytes) : Bytes := (r.headers_ field).getD []

/-- What is left in `r` of `swap` with a new request: the version is not swapped. -/
def swapped (r : HttpRequest) : HttpRequest := { new with version_ := r.version_ }

/-- The request without its time. -/
def timeless (r : HttpRequest) : HttpRequest := { r with receiveTime_ := 0 }

end HttpRequest

inductive HttpRequestParseState
  | kExpectRequestLine
  | kExpectHeaders
  | kExpectBody
  | kGotAll
  deriving DecidableEq

structure HttpContext where
  state_ : HttpRequestParseState
  request_ : HttpRequest

namespace HttpContext

def new : HttpContext := { state_ := .kExpectRequestLine, request_ := HttpRequest.new }

def reset (c : HttpContext) : HttpContext :=
  { state_ := .kExpectRequestLine, request_ := c.request_.swapped }

end HttpContext

open HttpRequest (Fault)

def processRequestLine (line : Bytes) (request : HttpRequest) :
    Except Fault (Bool × HttpRequest) :=
  match cut (byte ' ') line with
  | none => pure (false, request)
  | some (method, rest) => do
      let known ← request.setMethod method
      if known.1 then
        match cut (byte ' ') rest with
        | none => pure (false, known.2)
        | some (path, version) =>
            let request := { known.2 with path_ := path }
            if version.length = 8 ∧ version.take 7 = bytes "HTTP/1." then
              if version.getLast? = some (byte '1') then
                pure (true, { request with version_ := .kHttp11 })
              else if version.getLast? = some (byte '0') then
                pure (true, { request with version_ := .kHttp10 })
              else pure (false, request)
            else pure (false, request)
      else pure (false, known.2)

/-- The loop `while (hasMore)`; without fuel it has not come to an end. -/
def parseLoop (receiveTime : ℤ) :
    ℕ → Buffer → HttpContext → Except Fault (Bool × Buffer × HttpContext)
  | 0, _, _ => .error .hangs
  | fuel + 1, buf, context =>
      match context.state_ with
      | .kExpectRequestLine =>
          match buf.findCRLF with
          | none => pure (true, buf, context)
          | some crlf => do
              let ok ← processRequestLine (slice buf.buffer_ buf.readerIndex_ crlf) context.request_
              if ok.1 then
                let buf ← (buf.retrieveUntil (crlf + 2)).mapError .buffer
                parseLoop receiveTime fuel buf
                  { state_ := .kExpectHeaders
                    request_ := { ok.2 with receiveTime_ := receiveTime } }
              else pure (false, buf, { context with request_ := ok.2 })
      | .kExpectHeaders =>
          match buf.findCRLF with
          | none => pure (true, buf, context)
          | some crlf =>
              match cut (byte ':') (slice buf.buffer_ buf.readerIndex_ crlf) with
              | some (field, value) => do
                  let buf ← (buf.retrieveUntil (crlf + 2)).mapError .buffer
                  parseLoop receiveTime fuel buf
                    { context with request_ := context.request_.addHeader field value }
              | none => do
                  -- end of the headers: `hasMore = !context->gotAll()` is false
                  let buf ← (buf.retrieveUntil (crlf + 2)).mapError .buffer
                  pure (true, buf, { context with state_ := .kGotAll })
      -- nothing is done for a body, nor once everything has been received
      | .kExpectBody | .kGotAll => parseLoop receiveTime fuel buf context

/-- Every line that is handled leaves the buffer, so its size bounds the number of rounds. -/
def parseRequest (buf : Buffer) (context : HttpContext) (receiveTime : ℤ) :
    Except Fault (Bool × Buffer × HttpContext) :=
  parseLoop receiveTime (buf.readableBytes + 1) buf context

/-- `headers_` in the order of the map. -/
structure HttpResponse where
  headers_ : List (Bytes × Bytes)
  statusCode_ : ℕ
  statusMessage_ : Bytes
  closeConnection_ : Bool
  body_ : Bytes

namespace HttpResponse

def new (close : Bool) : HttpResponse :=
  { headers_ := []
    statusCode_ := 0
    statusMessage_ := []
    closeConnection_ := close
    body_ := [] }

/-- `snprintf` into `char buf[32]`. -/
def snprintf (s : Bytes) : Bytes := s.take 31

/-- The bytes of the response, when no string of it is longer than an `int`. -/
def text (r : HttpResponse) : Bytes :=
  snprintf (bytes "HTTP/1.1 " ++ bytes (toString r.statusCode_) ++ bytes " ") ++
    r.statusMessage_ ++ bytes "\r\n" ++
    (if r.closeConnection_ then bytes "Connection: close\r\n"
      else snprintf (bytes "Content-Length: " ++ bytes (toString r.body_.length) ++ bytes "\r\n") ++
        bytes "Connection: Keep-Alive\r\n") ++
    r.headers_.flatMap (fun h => h.1 ++ bytes ": " ++ h.2 ++ bytes "\r\n") ++
    bytes "\r\n" ++ r.body_

def appendConnection (r : HttpResponse) (output : Buffer) : Except Buffer.Fault Buffer :=
  if r.closeConnection_ then output.append (bytes "Connection: close\r\n")
  else do
    let output ← output.append
      (snprintf (bytes "Content-Length: " ++ bytes (toString r.body_.length) ++ bytes "\r\n"))
    output.append (bytes "Connection: Keep-Alive\r\n")

def appendHeader (output : Buffer) (h : Bytes × Bytes) : Except Buffer.Fault Buffer := do
  let output ← output.appendString h.1
  let output ← output.append (bytes ": ")
  let output ← output.appendString h.2
  output.append (bytes "\r\n")

/-- The strings go through `StringPiece`, the literals and `buf` are short. -/
def appendToBuffer (r : HttpResponse) (output : Buffer) : Except Buffer.Fault Buffer := do
  let output ← output.append
    (snprintf (bytes "HTTP/1.1 " ++ bytes (toString r.statusCode_) ++ bytes " "))
  let output ← output.appendString r.statusMessage_
  let output ← output.append (bytes "\r\n")
  let output ← r.appendConnection output
  let output ← r.headers_.foldlM appendHeader output
  let output ← output.append (bytes "\r\n")
  output.appendString r.body_

end HttpResponse

/-- What has come out of one connection: the requests given to `httpCallback_`, and the
messages that `send` has taken. -/
structure HttpAnswers where
  dispatched : List HttpRequest
  sent : List Bytes
  connected : Bool

namespace HttpAnswers

def new : HttpAnswers := { dispatched := [], sent := [], connected := true }

def send (o : HttpAnswers) (message : Bytes) : HttpAnswers :=
  if o.connected then { o with sent := o.sent ++ [message] } else o

def shutdown (o : HttpAnswers) : HttpAnswers := { o with connected := false }

/-- What `onMessage` answers when `parseRequest` fails. -/
def badRequest (o : HttpAnswers) : HttpAnswers :=
  (o.send (bytes "HTTP/1.1 400 Bad Request\r\n\r\n")).shutdown

variable (httpCallback_ : List HttpRequest → HttpResponse → HttpResponse)

def onRequest (o : HttpAnswers) (req : HttpRequest) : HttpAnswers :=
  let connection := req.getHeader (bytes "Connection")
  let close : Bool := connection = bytes "close" ∨
    (req.version_ = .kHttp10 ∧ connection ≠ bytes "Keep-Alive")
  let dispatched := o.dispatched ++ [req.timeless]
  let response := httpCallback_ dispatched (HttpResponse.new close)
  let o := { o with dispatched := dispatched }.send response.text
  if response.closeConnection_ then o.shutdown else o

end HttpAnswers

structure HttpConnection where
  context : HttpContext
  inputBuffer_ : Buffer
  answers : HttpAnswers

namespace HttpConnection

/-- `onConnection` binds a new context to the connection. -/
def new : HttpConnection :=
  { context := HttpContext.new
    inputBuffer_ := Buffer.new
    answers := HttpAnswers.new }

variable (httpCallback_ : List HttpRequest → HttpResponse → HttpResponse)

def onMessage (c : HttpConnection) (receiveTime : ℤ) : Except Fault HttpConnection := do
  let parsed ← parseRequest c.inputBuffer_ c.context receiveTime
  let context := parsed.2.2
  let answers := if parsed.1 then c.answers else c.answers.badRequest
  if context.state_ = .kGotAll then
    pure { context := context.reset
           inputBuffer_ := parsed.2.1
           answers := answers.onRequest httpCallback_ context.request_ }
  else
    pure { context := context, inputBuffer_ := parsed.2.1, answers := answers }

/-- `TcpConnection::handleRead` with the bytes of one read and its time. -/
def step (c : HttpConnection) (read : Bytes × ℤ) : Except Fault HttpConnection := do
  let buf ← (c.inputBuffer_.readFd (.bytes read.1)).mapError .buffer
  onMessage httpCallback_ { c with inputBuffer_ := buf } read.2

/-- A read without bytes is the end of the stream, which `onMessage` does not see. -/
def machine : Machine HttpConnection (Bytes × ℤ) Fault where
  init c := c = new
  enabled _ read := read.1 ≠ []
  step c read := c.step httpCallback_ read

end HttpConnection

end MuduoServer
