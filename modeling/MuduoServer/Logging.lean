import MuduoServer.Calendar
import MuduoServer.LogStream

/-!
`Logger` of `muduo/base/Logging.cc`, and `CurrentThread::cacheTid`. The variables that every
thread has its own of are passed from one log statement to the next. The arrays among them
are written by `snprintf`; each `assert` is a `check`. What the kernel and the C library
answer, `gettid` and `strerror_r`, comes from outside.
-/
namespace MuduoServer

open FaultMachine

inductive LoggingFault
  | stream (fault : LogFormat.Fault)
  | tidLength
  | textLength
  | timeLength
  | microsecondsLength
  | fmtLength
  deriving DecidableEq

/-- The `__thread` variables. -/
structure ThreadLocal where
  t_time : Bytes
  t_lastSecond : ℕ
  t_cachedTid : ℕ
  t_tidString : Bytes

/-- They start out as zeros. -/
def ThreadLocal.new : ThreadLocal :=
  { t_time := List.replicate 32 0
    t_lastSecond := 0
    t_cachedTid := 0
    t_tidString := List.replicate 32 0 }

namespace CurrentThread

def tidText (tid : ℕ) : Bytes := Digits.padded (byte ' ') 5 tid ++ bytes " "

def cacheTid (gettid : ℕ) (t : ThreadLocal) : Except LoggingFault ThreadLocal := do
  if t.t_cachedTid = 0 then
    let (n, tidString) ← (snprintf t.t_tidString 0 32 (tidText gettid)).mapError .stream
    check (n = 6) .tidLength
    pure { t with t_cachedTid := gettid, t_tidString := tidString }
  else
    pure t

/-- `tid()` for the thread that `gettid` names. -/
def tid (gettid : ℕ) (t : ThreadLocal) : Except LoggingFault ThreadLocal :=
  if t.t_cachedTid = 0 then cacheTid gettid t else pure t

end CurrentThread

structure Fmt where
  buf_ : Bytes
  length_ : ℕ

/-- The constructor, for the text of the value under the format. -/
def Fmt.new (text : Bytes) : Except LoggingFault Fmt := do
  let (length, buf) ← (snprintf (List.replicate 32 0) 0 32 text).mapError .stream
  check (length < 32) .fmtLength
  pure { buf_ := buf, length_ := length }

inductive LogLevel
  | TRACE
  | DEBUG
  | INFO
  | WARN
  | ERROR
  | FATAL
  deriving DecidableEq

def LogLevelName : LogLevel → Bytes
  | .TRACE => bytes "TRACE "
  | .DEBUG => bytes "DEBUG "
  | .INFO => bytes "INFO  "
  | .WARN => bytes "WARN  "
  | .ERROR => bytes "ERROR "
  | .FATAL => bytes "FATAL "

/-- `SourceFile`: the path behind its last slash. -/
def SourceFile (path : Bytes) : Bytes := (path.reverse.takeWhile (· ≠ byte '/')).reverse

/-- The values of `int`. -/
abbrev CInt := LogFormat.IntegerType.Value .int

/-- The constructors of `Logger` with their arguments. -/
inductive LoggerCall
  | info (path : Bytes) (line : CInt)
  | withFunc (path : Bytes) (line : CInt) (level : LogLevel) (func : Bytes)
  | withLevel (path : Bytes) (line : CInt) (level : LogLevel)
  | system (path : Bytes) (line : CInt) (toAbort : Bool) (errno : CInt)

def LoggerCall.level : LoggerCall → LogLevel
  | .info _ _ => .INFO
  | .withFunc _ _ level _ => level
  | .withLevel _ _ level => level
  | .system _ _ toAbort _ => if toAbort then .FATAL else .ERROR

/-- `Logger::Impl`. -/
structure LoggerImpl where
  stream_ : LogStream
  level_ : LogLevel
  line_ : CInt
  basename_ : Bytes

namespace Logger

/-- What `operator<<` of a `T(str, len)` appends. -/
def T (str : Bytes) (len : ℕ) : Except LoggingFault Bytes := do
  check ((cString str).length = len) .textLength
  pure (str.take len)

/-- `gmtime_r`; `tm_year + 1900` and `tm_mon + 1` are printed. -/
def gmtime (seconds : ℕ) : Calendar.DateTime := Calendar.breakDown 1970 seconds

/-- `"%4d%02d%02d %02d:%02d:%02d"` -/
def dateText (tm : Calendar.DateTime) : Bytes :=
  Digits.padded (byte ' ') 4 tm.year ++ Digits.padded (byte '0') 2 (tm.month + 1) ++
    Digits.padded (byte '0') 2 (tm.day + 1) ++ bytes " " ++
    Digits.padded (byte '0') 2 tm.hour ++ bytes ":" ++ Digits.padded (byte '0') 2 tm.minute ++
    bytes ":" ++ Digits.padded (byte '0') 2 tm.second

/-- `".%06dZ "` -/
def microsecondsText (microseconds : ℕ) : Bytes :=
  bytes "." ++ Digits.padded (byte '0') 6 microseconds ++ bytes "Z "

/-- The second is formatted when it is not the one in `t_time`. -/
def cacheSecond (t : ThreadLocal) (seconds : ℕ) : Except LoggingFault ThreadLocal := do
  if seconds ≠ t.t_lastSecond then
    let (len, time) ← (snprintf t.t_time 0 32 (dateText (gmtime seconds))).mapError .stream
    check (len = 17) .timeLength
    pure { t with t_lastSecond := seconds, t_time := time }
  else
    pure t

variable {D : Type} (percent12g : D → NumericText) (strerror : ℤ → Bytes)

def insert (s : LogStream) (xs : List (Insertion D)) : Except LoggingFault LogStream :=
  (s.insertAll percent12g xs).mapError .stream

def formatTime (t : ThreadLocal) (microSecondsSinceEpoch : ℕ) (s : LogStream) :
    Except LoggingFault (ThreadLocal × LogStream) := do
  let seconds := microSecondsSinceEpoch / 1000000
  let microseconds := microSecondsSinceEpoch % 1000000
  let t ← cacheSecond t seconds
  let us ← Fmt.new (microsecondsText microseconds)
  check (us.length_ = 9) .microsecondsLength
  let time ← T t.t_time 17
  let usText ← T us.buf_ 9
  let s ← insert percent12g s [.append time, .append usText]
  pure (t, s)

/-- `strerror_tl(savedErrno)`, and the number. -/
def errnoText (savedErrno : CInt) : List (Insertion D) :=
  if savedErrno.1 ≠ 0 then
    [.charPtr (strerror savedErrno.1), .charPtr (bytes " (errno="), .integer .int savedErrno,
      .charPtr (bytes ") ")]
  else []

/-- `Logger::Impl::Impl` at the time `now`. -/
def implNew (gettid : ℕ) (t : ThreadLocal) (now : ℕ) (level : LogLevel) (savedErrno : CInt)
    (path : Bytes) (line : CInt) : Except LoggingFault (ThreadLocal × LoggerImpl) := do
  let (t, s) ← formatTime percent12g t now LogStream.new
  let t ← CurrentThread.tid gettid t
  let tidString ← T t.t_tidString 6
  let name ← T (LogLevelName level) 6
  let s ← insert percent12g s
    (.append tidString :: .append name :: errnoText strerror savedErrno)
  pure (t, { stream_ := s, level_ := level, line_ := line, basename_ := SourceFile path })

def zeroInt : CInt := ⟨0, by decide⟩

/-- The constructors of `Logger`. -/
def new (gettid : ℕ) (t : ThreadLocal) (now : ℕ) :
    LoggerCall → Except LoggingFault (ThreadLocal × LoggerImpl)
  | .info path line => implNew percent12g strerror gettid t now .INFO zeroInt path line
  | .withFunc path line level func => do
      let (t, impl) ← implNew percent12g strerror gettid t now level zeroInt path line
      let s ← insert percent12g impl.stream_ [.charPtr func, .char (byte ' ')]
      pure (t, { impl with stream_ := s })
  | .withLevel path line level => implNew percent12g strerror gettid t now level zeroInt path line
  | .system path line toAbort errno =>
      implNew percent12g strerror gettid t now (if toAbort then .FATAL else .ERROR) errno path line

def finish (impl : LoggerImpl) : Except LoggingFault LoggerImpl := do
  let s ← insert percent12g impl.stream_
    [.charPtr (bytes " - "), .append impl.basename_, .char (byte ':'), .integer .int impl.line_,
      .char (byte '\n')]
  pure { impl with stream_ := s }

/-- `~Logger`: what `g_output` is given. -/
def destroy (impl : LoggerImpl) : Except LoggingFault Bytes := do
  let impl ← finish percent12g impl
  pure impl.stream_.buffer_.asString

/-- A log statement: a `Logger`, the time at which it is made, and what is streamed into it. -/
structure Statement (D : Type) where
  call : LoggerCall
  now : ℕ
  message : List (Insertion D)

/-- The `Logger` of a statement with the whole message in its stream. -/
def write (gettid : ℕ) (t : ThreadLocal) (st : Statement D) :
    Except LoggingFault (ThreadLocal × LoggerImpl) := do
  let (t, impl) ← new percent12g strerror gettid t st.now st.call
  let s ← insert percent12g impl.stream_ st.message
  pure (t, { impl with stream_ := s })

/-- The records of the statements of one thread; `FATAL` aborts. -/
def logAll (gettid : ℕ) (t : ThreadLocal) :
    List (Statement D) → Except LoggingFault (List Bytes)
  | [] => pure []
  | st :: rest => do
      let (t, impl) ← write percent12g strerror gettid t st
      let record ← destroy percent12g impl
      if impl.level_ = .FATAL then
        pure [record]
      else
        let records ← logAll gettid t rest
        pure (record :: records)

end Logger

end MuduoServer
