import MuduoServer.ByteText
import MuduoServer.Calendar
import MuduoServer.Digits
import MuduoServer.FaultMachine

/-!
`muduo/base/LogFile.cc`. What `fwrite` answers and what `time(NULL)` reads come with each
call. A file is known by the second in its name; the files that were closed are kept with
what was written to them. Appending to a file that was never opened is a fault.
-/
namespace MuduoServer

open FaultMachine

/-- `LogFile::File`, and what `fwrite` has taken. -/
structure OpenFile where
  openedAt : ℤ
  contents : Bytes
  writtenBytes_ : ℕ

inductive LogFileFault
  | slashInBasename
  | nullFile
  | noAnswer
  deriving DecidableEq

namespace OpenFile

def new (now : ℤ) : OpenFile := { openedAt := now, contents := [], writtenBytes_ := 0 }

/-- `fwrite` takes `x` bytes. -/
def write (f : OpenFile) (logline : Bytes) (x : ℕ) : OpenFile :=
  { f with contents := f.contents ++ logline.take x }

/-- The loop of `append` with `n` bytes written; the last argument is what the further calls
of `fwrite` answer. -/
def appendLoop (logline : Bytes) (f : OpenFile) (n : ℕ) : List ℕ → Except LogFileFault OpenFile
  | [] => if logline.length - n = 0 then pure f else .error .noAnswer
  | x :: rest =>
      if logline.length - n = 0 then pure f
      else if x = 0 then pure f
      else appendLoop logline (f.write (logline.drop n) x) (n + x) rest

def append (f : OpenFile) (logline : Bytes) : List ℕ → Except LogFileFault OpenFile
  | [] => .error .noAnswer
  | n :: rest => do
      let f ← appendLoop logline (f.write logline n) n rest
      pure { f with writtenBytes_ := f.writtenBytes_ + logline.length }

end OpenFile

structure LogFile where
  basename_ : Bytes
  rollSize_ : ℕ
  flushInterval_ : ℤ
  count_ : ℕ
  startOfPeriod_ : ℤ
  lastRoll_ : ℤ
  lastFlush_ : ℤ
  file_ : Option OpenFile
  closed : List OpenFile

namespace LogFile

def kCheckTimeRoll_ : ℕ := 1024

def kRollPerSeconds_ : ℤ := 60 * 60 * 24

/-- `now / kRollPerSeconds_ * kRollPerSeconds_` -/
def period (now : ℤ) : ℤ := now.tdiv kRollPerSeconds_ * kRollPerSeconds_

/-- The name of the process in the names of its files. -/
structure ProcessInfo where
  hostname : Bytes
  pid : ℕ

/-- `strftime` with `".%Y%m%d-%H%M%S."` -/
def strftime (tm : Calendar.DateTime) : Bytes :=
  bytes "." ++ Digits.decimal tm.year ++ Digits.padded (byte '0') 2 (tm.month + 1) ++
    Digits.padded (byte '0') 2 (tm.day + 1) ++ bytes "-" ++ Digits.padded (byte '0') 2 tm.hour ++
    Digits.padded (byte '0') 2 tm.minute ++ Digits.padded (byte '0') 2 tm.second ++ bytes "."

/-- The name of a file of the second `now`; no file is opened before 1970. -/
def getLogFileName (process : ProcessInfo) (basename : Bytes) (now : ℤ) : Bytes :=
  basename ++ strftime (Calendar.breakDown 1970 now.toNat) ++ process.hostname ++ bytes "." ++
    Digits.decimal process.pid ++ bytes ".log"

/-- `rollFile()` at the time `now`; no two files are opened in one second. -/
def rollFile (l : LogFile) (now : ℤ) : LogFile :=
  if now > l.lastRoll_ then
    { l with
      lastRoll_ := now
      lastFlush_ := now
      startOfPeriod_ := period now
      file_ := some (OpenFile.new now)
      closed := l.closed ++ l.file_.toList }
  else
    l

/-- The members before the first `rollFile`. -/
def unopened (basename : Bytes) (rollSize : ℕ) (flushInterval : ℤ) : LogFile where
  basename_ := basename
  rollSize_ := rollSize
  flushInterval_ := flushInterval
  count_ := 0
  startOfPeriod_ := 0
  lastRoll_ := 0
  lastFlush_ := 0
  file_ := none
  closed := []

/-- The constructor at the time `now`. -/
def new (basename : Bytes) (rollSize : ℕ) (flushInterval now : ℤ) :
    Except LogFileFault LogFile := do
  check (byte '/' ∉ basename) .slashInBasename
  pure ((unopened basename rollSize flushInterval).rollFile now)

/-- `time(NULL)` reads `now` in `append_unlocked` and `later` in the `rollFile` behind it. -/
def checkPeriod (l : LogFile) (now later : ℤ) : LogFile :=
  if period now ≠ l.startOfPeriod_ then l.rollFile later
  else if now - l.lastFlush_ > l.flushInterval_ then { l with lastFlush_ := now }
  else l

/-- What follows the append to the file. -/
def afterAppend (l : LogFile) (writtenBytes : ℕ) (now later : ℤ) : LogFile :=
  if writtenBytes > l.rollSize_ then l.rollFile now
  else if l.count_ > kCheckTimeRoll_ then { l with count_ := 0 }.checkPeriod now later
  else { l with count_ := l.count_ + 1 }

/-- `append_unlocked`, with the answers of `fwrite` and the readings of the clock. -/
def append (l : LogFile) (logline : Bytes) (answers : List ℕ) (now later : ℤ) :
    Except LogFileFault LogFile :=
  match l.file_ with
  | none => .error .nullFile
  | some f => do
      let f ← f.append logline answers
      pure ({ l with file_ := some f }.afterAppend f.writtenBytes_ now later)

/-- The files in the order in which they were opened. -/
def files (l : LogFile) : List OpenFile := l.closed ++ l.file_.toList

end LogFile

end MuduoServer
