import MuduoServer.Logging

/-!
The header of a log record. Its date is formatted when the second is not the one formatted
last, and the texts of fixed width are asserted: no assertion fails, and every record has
its own time, just when the thread id has at most five digits and the first statement of the
thread is not made in the first second of the epoch, for which nothing is cached yet.
-/
namespace MuduoServer

open Block FaultMachine

/-- The array of 32 characters holds a text and its NUL. -/
structure HeldText (mem text : Bytes) : Prop where
  size : mem.length = 32
  stored : ∃ rest, mem = text ++ 0 :: rest
  noNul : 0 ∉ text

namespace HeldText

variable {mem text : Bytes}

theorem cString_eq (h : HeldText mem text) : cString mem = text := by
  obtain ⟨rest, rfl⟩ := h.stored
  rw [cString, List.takeWhile_append_of_pos]
  · simp
  · intro c hc
    simp only [decide_eq_true_eq]
    intro hzero
    exact h.noNul (hzero ▸ hc)

theorem take_eq (h : HeldText mem text) : mem.take text.length = text := by
  obtain ⟨rest, rfl⟩ := h.stored
  exact List.take_left

/-- `snprintf` into the array. -/
theorem of_snprintf (hsize : mem.length = 32) (hlen : text.length < 32) (hnul : 0 ∉ text) :
    ∃ mem', snprintf mem 0 32 text = .ok (text.length, mem') ∧ HeldText mem' text := by
  have hroom : (text ++ [0]).length ≤ mem.length := by
    rw [List.length_append, List.length_singleton]
    omega
  refine ⟨_, snprintf_eq hlen (by omega), ?_, ⟨mem.drop (text.length + 1), ?_⟩, hnul⟩
  · rw [length_overwrite _ _ _ (by omega), hsize]
  · rw [overwrite, List.take_zero, List.nil_append, Nat.zero_add, List.length_append,
      List.length_singleton, List.append_assoc, List.singleton_append]

theorem nul (h : mem = List.replicate 32 0) : HeldText mem [] := by
  subst h
  exact ⟨rfl, ⟨List.replicate 31 0, rfl⟩, by simp⟩

end HeldText

namespace Logger

variable {mem text : Bytes} {n : ℕ}

theorem T_eq (h : HeldText mem text) (hn : text.length = n) : T mem n = .ok text := by
  subst hn
  rw [T, h.cString_eq, check_of rfl, ok_bind, h.take_eq]
  rfl

theorem T_error (h : HeldText mem text) (hn : text.length ≠ n) : T mem n = .error .textLength := by
  rw [T, h.cString_eq, check, if_neg hn]
  rfl

section Texts

theorem nul_notMem_dateText (tm : Calendar.DateTime) : 0 ∉ dateText tm := by
  have hblank : byte ' ' ≠ 0 := by decide
  have hzero : byte '0' ≠ 0 := by decide
  have hsep : (0 : UInt8) ∉ bytes " " := by decide
  have hcolon : (0 : UInt8) ∉ bytes ":" := by decide
  simp only [dateText, List.mem_append, Digits.zero_notMem_padded hblank,
    Digits.zero_notMem_padded hzero, hsep, hcolon, or_self, not_false_eq_true]

theorem length_dateText {tm : Calendar.DateTime} (h : tm.Valid) (hyear : tm.year < 10000) :
    (dateText tm).length = 17 := by
  have hmonth := h.month
  have hday := h.day
  have hlength := Calendar.monthLength_le tm.year tm.month
  have hhour := h.hour
  have hminute := h.minute
  have hsecond := h.second
  have hsep : (bytes " ").length = 1 := rfl
  have hcolon : (bytes ":").length = 1 := rfl
  simp only [dateText, List.length_append, hsep, hcolon]
  rw [Digits.length_padded _ (by omega) (by omega), Digits.length_padded _ (by omega) (by omega),
    Digits.length_padded _ (by omega) (by omega), Digits.length_padded _ (by omega) (by omega),
    Digits.length_padded _ (by omega) (by omega), Digits.length_padded _ (by omega) (by omega)]

theorem nul_notMem_microsecondsText (n : ℕ) : 0 ∉ microsecondsText n := by
  have hzero : byte '0' ≠ 0 := by decide
  have hdot : (0 : UInt8) ∉ bytes "." := by decide
  have hend : (0 : UInt8) ∉ bytes "Z " := by decide
  simp only [microsecondsText, List.mem_append, Digits.zero_notMem_padded hzero, hdot, hend,
    or_self, not_false_eq_true]

theorem length_microsecondsText (h : n < 1000000) : (microsecondsText n).length = 9 := by
  have hdot : (bytes ".").length = 1 := rfl
  have hend : (bytes "Z ").length = 2 := rfl
  rw [microsecondsText, List.length_append, List.length_append, hdot, hend,
    Digits.length_padded _ (by omega) (by omega)]

theorem nul_notMem_tidText (tid : ℕ) : 0 ∉ CurrentThread.tidText tid := by
  have hblank : byte ' ' ≠ 0 := by decide
  have hsep : (0 : UInt8) ∉ bytes " " := by decide
  simp only [CurrentThread.tidText, List.mem_append, Digits.zero_notMem_padded hblank, hsep,
    or_self, not_false_eq_true]

/-- A thread id takes six characters just when it has at most five digits. -/
theorem length_tidText_iff {tid : ℕ} : (CurrentThread.tidText tid).length = 6 ↔ tid < 100000 := by
  have hsep : (bytes " ").length = 1 := rfl
  rw [CurrentThread.tidText, List.length_append, hsep]
  constructor
  · intro hlen
    have hle := Digits.le_length_padded (byte ' ') 5 tid
    rw [Digits.length_decimal] at hle
    exact (Digits.length_digits_le_iff (b := 10) (k := 5) (by omega) (by omega)).mp (by omega)
  · intro hlt
    rw [Digits.length_padded _ (by omega) (by omega)]

end Texts

/-- Microseconds from the epoch to the year 10000. -/
def yearTenThousand : ℕ := 253402300800 * 1000000

/-- The date and time of day of a time, and its microseconds. -/
def timeText (now : ℕ) : Bytes :=
  dateText (gmtime (now / 1000000)) ++ microsecondsText (now % 1000000)

theorem gmtime_year_lt {now : ℕ} (h : now < yearTenThousand) :
    (gmtime (now / 1000000)).year < 10000 := by
  apply Calendar.breakDown_year_lt
  have hdays : (Calendar.daysBeforeYear 10000 - Calendar.daysBeforeYear 1970) * 86400 =
      253402300800 := by decide
  rw [hdays]
  unfold yearTenThousand at h
  omega

theorem length_gmtimeText {now : ℕ} (h : now < yearTenThousand) :
    (dateText (gmtime (now / 1000000))).length = 17 :=
  length_dateText (Calendar.breakDown_valid _ _) (gmtime_year_lt h)

/-- The variables of a thread that has made a statement. -/
structure Ready (tid : ℕ) (t : ThreadLocal) : Prop where
  time : HeldText t.t_time (dateText (gmtime t.t_lastSecond))
  cached : t.t_cachedTid = tid
  tidString : HeldText t.t_tidString (CurrentThread.tidText tid)
  width : (CurrentThread.tidText tid).length = 6

/-- The date of the second is in the array afterwards, formatted now or before. -/
theorem cacheSecond_eq {t : ThreadLocal} {seconds : ℕ} (hsize : t.t_time.length = 32)
    (hlen : (dateText (gmtime seconds)).length = 17)
    (hcached : seconds = t.t_lastSecond → HeldText t.t_time (dateText (gmtime seconds))) :
    ∃ mem, cacheSecond t seconds = .ok { t with t_lastSecond := seconds, t_time := mem } ∧
      HeldText mem (dateText (gmtime seconds)) := by
  by_cases hsame : seconds = t.t_lastSecond
  · refine ⟨t.t_time, ?_, hcached hsame⟩
    rw [cacheSecond, if_neg (by simpa using hsame), hsame]
    rfl
  · obtain ⟨mem, hmem, hheld⟩ :=
      HeldText.of_snprintf hsize (by omega) (nul_notMem_dateText (gmtime seconds))
    refine ⟨mem, ?_, hheld⟩
    rw [cacheSecond, if_pos hsame, hmem, mapError_ok, ok_bind]
    dsimp only
    rw [check_of hlen, ok_bind]
    rfl

theorem Fmt_new_eq (h : text.length < 32) (hnul : 0 ∉ text) :
    ∃ mem, Fmt.new text = .ok { buf_ := mem, length_ := text.length } ∧ HeldText mem text := by
  have hsize : (List.replicate 32 (0 : UInt8)).length = 32 := rfl
  obtain ⟨mem, hmem, hheld⟩ := HeldText.of_snprintf hsize h hnul
  refine ⟨mem, ?_, hheld⟩
  rw [Fmt.new, hmem, mapError_ok, ok_bind]
  dsimp only
  rw [check_of h, ok_bind]
  rfl

section Statements

variable {D : Type} (percent12g : D → NumericText) (strerror : ℤ → Bytes) {tid now : ℕ}
  {t : ThreadLocal} {s : LogStream} {row : Bytes}

open WholePieces LogStream

theorem insert_holds (h : s.Holds row) (xs : List (Insertion D)) :
    ∃ s', insert percent12g s xs = .ok s' ∧
      s'.Holds (putAll kSmallBuffer row (xs.map (Insertion.piece percent12g))) := by
  obtain ⟨s', hs', hholds⟩ := h.insertAll percent12g xs
  exact ⟨s', by rw [insert, hs', mapError_ok], hholds⟩

/-- The time comes first in the stream. -/
theorem formatTime_eq (hnow : now < yearTenThousand) (hsize : t.t_time.length = 32)
    (hcached : now / 1000000 = t.t_lastSecond →
      HeldText t.t_time (dateText (gmtime (now / 1000000)))) :
    ∃ mem s, formatTime percent12g t now LogStream.new =
        .ok ({ t with t_lastSecond := now / 1000000, t_time := mem }, s) ∧
      HeldText mem (dateText (gmtime (now / 1000000))) ∧ s.Holds (timeText now) := by
  have hlen := length_gmtimeText hnow
  have hmicro := length_microsecondsText (n := now % 1000000) (by omega)
  obtain ⟨mem, hmem, hheld⟩ := cacheSecond_eq hsize hlen hcached
  obtain ⟨us, hus, husHeld⟩ :=
    Fmt_new_eq (by omega) (nul_notMem_microsecondsText (now % 1000000))
  obtain ⟨s, hs, hholds⟩ := insert_holds percent12g new_holds
    [.append (dateText (gmtime (now / 1000000))), .append (microsecondsText (now % 1000000))]
  refine ⟨mem, s, ?_, hheld, ?_⟩
  · rw [formatTime, hmem, ok_bind, hus, ok_bind]
    dsimp only
    rw [check_of hmicro, ok_bind, T_eq hheld hlen, ok_bind, T_eq husHeld hmicro, ok_bind, hs,
      ok_bind]
    rfl
  · have hrow : putAll kSmallBuffer []
        ([Insertion.append (dateText (gmtime (now / 1000000))),
          .append (microsecondsText (now % 1000000))].map (Insertion.piece percent12g)) =
        timeText now := by
      have hwhole := putAll_whole kSmallBuffer []
        [dateText (gmtime (now / 1000000)), microsecondsText (now % 1000000)] (by
          rw [List.flatten_cons, List.flatten_cons, List.flatten_nil, List.append_nil,
            List.length_append, hlen, hmicro]
          decide)
      rw [List.flatten_cons, List.flatten_cons, List.flatten_nil, List.append_nil,
        List.nil_append] at hwhole
      exact hwhole
    rwa [hrow] at hholds

theorem cacheTid_eq (hsize : t.t_tidString.length = 32) (hzero : t.t_cachedTid = 0)
    (hwidth : (CurrentThread.tidText tid).length = 6) :
    ∃ mem, CurrentThread.cacheTid tid t = .ok { t with t_cachedTid := tid, t_tidString := mem } ∧
      HeldText mem (CurrentThread.tidText tid) := by
  obtain ⟨mem, hmem, hheld⟩ := HeldText.of_snprintf hsize (by omega) (nul_notMem_tidText tid)
  refine ⟨mem, ?_, hheld⟩
  rw [CurrentThread.cacheTid, if_pos hzero, hmem, mapError_ok, ok_bind]
  dsimp only
  rw [check_of hwidth, ok_bind]
  rfl

/-- The variables of a thread for which a statement at `now` meets all assertions. -/
structure Prepared (tid now : ℕ) (t : ThreadLocal) : Prop where
  time_size : t.t_time.length = 32
  cached : now / 1000000 = t.t_lastSecond → HeldText t.t_time (dateText (gmtime (now / 1000000)))
  tidString : (t.t_cachedTid = 0 ∧ t.t_tidString.length = 32) ∨
    (t.t_cachedTid = tid ∧ HeldText t.t_tidString (CurrentThread.tidText tid))
  width : (CurrentThread.tidText tid).length = 6

theorem Ready.prepared (h : Ready tid t) (now : ℕ) : Prepared tid now t where
  time_size := h.time.size
  cached hsame := hsame ▸ h.time
  tidString := .inr ⟨h.cached, h.tidString⟩
  width := h.width

/-- A new thread, and a time after the first second. -/
theorem new_prepared (htid : tid < 100000) (hnow : 1000000 ≤ now) :
    Prepared tid now ThreadLocal.new where
  time_size := rfl
  cached hsame := by
    change now / 1000000 = 0 at hsame
    omega
  tidString := .inl ⟨rfl, rfl⟩
  width := length_tidText_iff.mpr htid

theorem Prepared.tid_eq (h : Prepared tid now t) (hpos : 0 < tid) :
    ∃ mem, CurrentThread.tid tid t = .ok { t with t_cachedTid := tid, t_tidString := mem } ∧
      HeldText mem (CurrentThread.tidText tid) := by
  rcases h.tidString with ⟨hzero, hsize⟩ | ⟨hcached, hheld⟩
  · rw [CurrentThread.tid, if_pos hzero]
    exact cacheTid_eq hsize hzero h.width
  · refine ⟨t.t_tidString, ?_, hheld⟩
    rw [CurrentThread.tid, if_neg (by omega), ← hcached]
    rfl

theorem T_LogLevelName (level : LogLevel) : T (LogLevelName level) 6 = .ok (LogLevelName level) := by
  cases level <;> rfl

/-- What is put into the stream stays in front of what follows. -/
theorem holds_append (h : s.Holds row) (xs : List (Insertion D)) :
    ∃ s' rest, insert percent12g s xs = .ok s' ∧ s'.Holds (row ++ rest) := by
  obtain ⟨s', hs', hholds⟩ := insert_holds percent12g h xs
  rw [putAll_eq] at hholds
  exact ⟨s', _, hs', hholds⟩

/-- What the constructor of `Impl` leaves in the stream. -/
def header (percent12g : D → NumericText) (strerror : ℤ → Bytes) (tid now : ℕ) (level : LogLevel)
    (savedErrno : CInt) : Bytes :=
  putAll kSmallBuffer (timeText now)
    ((.append (CurrentThread.tidText tid) :: .append (LogLevelName level) ::
      errnoText strerror savedErrno).map (Insertion.piece percent12g))

theorem header_eq (percent12g : D → NumericText) (strerror : ℤ → Bytes) (tid now : ℕ)
    (level : LogLevel) (savedErrno : CInt) :
    ∃ rest, header percent12g strerror tid now level savedErrno = timeText now ++ rest :=
  ⟨_, putAll_eq _ _ _⟩

theorem Prepared.implNew_eq (h : Prepared tid now t) (hpos : 0 < tid)
    (hnow : now < yearTenThousand) (level : LogLevel) (savedErrno : CInt) (path : Bytes)
    (line : CInt) :
    ∃ t' s, implNew percent12g strerror tid t now level savedErrno path line =
        .ok (t', { stream_ := s, level_ := level, line_ := line, basename_ := SourceFile path }) ∧
      Ready tid t' ∧ s.Holds (header percent12g strerror tid now level savedErrno) := by
  obtain ⟨mem, s, hs, htime, hholds⟩ :=
    formatTime_eq percent12g hnow h.time_size h.cached
  have hnext : Prepared tid now { t with t_lastSecond := now / 1000000, t_time := mem } :=
    ⟨htime.size, fun _ => htime, h.tidString, h.width⟩
  obtain ⟨tidMem, htid, htidHeld⟩ := hnext.tid_eq hpos
  obtain ⟨s', hs', hholds'⟩ := insert_holds percent12g hholds
    (.append (CurrentThread.tidText tid) :: .append (LogLevelName level) ::
      errnoText strerror savedErrno)
  refine ⟨{
      t_time := mem
      t_lastSecond := now / 1000000
      t_cachedTid := tid
      t_tidString := tidMem }, s', ?_, ⟨htime, rfl, htidHeld, h.width⟩, hholds'⟩
  rw [implNew, hs, ok_bind]
  dsimp only
  rw [htid, ok_bind]
  dsimp only
  rw [T_eq htidHeld h.width, ok_bind, T_LogLevelName, ok_bind, hs', ok_bind]
  rfl

theorem Prepared.new_eq (h : Prepared tid now t) (hpos : 0 < tid) (hnow : now < yearTenThousand)
    (call : LoggerCall) :
    ∃ t' impl rest, Logger.new percent12g strerror tid t now call = .ok (t', impl) ∧
      Ready tid t' ∧ impl.stream_.Holds (timeText now ++ rest) ∧ impl.level_ = call.level := by
  have himpl : ∀ level savedErrno path line, ∃ t' impl rest,
      implNew percent12g strerror tid t now level savedErrno path line = .ok (t', impl) ∧
        Ready tid t' ∧ impl.stream_.Holds (timeText now ++ rest) ∧ impl.level_ = level := by
    intro level savedErrno path line
    obtain ⟨t', s, hs, hready, hholds⟩ := h.implNew_eq percent12g strerror
      hpos hnow level savedErrno path line
    obtain ⟨rest, hrest⟩ := header_eq percent12g strerror tid now level savedErrno
    exact ⟨t', _, rest, hs, hready, hrest ▸ hholds, rfl⟩
  cases call with
  | info path line => exact himpl .INFO zeroInt path line
  | withFunc path line level func =>
    obtain ⟨t', impl, rest, hnew, hready, hholds, hlevel⟩ := himpl level zeroInt path line
    obtain ⟨s', more, hs', hholds'⟩ := holds_append percent12g hholds
      [.charPtr func, .char (byte ' ')]
    refine ⟨t', { impl with stream_ := s' }, rest ++ more, ?_, hready, ?_, hlevel⟩
    · rw [Logger.new, hnew, ok_bind]
      dsimp only
      rw [hs', ok_bind]
      rfl
    · rwa [← List.append_assoc]
  | withLevel path line level => exact himpl level zeroInt path line
  | system path line toAbort errno => exact himpl _ errno path line

/-- A statement that meets the assertions: its time is in front, and the thread is ready for
any further one. -/
theorem Prepared.write_eq {st : Statement D} (h : Prepared tid st.now t) (hpos : 0 < tid)
    (hnow : st.now < yearTenThousand) :
    ∃ t' impl rest, write percent12g strerror tid t st = .ok (t', impl) ∧ Ready tid t' ∧
      impl.stream_.Holds (timeText st.now ++ rest) ∧ impl.level_ = st.call.level := by
  obtain ⟨t', impl, rest, hnew, hready, hholds, hlevel⟩ := h.new_eq percent12g strerror
    hpos hnow st.call
  obtain ⟨s', more, hs', hholds'⟩ := holds_append percent12g hholds st.message
  refine ⟨t', { impl with stream_ := s' }, rest ++ more, ?_, hready, ?_, hlevel⟩
  · rw [write, hnew, ok_bind]
    dsimp only
    rw [hs', ok_bind]
    rfl
  · rwa [← List.append_assoc]

theorem destroy_eq {impl : LoggerImpl} (h : impl.stream_.Holds row) :
    ∃ rest, destroy percent12g impl = .ok (row ++ rest) := by
  obtain ⟨s', rest, hs', hholds⟩ := holds_append percent12g h
    [.charPtr (bytes " - "), .append impl.basename_, .char (byte ':'),
      .integer .int impl.line_, .char (byte '\n')]
  refine ⟨rest, ?_⟩
  rw [destroy, finish, hs', ok_bind]
  change Except.ok s'.buffer_.asString = _
  rw [hholds.contents]

variable {percent12g strerror}

/-- The statements that are executed: `FATAL` is the last one. -/
def performed : List (Statement D) → List (Statement D)
  | [] => []
  | st :: rest => if st.call.level = .FATAL then [st] else st :: performed rest

/-- The record starts with the date and the time of day of its statement. -/
def OwnTime (st : Statement D) (record : Bytes) : Prop :=
  ∃ tm : Calendar.DateTime, tm.Valid ∧ tm.year < 10000 ∧
    tm.seconds 1970 = st.now / 1000000 ∧
    record.take 26 = dateText tm ++ microsecondsText (st.now % 1000000)

theorem ownTime_of_prefix {st : Statement D} (hnow : st.now < yearTenThousand) (rest : Bytes) :
    OwnTime st (timeText st.now ++ rest) := by
  refine ⟨gmtime (st.now / 1000000), Calendar.breakDown_valid _ _, gmtime_year_lt hnow,
    Calendar.seconds_breakDown _ _, List.take_left' ?_⟩
  rw [timeText, List.length_append, length_gmtimeText hnow, length_microsecondsText (by omega)]

/-- From the second statement on the thread is ready. -/
theorem logAll_eq {sts : List (Statement D)}
    (h : ∀ st ∈ sts.head?, Prepared tid st.now t) (hpos : 0 < tid)
    (hnow : ∀ st ∈ sts, st.now < yearTenThousand) :
    ∃ records, logAll percent12g strerror tid t sts = .ok records ∧
      List.Forall₂ OwnTime (performed sts) records := by
  induction sts generalizing t with
  | nil => exact ⟨[], rfl, .nil⟩
  | cons st sts ih =>
    have hst := hnow st List.mem_cons_self
    obtain ⟨t', impl, rest, hwrite, hready, hholds, hlevel⟩ :=
      (h st rfl).write_eq percent12g strerror hpos hst
    obtain ⟨more, hdestroy⟩ := destroy_eq percent12g hholds
    have hown := ownTime_of_prefix hst (rest ++ more)
    rw [← List.append_assoc] at hown
    obtain ⟨records, hrecords, hall⟩ := ih (fun next _ => hready.prepared next.now)
      fun x hx => hnow x (List.mem_cons_of_mem _ hx)
    rw [logAll, hwrite, ok_bind, performed]
    dsimp only
    rw [hdestroy, ok_bind, hlevel]
    by_cases hfatal : st.call.level = .FATAL
    · rw [if_pos hfatal, if_pos hfatal]
      exact ⟨_, rfl, .cons hown .nil⟩
    · rw [if_neg hfatal, if_neg hfatal, hrecords]
      exact ⟨_, rfl, .cons hown hall⟩

/-- An assertion that fails in `Impl` ends the program. -/
theorem logAll_error {st : Statement D} {sts : List (Statement D)} {f : LoggingFault}
    (h : ∀ level savedErrno path line,
      implNew percent12g strerror tid t st.now level savedErrno path line = .error f) :
    logAll percent12g strerror tid t (st :: sts) = .error f := by
  have hnew : Logger.new percent12g strerror tid t st.now st.call = .error f := by
    cases st.call with
    | info path line => exact h _ _ _ _
    | withFunc path line level func => rw [Logger.new, h]; rfl
    | withLevel path line level => exact h _ _ _ _
    | system path line toAbort errno => exact h _ _ _ _
  rw [logAll, write, hnew]
  rfl

/-- Nothing is formatted for the first second of the epoch: it is the one taken as cached. -/
theorem logAll_error_of_time {st : Statement D} {sts : List (Statement D)}
    (hnow : st.now < 1000000) :
    logAll percent12g strerror tid ThreadLocal.new (st :: sts) = .error .textLength := by
  apply logAll_error
  intro level savedErrno path line
  have hsecond : st.now / 1000000 = 0 := by omega
  have hmicro := length_microsecondsText (n := st.now % 1000000) (by omega)
  obtain ⟨us, hus, -⟩ :=
    Fmt_new_eq (by omega) (nul_notMem_microsecondsText (st.now % 1000000))
  have hcache : cacheSecond ThreadLocal.new 0 = .ok ThreadLocal.new := rfl
  have htext : T ThreadLocal.new.t_time 17 = .error .textLength :=
    T_error (HeldText.nul rfl) (by decide)
  rw [implNew, formatTime, hsecond, hcache, ok_bind, hus, ok_bind]
  dsimp only
  rw [check_of hmicro, ok_bind, htext]
  rfl

/-- A thread id of more than five digits. -/
theorem tid_error (hsize : t.t_tidString.length = 32) (hzero : t.t_cachedTid = 0)
    (htid : 100000 ≤ tid) (hmax : tid ≤ 2 ^ 22) :
    CurrentThread.tid tid t = .error .tidLength := by
  have hwidth : (CurrentThread.tidText tid).length ≠ 6 := by
    intro hlen
    have hlt := length_tidText_iff.mp hlen
    omega
  have hshort : (CurrentThread.tidText tid).length < 32 := by
    have hsep : (bytes " ").length = 1 := rfl
    have hdigits := Digits.length_decimal_le (n := tid) (k := 7) (by omega) (by omega)
    rw [CurrentThread.tidText, Digits.padded, List.length_append, List.length_append,
      List.length_replicate, hsep]
    omega
  obtain ⟨mem, hmem, -⟩ := HeldText.of_snprintf hsize hshort (nul_notMem_tidText tid)
  rw [CurrentThread.tid, if_pos hzero, CurrentThread.cacheTid, if_pos hzero, hmem, mapError_ok,
    ok_bind]
  dsimp only
  rw [check, if_neg hwidth]
  rfl

theorem logAll_error_of_tid {st : Statement D} {sts : List (Statement D)}
    (hnow : 1000000 ≤ st.now) (hlimit : st.now < yearTenThousand) (htid : 100000 ≤ tid)
    (hmax : tid ≤ 2 ^ 22) :
    logAll percent12g strerror tid ThreadLocal.new (st :: sts) = .error .tidLength := by
  apply logAll_error
  intro level savedErrno path line
  have hcached : st.now / 1000000 = ThreadLocal.new.t_lastSecond →
      HeldText ThreadLocal.new.t_time (dateText (gmtime (st.now / 1000000))) := by
    intro hsame
    change st.now / 1000000 = 0 at hsame
    omega
  obtain ⟨mem, s, hs, -, -⟩ := formatTime_eq percent12g hlimit rfl hcached
  rw [implNew, hs, ok_bind]
  dsimp only
  rw [tid_error rfl rfl htid hmax]
  rfl

/-- The log statements of a new thread meet all assertions and get their own times just when
its id has at most five digits and the first is made after the first second. -/
theorem header_exact_iff (percent12g : D → NumericText) (strerror : ℤ → Bytes) (hpos : 0 < tid)
    (hmax : tid ≤ 2 ^ 22) {sts : List (Statement D)}
    (hnow : ∀ st ∈ sts, st.now < yearTenThousand) :
    (∃ records, logAll percent12g strerror tid ThreadLocal.new sts = .ok records ∧
      List.Forall₂ OwnTime (performed sts) records) ↔
      ∀ first ∈ sts.head?, tid < 100000 ∧ 1000000 ≤ first.now := by
  constructor
  · rintro ⟨records, hrecords, -⟩ first hfirst
    obtain ⟨rest, rfl⟩ := List.head?_eq_some_iff.mp hfirst
    have htime : 1000000 ≤ first.now := by
      by_contra hlt
      rw [logAll_error_of_time (by omega)] at hrecords
      cases hrecords
    refine ⟨?_, htime⟩
    by_contra hle
    rw [logAll_error_of_tid htime (hnow _ List.mem_cons_self) (by omega) hmax] at hrecords
    cases hrecords
  · intro hfirst
    apply logAll_eq _ hpos hnow
    intro st hst
    obtain ⟨htid, htime⟩ := hfirst st hst
    exact new_prepared htid htime

end Statements

section Sample

def sample12g (_ : Unit) : NumericText := { text := bytes "0", length_lt := by decide }

def sampleStrerror (_ : ℤ) : Bytes := bytes "Success"

def sampleStatement (now : ℕ) : Statement Unit :=
  { call := .info (bytes "a.cc") zeroInt, now := now, message := [.charPtr (bytes "start")] }

/-- Two statements, the second with an earlier time. -/
def sampleStatements : List (Statement Unit) :=
  [sampleStatement 1325376000000000, sampleStatement 999999]

theorem header_exact_iff_sample :
    ∃ records, logAll sample12g sampleStrerror 1234 ThreadLocal.new sampleStatements =
        .ok records ∧
      List.Forall₂ OwnTime (performed sampleStatements) records := by
  have hnow : ∀ st ∈ sampleStatements, st.now < yearTenThousand := by
    intro st hst
    simp only [sampleStatements, List.mem_cons, List.not_mem_nil, or_false] at hst
    rcases hst with rfl | rfl <;> decide
  apply (header_exact_iff sample12g sampleStrerror (by omega) (by omega) hnow).mpr
  intro first hfirst
  obtain rfl := Option.some.inj hfirst
  exact ⟨by omega, by decide⟩

/-- The kernel gives out thread ids of six digits. -/
theorem six_digit_tid_fails :
    ¬ ∀ (tid : ℕ) (sts : List (Statement Unit)), 0 < tid → tid ≤ 2 ^ 22 →
      (∀ st ∈ sts, st.now < yearTenThousand) →
      ∃ records, logAll sample12g sampleStrerror tid ThreadLocal.new sts = .ok records ∧
        List.Forall₂ OwnTime (performed sts) records := by
  intro hall
  obtain ⟨records, hrecords, -⟩ := hall 100000 [sampleStatement 1325376000000000] (by omega)
    (by omega) (by
      intro st hst
      obtain rfl := List.mem_singleton.mp hst
      decide)
  rw [logAll_error_of_tid (by decide) (by decide) (by omega) (by omega)] at hrecords
  cases hrecords

end Sample

end Logger

end MuduoServer
