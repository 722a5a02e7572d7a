import MuduoServer.LogFile

/-!
The files of a `LogFile` over all sequences of appends, on a clock that does not go back.
Each record lies whole in the file that was open when it came, the files are opened in
increasing seconds, and the counter that delays the look at the clock bounds how many
records come into a file after its day. All that needs the file of the constructor, which
is opened just when the clock is past zero.
-/
namespace MuduoServer

open FaultMachine

namespace OpenFile

variable {f : OpenFile} {logline : Bytes} {answers : List ℕ} {n : ℕ}

/-- Further calls of `fwrite` take `remain` bytes, and none of them takes nothing. -/
def TakesRest : ℕ → List ℕ → Prop
  | remain, [] => remain = 0
  | remain, x :: rest => 0 < x ∧ x ≤ remain ∧ TakesRest (remain - x) rest

/-- The calls of `fwrite` take all `len` bytes. -/
def Takes (len : ℕ) : List ℕ → Prop
  | [] => False
  | x :: rest => x ≤ len ∧ TakesRest (len - x) rest

theorem appendLoop_eq (hn : n ≤ logline.length) (h : TakesRest (logline.length - n) answers) :
    appendLoop logline f n answers =
      .ok { f with contents := f.contents ++ logline.drop n } := by
  induction answers generalizing f n with
  | nil =>
    have hremain : logline.length - n = 0 := h
    rw [appendLoop, if_pos hremain, List.drop_eq_nil_of_le (by omega), List.append_nil]
    rfl
  | cons x rest ih =>
    obtain ⟨hpos, hle, hrest⟩ := h
    have htake : (logline.drop n).take x ++ logline.drop (n + x) = logline.drop n := by
      rw [← List.drop_drop, List.take_append_drop]
    rw [appendLoop, if_neg (by omega), if_neg (by omega), ih (by omega) (by
      rw [← Nat.sub_sub]
      exact hrest)]
    rw [write, List.append_assoc, htake]

/-- All bytes of the record are written and counted. -/
theorem append_eq (h : Takes logline.length answers) :
    f.append logline answers = .ok { f with
      contents := f.contents ++ logline
      writtenBytes_ := f.writtenBytes_ + logline.length } := by
  cases answers with
  | nil => exact h.elim
  | cons x rest =>
    obtain ⟨hle, hrest⟩ := h
    rw [append, appendLoop_eq hle hrest, ok_bind, write, List.append_assoc, List.take_append_drop]
    rfl

end OpenFile

namespace LogFile

section Names

/-- The text tells the time. -/
theorem strftime_injective {tm tm' : Calendar.DateTime} (h : tm.Valid) (h' : tm'.Valid)
    (heq : strftime tm = strftime tm') : tm = tm' := by
  have hlen : ∀ {m n : ℕ}, m < 100 → n < 100 →
      (Digits.padded (byte '0') 2 m).length = (Digits.padded (byte '0') 2 n).length := by
    intro m n hm hn
    rw [Digits.length_padded _ (by omega) (by omega), Digits.length_padded _ (by omega) (by omega)]
  have hday := Calendar.monthLength_le tm.year tm.month
  have hday' := Calendar.monthLength_le tm'.year tm'.month
  obtain ⟨hmonth, hdayLt, hhour, hminute, hsecond⟩ := h
  obtain ⟨hmonth', hdayLt', hhour', hminute', hsecond'⟩ := h'
  unfold strftime at heq
  have hend := List.append_cancel_right heq
  obtain ⟨hend, hs⟩ := List.append_inj' hend (hlen (by omega) (by omega))
  obtain ⟨hend, hmin⟩ := List.append_inj' hend (hlen (by omega) (by omega))
  obtain ⟨hend, hh⟩ := List.append_inj' hend (hlen (by omega) (by omega))
  have hend := List.append_cancel_right hend
  obtain ⟨hend, hd⟩ := List.append_inj' hend (hlen (by omega) (by omega))
  obtain ⟨hend, hm⟩ := List.append_inj' hend (hlen (by omega) (by omega))
  have hyear := Digits.decimal_injective (List.append_cancel_left hend)
  have hs := Digits.padded_zero_injective hs
  have hmin := Digits.padded_zero_injective hmin
  have hh := Digits.padded_zero_injective hh
  have hd := Digits.padded_zero_injective hd
  have hm := Digits.padded_zero_injective hm
  obtain ⟨year, month, day, hour, minute, second⟩ := tm
  obtain ⟨year', month', day', hour', minute', second'⟩ := tm'
  simp only [Calendar.DateTime.mk.injEq]
  dsimp only at hyear hs hmin hh hd hm
  omega

/-- Files that are opened in different seconds have different names. -/
theorem getLogFileName_injective {process : ProcessInfo} {basename : Bytes} {now now' : ℤ}
    (hpos : 0 < now) (hpos' : 0 < now')
    (h : getLogFileName process basename now = getLogFileName process basename now') :
    now = now' := by
  unfold getLogFileName at h
  have htime := List.append_cancel_left (List.append_cancel_right (List.append_cancel_right
    (List.append_cancel_right (List.append_cancel_right h))))
  have hdate := strftime_injective (Calendar.breakDown_valid _ _) (Calendar.breakDown_valid _ _)
    htime
  have hseconds := congrArg (Calendar.DateTime.seconds 1970) hdate
  rw [Calendar.seconds_breakDown, Calendar.seconds_breakDown] at hseconds
  omega

end Names

section Periods

variable {l : LogFile} {now later t : ℤ}

theorem period_bounds (h : 0 ≤ now) : period now ≤ now ∧ now < period now + kRollPerSeconds_ := by
  rw [period, kRollPerSeconds_, Int.tdiv_eq_ediv_of_nonneg h]
  omega

theorem rollFile_of_lt (h : l.lastRoll_ < now) : l.rollFile now =
    { l with
      lastRoll_ := now
      lastFlush_ := now
      startOfPeriod_ := period now
      file_ := some (OpenFile.new now)
      closed := l.closed ++ l.file_.toList } := if_pos h

theorem rollFile_of_le (h : now ≤ l.lastRoll_) : l.rollFile now = l := if_neg (by omega)

/-- Either a new file is opened in a later second, or the file stays and the counter is raised,
reset within the day of the file, or left alone within the second of the file. -/
theorem afterAppend_cases (hperiod : l.startOfPeriod_ = period l.lastRoll_)
    (hnow : l.lastRoll_ ≤ now) (hlater : now ≤ later) (writtenBytes : ℕ) :
    (∃ count t, count ≤ l.count_ ∧ l.lastRoll_ < t ∧ t ≤ later ∧
      l.afterAppend writtenBytes now later = { l with count_ := count }.rollFile t) ∨
    ∃ count flushed,
      l.afterAppend writtenBytes now later = { l with count_ := count, lastFlush_ := flushed } ∧
      ((count = l.count_ + 1 ∧ l.count_ ≤ kCheckTimeRoll_) ∨
        (count = 0 ∧ period now = period l.lastRoll_) ∨
        (count = l.count_ ∧ now = l.lastRoll_)) := by
  unfold afterAppend
  by_cases hsize : writtenBytes > l.rollSize_
  · rw [if_pos hsize]
    by_cases hlt : l.lastRoll_ < now
    · exact .inl ⟨l.count_, now, Nat.le_refl _, hlt, hlater, rfl⟩
    · rw [rollFile_of_le (by omega)]
      exact .inr ⟨l.count_, l.lastFlush_, rfl, .inr (.inr ⟨rfl, by omega⟩)⟩
  · rw [if_neg hsize]
    by_cases hcount : l.count_ > kCheckTimeRoll_
    · rw [if_pos hcount, checkPeriod]
      by_cases hday : period now ≠ l.startOfPeriod_
      · rw [if_pos hday]
        refine .inl ⟨0, later, Nat.zero_le _, ?_, Int.le_refl _, rfl⟩
        rw [hperiod] at hday
        have hne : now ≠ l.lastRoll_ := fun heq => hday (heq ▸ rfl)
        omega
      · have hsame : period now = period l.lastRoll_ := by
          rw [← hperiod]
          exact not_ne_iff.mp hday
        rw [if_neg hday]
        split
        · exact .inr ⟨0, now, rfl, .inr (.inl ⟨rfl, hsame⟩)⟩
        · exact .inr ⟨0, l.lastFlush_, rfl, .inr (.inl ⟨rfl, hsame⟩)⟩
    · rw [if_neg hcount]
      exact .inr ⟨l.count_ + 1, l.lastFlush_, rfl, .inl ⟨rfl, by omega⟩⟩

end Periods

/-- A record, the second of the file that was open when it came, and when that was. -/
structure Entry where
  record : Bytes
  file : ℤ
  start : ℤ

/-- A call of `append`: what `fwrite` answers, and the time at the call and at the readings. -/
structure AppendCall where
  record : Bytes
  answers : List ℕ
  start : ℤ
  now : ℤ
  later : ℤ

/-- A `LogFile`, the clock, and the records so far. -/
structure Written where
  logFile : LogFile
  clock : ℤ
  entries : List Entry

namespace Written

/-- `fwrite` takes all bytes, and the clock does not go back. -/
def Allowed (w : Written) (a : AppendCall) : Prop :=
  OpenFile.Takes a.record.length a.answers ∧ w.clock ≤ a.start ∧ a.start ≤ a.now ∧ a.now ≤ a.later

def step (w : Written) (a : AppendCall) : Except LogFileFault Written := do
  let logFile ← w.logFile.append a.record a.answers a.now a.later
  let file := (w.logFile.file_.map OpenFile.openedAt).getD 0
  pure {
    logFile := logFile
    clock := a.later
    entries := w.entries ++ [{ record := a.record, file := file, start := a.start }] }

/-- The runs of a `LogFile` that is constructed at the time `now`. -/
def machine (basename : Bytes) (rollSize : ℕ) (flushInterval now : ℤ) :
    Machine Written AppendCall LogFileFault where
  init w := LogFile.new basename rollSize flushInterval now = .ok w.logFile ∧ w.clock = now ∧
    w.entries = []
  enabled := Allowed
  step := step

end Written

/-- The records that came into the file of the second `file`. -/
def recordsOf (entries : List Entry) (file : ℤ) : List Bytes :=
  (entries.filter fun e => e.file = file).map Entry.record

/-- How many of them came after the day of the file. -/
def late (entries : List Entry) (file : ℤ) : ℕ :=
  entries.countP fun e => e.file = file ∧ period file + kRollPerSeconds_ ≤ e.start

section Entries

variable {entries : List Entry} {e : Entry} {file : ℤ}

theorem recordsOf_snoc_self (h : e.file = file) :
    recordsOf (entries ++ [e]) file = recordsOf entries file ++ [e.record] := by
  simp [recordsOf, h]

theorem recordsOf_snoc_ne (h : e.file ≠ file) :
    recordsOf (entries ++ [e]) file = recordsOf entries file := by
  simp [recordsOf, h]

theorem recordsOf_eq_nil (h : ∀ e ∈ entries, e.file ≠ file) : recordsOf entries file = [] := by
  rw [recordsOf, List.map_eq_nil_iff, List.filter_eq_nil_iff]
  simpa using h

theorem late_snoc_le (entries : List Entry) (e : Entry) (file : ℤ) :
    late (entries ++ [e]) file ≤ late entries file + 1 := by
  rw [late, List.countP_append, List.countP_singleton]
  split <;> simp [late]

theorem late_snoc_of_not (h : ¬ (e.file = file ∧ period file + kRollPerSeconds_ ≤ e.start)) :
    late (entries ++ [e]) file = late entries file := by
  rw [late, List.countP_append, List.countP_singleton, if_neg (by simpa using h)]
  rfl

theorem late_eq_zero (h : ∀ e ∈ entries, e.file = file → e.start < period file + kRollPerSeconds_) :
    late entries file = 0 := by
  rw [late, List.countP_eq_zero]
  intro e he
  simp only [decide_eq_true_eq, not_and, not_le]
  exact h e he

end Entries

/-- The records are in the files that were open, and the files in the order of their seconds. -/
structure Filed (l : LogFile) (entries : List Entry) : Prop where
  opened : ∃ f, l.file_ = some f ∧ f.openedAt = l.lastRoll_
  period_eq : l.startOfPeriod_ = period l.lastRoll_
  closed_pos : ∀ f ∈ l.closed, 0 < f.openedAt
  closed_lt : ∀ f ∈ l.closed, f.openedAt < l.lastRoll_
  pos : 0 < l.lastRoll_
  increasing : (l.closed.map OpenFile.openedAt).Pairwise (· < ·)
  whole : ∀ f ∈ l.files, f.contents = (recordsOf entries f.openedAt).flatten
  file_le : ∀ e ∈ entries, e.file ≤ l.lastRoll_
  filed : ∀ e ∈ entries, ∃ f ∈ l.files, f.openedAt = e.file
  inOrder : (entries.map Entry.file).Pairwise (· ≤ ·)

section Filed

variable {l : LogFile} {entries : List Entry} {f : OpenFile} {record : Bytes} {start t : ℤ}

theorem files_of_some (h : l.file_ = some f) : l.files = l.closed ++ [f] := by
  rw [files, h]
  rfl

theorem Filed.update (h : Filed l entries) (count : ℕ) (flushed : ℤ) :
    Filed { l with count_ := count, lastFlush_ := flushed } entries :=
  ⟨h.opened, h.period_eq, h.closed_pos, h.closed_lt, h.pos, h.increasing, h.whole, h.file_le,
    h.filed, h.inOrder⟩

/-- The record is put behind those of the open file. -/
theorem Filed.append (h : Filed l entries) (hf : l.file_ = some f) {f' : OpenFile}
    (hopened : f'.openedAt = f.openedAt) (hcontents : f'.contents = f.contents ++ record) :
    Filed { l with file_ := some f' }
      (entries ++ [{ record := record, file := f.openedAt, start := start }]) := by
  have hlast : f.openedAt = l.lastRoll_ := by
    obtain ⟨g, hg, hgopened⟩ := h.opened
    rw [← hgopened, Option.some.inj (hf.symm.trans hg)]
  have hfiles := files_of_some hf
  have hfiles' : ({ l with file_ := some f' } : LogFile).files = l.closed ++ [f'] := rfl
  have hwhole := h.whole
  have hfiled := h.filed
  rw [hfiles] at hwhole hfiled
  refine ⟨⟨f', rfl, hopened.trans hlast⟩, h.period_eq, h.closed_pos, h.closed_lt, h.pos,
    h.increasing, ?_, ?_, ?_, ?_⟩
  · intro g hg
    rw [hfiles'] at hg
    rcases List.mem_append.mp hg with hclosed | hopen
    · have hlt := h.closed_lt g hclosed
      rw [recordsOf_snoc_ne (by dsimp only; omega)]
      exact hwhole g (List.mem_append_left _ hclosed)
    · obtain rfl := List.mem_singleton.mp hopen
      rw [hopened, recordsOf_snoc_self rfl, List.flatten_append, hcontents,
        hwhole f (List.mem_append_right _ List.mem_cons_self)]
      simp
  · intro e he
    rcases List.mem_append.mp he with hold | hnew
    · exact h.file_le e hold
    · obtain rfl := List.mem_singleton.mp hnew
      exact Int.le_of_eq hlast
  · intro e he
    rw [hfiles']
    rcases List.mem_append.mp he with hold | hnew
    · obtain ⟨g, hg, hgfile⟩ := hfiled e hold
      rcases List.mem_append.mp hg with hclosed | hopen
      · exact ⟨g, List.mem_append_left _ hclosed, hgfile⟩
      · obtain rfl := List.mem_singleton.mp hopen
        exact ⟨f', List.mem_append_right _ List.mem_cons_self, hopened.trans hgfile⟩
    · obtain rfl := List.mem_singleton.mp hnew
      exact ⟨f', List.mem_append_right _ List.mem_cons_self, hopened⟩
  · rw [List.map_append, List.pairwise_append]
    refine ⟨h.inOrder, List.pairwise_singleton _ _, ?_⟩
    intro a ha b hb
    obtain ⟨e, he, rfl⟩ := List.mem_map.mp ha
    obtain rfl := List.mem_singleton.mp hb
    have hle := h.file_le e he
    dsimp only
    omega

/-- A file that is opened in a later second is empty and gets the records from then on. -/
theorem Filed.roll (h : Filed l entries) (hlt : l.lastRoll_ < t) :
    Filed (l.rollFile t) entries := by
  obtain ⟨f, hf, hlast⟩ := h.opened
  have hfiles := files_of_some hf
  have hclosed : l.closed ++ l.file_.toList = l.closed ++ [f] := by rw [hf]; rfl
  have hpos := h.pos
  rw [rollFile_of_lt hlt, hclosed]
  refine ⟨⟨OpenFile.new t, rfl, rfl⟩, rfl, ?_, ?_, by dsimp only; omega, ?_, ?_, ?_, ?_, h.inOrder⟩
  · intro g hg
    rcases List.mem_append.mp hg with hold | hnew
    · exact h.closed_pos g hold
    · obtain rfl := List.mem_singleton.mp hnew
      omega
  · intro g hg
    dsimp only
    rcases List.mem_append.mp hg with hold | hnew
    · have hold := h.closed_lt g hold
      omega
    · obtain rfl := List.mem_singleton.mp hnew
      omega
  · rw [List.map_append, List.pairwise_append]
    refine ⟨h.increasing, List.pairwise_singleton _ _, ?_⟩
    intro a ha b hb
    obtain ⟨g, hg, rfl⟩ := List.mem_map.mp ha
    obtain rfl := List.mem_singleton.mp hb
    have hg := h.closed_lt g hg
    omega
  · intro g hg
    rcases List.mem_append.mp hg with hold | hnew
    · exact h.whole g (hfiles ▸ hold)
    · obtain rfl := List.mem_singleton.mp hnew
      have hnone : recordsOf entries t = [] := by
        apply recordsOf_eq_nil
        intro e he
        have hle := h.file_le e he
        omega
      change [] = (recordsOf entries t).flatten
      rw [hnone]
      rfl
  · intro e he
    have hle := h.file_le e he
    dsimp only
    omega
  · intro e he
    obtain ⟨g, hg, hgfile⟩ := h.filed e he
    exact ⟨g, List.mem_append_left _ (hfiles ▸ hg), hgfile⟩

end Filed

/-- No file has got more than its late records, and the counter of the open one has counted
all of them. -/
structure Punctual (l : LogFile) (entries : List Entry) (clock : ℤ) : Prop where
  last_le : l.lastRoll_ ≤ clock
  start_le : ∀ e ∈ entries, e.start ≤ clock
  count_le : l.count_ ≤ kCheckTimeRoll_ + 1
  late_open : late entries l.lastRoll_ ≤ l.count_
  late_le : ∀ file, late entries file ≤ kCheckTimeRoll_ + 2

section Punctual

variable {l : LogFile} {entries : List Entry} {e : Entry} {clock now later t : ℤ} {count : ℕ}

/-- One more record in the open file. -/
theorem Punctual.late_snoc_le (h : Punctual l entries clock) (hfile : e.file = l.lastRoll_)
    (file : ℤ) : late (entries ++ [e]) file ≤ kCheckTimeRoll_ + 2 := by
  by_cases hsame : e.file = file
  · have hopen := h.late_open
    have hcount := h.count_le
    have hsnoc := LogFile.late_snoc_le entries e file
    rw [← hsame, hfile] at hsnoc ⊢
    omega
  · rw [late_snoc_of_not fun hboth => hsame hboth.1]
    exact h.late_le file

theorem Punctual.start_snoc_le (h : Punctual l entries clock) (hclock : clock ≤ e.start)
    (hstart : e.start ≤ now) : ∀ x ∈ entries ++ [e], x.start ≤ now := by
  intro x hx
  rcases List.mem_append.mp hx with hold | hnew
  · have hle := h.start_le x hold
    omega
  · obtain rfl := List.mem_singleton.mp hnew
    exact hstart

/-- A new file has no records. -/
theorem Punctual.roll (h : Punctual l entries clock) (hfile : e.file = l.lastRoll_)
    (hle : ∀ x ∈ entries, x.file ≤ l.lastRoll_) (hclock : clock ≤ e.start)
    (hstart : e.start ≤ later) (hcount : count ≤ l.count_) (hlt : l.lastRoll_ < t)
    (ht : t ≤ later) :
    Punctual ({ l with count_ := count }.rollFile t) (entries ++ [e]) later := by
  have hold := h.count_le
  rw [rollFile_of_lt (show ({ l with count_ := count } : LogFile).lastRoll_ < t from hlt)]
  refine ⟨ht, h.start_snoc_le hclock hstart, by dsimp only; omega, ?_, h.late_snoc_le hfile⟩
  have hnone : late (entries ++ [e]) t = 0 := by
    apply late_eq_zero
    intro x hx hsame
    rcases List.mem_append.mp hx with hin | hnew
    · have hxle := hle x hin
      omega
    · obtain rfl := List.mem_singleton.mp hnew
      omega
  dsimp only
  omega

/-- The file stays: the counter has counted the record, or the record is not late. -/
theorem Punctual.keep (h : Punctual l entries clock) (hfile : e.file = l.lastRoll_)
    (hpos : 0 < l.lastRoll_) (hclock : clock ≤ e.start) (hstart : e.start ≤ now)
    (hlater : now ≤ later)
    (hcases : (count = l.count_ + 1 ∧ l.count_ ≤ kCheckTimeRoll_) ∨
      (count = 0 ∧ period now = period l.lastRoll_) ∨ (count = l.count_ ∧ now = l.lastRoll_))
    (flushed : ℤ) :
    Punctual { l with count_ := count, lastFlush_ := flushed } (entries ++ [e]) later := by
  have hlast := h.last_le
  have hcount := h.count_le
  have hopen := h.late_open
  have hday : period now ≤ now ∧ now < period now + kRollPerSeconds_ := period_bounds (by omega)
  refine ⟨by dsimp only; omega, h.start_snoc_le hclock (by omega), by dsimp only; omega, ?_,
    h.late_snoc_le hfile⟩
  dsimp only
  rcases hcases with ⟨rfl, -⟩ | ⟨rfl, hsame⟩ | ⟨rfl, hsame⟩
  · have hsnoc := LogFile.late_snoc_le entries e l.lastRoll_
    omega
  · apply Nat.le_of_eq
    apply late_eq_zero
    intro x hx _
    have hle := h.start_snoc_le hclock hstart x hx
    omega
  · rw [late_snoc_of_not]
    · exact hopen
    · rintro ⟨-, hafter⟩
      rw [← hsame] at hafter
      omega

end Punctual

namespace Written

variable {w w' : Written} {a : AppendCall} {f : OpenFile}

/-- The file after the record was written to it. -/
def written (f : OpenFile) (a : AppendCall) : OpenFile :=
  { f with
    contents := f.contents ++ a.record
    writtenBytes_ := f.writtenBytes_ + a.record.length }

theorem step_eq (hf : w.logFile.file_ = some f) (ha : w.Allowed a) :
    w.step a = .ok {
      logFile := ({ w.logFile with file_ := some (written f a) } : LogFile).afterAppend
        (f.writtenBytes_ + a.record.length) a.now a.later
      clock := a.later
      entries := w.entries ++ [{ record := a.record, file := f.openedAt, start := a.start }] } := by
  rw [step, LogFile.append, hf]
  dsimp only
  rw [OpenFile.append_eq ha.1]
  rfl

/-- The state of the files and that of the counter. -/
structure Kept (w : Written) : Prop where
  filed : Filed w.logFile w.entries
  punctual : Punctual w.logFile w.entries w.clock

theorem Kept.step (h : w.Kept) (ha : w.Allowed a) (hs : w.step a = .ok w') : w'.Kept := by
  obtain ⟨f, hf, hlast⟩ := h.filed.opened
  obtain ⟨-, hclock, hstart, hlater⟩ := id ha
  rw [step_eq hf ha, Except.ok.injEq] at hs
  subst hs
  have hfiled : Filed { w.logFile with file_ := some (written f a) }
      (w.entries ++ [{ record := a.record, file := f.openedAt, start := a.start }]) :=
    h.filed.append hf rfl rfl
  have hlastle := h.punctual.last_le
  have hpunctual : Punctual { w.logFile with file_ := some (written f a) } w.entries w.clock :=
    ⟨h.punctual.last_le, h.punctual.start_le, h.punctual.count_le, h.punctual.late_open,
      h.punctual.late_le⟩
  rcases afterAppend_cases (l := { w.logFile with file_ := some (written f a) })
    h.filed.period_eq (by dsimp only; omega) hlater (f.writtenBytes_ + a.record.length) with
    ⟨count, t, hcount, hlt, ht, heq⟩ | ⟨count, flushed, heq, hcases⟩
  · refine ⟨?_, ?_⟩
    · rw [heq]
      exact (hfiled.update count _).roll hlt
    · rw [heq]
      exact hpunctual.roll hlast h.filed.file_le hclock (by dsimp only; omega) hcount hlt ht
  · refine ⟨?_, ?_⟩
    · rw [heq]
      exact hfiled.update count flushed
    · rw [heq]
      exact hpunctual.keep hlast h.filed.pos hclock hstart hlater hcases flushed

section Runs

variable {basename : Bytes} {rollSize : ℕ} {flushInterval now : ℤ} {w₀ : Written}
  {ops : List AppendCall}

/-- The constructor opens the first file. -/
theorem Kept.start (hpos : 0 < now) (h : (machine basename rollSize flushInterval now).init w) :
    w.Kept := by
  obtain ⟨logFile, clock, entries⟩ := w
  dsimp only [machine] at h
  obtain ⟨hnew, rfl, rfl⟩ := h
  obtain ⟨-, -, hroll⟩ := bind_eq_ok.mp hnew
  rw [pure_eq_ok, rollFile_of_lt hpos] at hroll
  subst hroll
  refine ⟨⟨⟨OpenFile.new clock, rfl, rfl⟩, rfl, List.forall_mem_nil _, List.forall_mem_nil _,
    hpos, List.Pairwise.nil, ?_, List.forall_mem_nil _, List.forall_mem_nil _,
    List.Pairwise.nil⟩, ⟨Int.le_refl _, List.forall_mem_nil _, Nat.zero_le _, Nat.le_refl _,
    fun _ => Nat.zero_le _⟩⟩
  intro f hf
  obtain rfl := List.mem_singleton.mp hf
  rfl

theorem Kept.run (h : w₀.Kept) (hr : (machine basename rollSize flushInterval now).Run w₀ ops w) :
    w.Kept :=
  hr.invariant (fun _ _ _ hk ha hs => hk.step ha hs) h

theorem step_records (hs : w.step a = .ok w') :
    w'.entries.map Entry.record = w.entries.map Entry.record ++ [a.record] := by
  obtain ⟨logFile, -, hw⟩ := bind_eq_ok.mp hs
  rw [pure_eq_ok] at hw
  subst hw
  exact List.map_append

theorem run_records (hr : (machine basename rollSize flushInterval now).Run w₀ ops w) :
    w.entries.map Entry.record = w₀.entries.map Entry.record ++ ops.map AppendCall.record := by
  induction hr with
  | nil => exact (List.append_nil _).symm
  | snoc _ _ hs ih => rw [step_records hs, ih, List.map_append, List.append_assoc]; rfl

/-- The guard of `rollFile` refuses the first roll as well. -/
theorem init_nullFile (hname : byte '/' ∉ basename) (rollSize : ℕ) (flushInterval : ℤ)
    (hle : now ≤ 0) : ∃ w₀, (machine basename rollSize flushInterval now).init w₀ ∧
      w₀.logFile.file_ = none := by
  refine ⟨{ logFile := unopened basename rollSize flushInterval, clock := now, entries := [] },
    ⟨?_, rfl, rfl⟩, rfl⟩
  rw [LogFile.new, check_of hname, ok_bind, rollFile_of_le hle]
  rfl

theorem step_nullFile (h : w.logFile.file_ = none) : w.step a = .error .nullFile := by
  rw [step, LogFile.append, h]
  rfl

end Runs

/-- What the files of a `LogFile` are. -/
structure Orderly (process : ProcessInfo) (w : Written) : Prop where
  increasing : (w.logFile.files.map OpenFile.openedAt).Pairwise (· < ·)
  names : (w.logFile.files.map fun f =>
    getLogFileName process w.logFile.basename_ f.openedAt).Nodup
  whole : ∀ f ∈ w.logFile.files, f.contents = (recordsOf w.entries f.openedAt).flatten
  filed : ∀ e ∈ w.entries, ∃ f ∈ w.logFile.files, f.openedAt = e.file
  inOrder : (w.entries.map Entry.file).Pairwise (· ≤ ·)
  late_le : ∀ f ∈ w.logFile.files, late w.entries f.openedAt ≤ kCheckTimeRoll_ + 2

theorem Kept.orderly (h : w.Kept) (process : ProcessInfo) : w.Orderly process := by
  obtain ⟨f, hf, hlast⟩ := h.filed.opened
  have hfiles := files_of_some hf
  have hpos : ∀ g ∈ w.logFile.files, 0 < g.openedAt := by
    intro g hg
    rw [hfiles] at hg
    rcases List.mem_append.mp hg with hclosed | hopen
    · exact h.filed.closed_pos g hclosed
    · obtain rfl := List.mem_singleton.mp hopen
      exact hlast ▸ h.filed.pos
  have hincreasing : (w.logFile.files.map OpenFile.openedAt).Pairwise (· < ·) := by
    rw [hfiles, List.map_append, List.pairwise_append]
    refine ⟨h.filed.increasing, List.pairwise_singleton _ _, ?_⟩
    intro x hx y hy
    obtain ⟨g, hg, rfl⟩ := List.mem_map.mp hx
    obtain rfl := List.mem_singleton.mp hy
    exact hlast ▸ h.filed.closed_lt g hg
  refine ⟨hincreasing, ?_, h.filed.whole, h.filed.filed, h.filed.inOrder,
    fun f _ => h.punctual.late_le f.openedAt⟩
  rw [List.pairwise_map] at hincreasing
  rw [List.Nodup, List.pairwise_map]
  refine hincreasing.imp_of_mem ?_
  intro g g' hg hg' hlt hsame
  have heq := getLogFileName_injective (hpos g hg) (hpos g' hg') hsame
  omega

/-- No append faults; one that leaves more than `rollSize_` bytes in a file of an earlier second
opens the next file. -/
theorem Kept.step_ok (h : w.Kept) (ha : w.Allowed a) : ∃ w', w.step a = .ok w' ∧
    ∀ f, w.logFile.file_ = some f → w.logFile.rollSize_ < f.writtenBytes_ + a.record.length →
      w.logFile.lastRoll_ < a.now → w'.logFile.file_ = some (OpenFile.new a.now) := by
  obtain ⟨f, hf, -⟩ := h.filed.opened
  refine ⟨_, step_eq hf ha, ?_⟩
  intro g hg hsize hlt
  obtain rfl := Option.some.inj (hf.symm.trans hg)
  dsimp only
  rw [afterAppend, if_pos hsize, rollFile_of_lt (show
    ({ w.logFile with file_ := some (written f a) } : LogFile).lastRoll_ < a.now from hlt)]

end Written

/-- In every run the records so far are in the files in their order, and the next one is taken
as well, with a new file behind it once the size is passed in a later second. -/
def Rolling (process : ProcessInfo) (M : Machine Written AppendCall LogFileFault) : Prop :=
  ∀ w₀ ops w, M.init w₀ → M.Run w₀ ops w →
    w.entries.map Entry.record = ops.map AppendCall.record ∧ w.Orderly process ∧
      ∀ a, w.Allowed a → ∃ w', w.step a = .ok w' ∧
        ∀ f, w.logFile.file_ = some f →
          w.logFile.rollSize_ < f.writtenBytes_ + a.record.length →
          w.logFile.lastRoll_ < a.now → w'.logFile.file_ = some (OpenFile.new a.now)

/-- The record has no file to go to. -/
theorem not_rolling (process : ProcessInfo) {basename : Bytes} (hname : byte '/' ∉ basename)
    (rollSize : ℕ) (flushInterval : ℤ) {now : ℤ} (hle : now ≤ 0) :
    ¬ Rolling process (Written.machine basename rollSize flushInterval now) := by
  intro h
  obtain ⟨w₀, h₀, hfile⟩ := Written.init_nullFile hname rollSize flushInterval hle
  obtain ⟨-, -, hok⟩ := h w₀ [] w₀ h₀ (Machine.Run.nil w₀)
  have hclock : w₀.clock = now := h₀.2.1
  obtain ⟨w', hw', -⟩ := hok
    { record := bytes "line", answers := [4], start := now, now := now, later := now }
    ⟨⟨Nat.le_refl _, rfl⟩, Int.le_of_eq hclock, Int.le_refl _, Int.le_refl _⟩
  rw [Written.step_nullFile hfile] at hw'
  cases hw'

/-- Each record comes whole and in order into one file, the files are opened in increasing
seconds, a file that has grown too large is followed by a new one, and few records come into a
file after its day: all that exactly when the clock of the constructor is past zero, as its
`rollFile` opens no file otherwise. -/
theorem log_file_rolling_iff (process : ProcessInfo) {basename : Bytes}
    (hname : byte '/' ∉ basename) (rollSize : ℕ) (flushInterval now : ℤ) :
    Rolling process (Written.machine basename rollSize flushInterval now) ↔ 0 < now := by
  constructor
  · intro h
    by_contra hle
    exact not_rolling process hname rollSize flushInterval (Int.not_lt.mp hle) h
  · intro hpos w₀ ops w h₀ hr
    have hkept := (Written.Kept.start hpos h₀).run hr
    have hrecords := Written.run_records hr
    rw [h₀.2.2] at hrecords
    exact ⟨hrecords, hkept.orderly process, fun a ha => hkept.step_ok ha⟩

/-- A file of eight bytes is followed by the next one, which gets the next record. -/
theorem log_file_rolling_sample : ∃ w₀ w,
    (Written.machine (bytes "log") 7 3 5).init w₀ ∧
    (Written.machine (bytes "log") 7 3 5).Run w₀
      [{ record := bytes "longline", answers := [8], start := 6, now := 6, later := 6 },
        { record := bytes "line", answers := [3, 1], start := 6, now := 7, later := 7 }] w ∧
    w.logFile.files.map OpenFile.contents = [bytes "longline", bytes "line"] ∧
    w.Orderly { hostname := bytes "host", pid := 12 } := by
  have htakes : OpenFile.Takes (bytes "longline").length [8] := by
    simp [OpenFile.Takes, OpenFile.TakesRest, bytes]
  have htakes' : OpenFile.Takes (bytes "line").length [3, 1] := by
    simp [OpenFile.Takes, OpenFile.TakesRest, bytes]
  have hstart : (Written.machine (bytes "log") 7 3 5).init
      { logFile := (unopened (bytes "log") 7 3).rollFile 5, clock := 5, entries := [] } :=
    ⟨rfl, rfl, rfl⟩
  have hrun := Machine.Run.cons (M := Written.machine (bytes "log") 7 3 5)
    (a := { record := bytes "longline", answers := [8], start := 6, now := 6, later := 6 })
    (s := { logFile := (unopened (bytes "log") 7 3).rollFile 5, clock := 5, entries := [] })
    ⟨htakes, (by decide : (5 : ℤ) ≤ 6), Int.le_refl _, Int.le_refl _⟩ rfl
    (Machine.Run.cons
      (a := { record := bytes "line", answers := [3, 1], start := 6, now := 7, later := 7 })
      ⟨htakes', (by decide : (6 : ℤ) ≤ 6), (by decide : (6 : ℤ) ≤ 7), Int.le_refl _⟩ rfl
      (Machine.Run.nil _))
  exact ⟨_, _, hstart, hrun, rfl,
    ((log_file_rolling_iff _ (by decide) 7 3 5).mpr (by decide) _ _ _ hstart hrun).2.1⟩

/-- With the clock at zero the first append reads through a null pointer. -/
theorem not_rolling_at_zero : ¬ Rolling { hostname := bytes "host", pid := 12 }
    (Written.machine (bytes "log") 7 3 0) :=
  not_rolling _ (by decide) 7 3 (Int.le_refl 0)

end LogFile

end MuduoServer
