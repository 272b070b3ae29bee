/-
One line of the log store: the prefix that `record` writes on it, and the prefix
grammar that it is read back with.
-/
import Bridgething.Lib.Calendar
import Bridgething.Lib.Text

namespace Bridgething

namespace LogStore

open Calendar (Date Moment yearOf)
open Text (isWhitespace splitOnce stripRun)

inductive Level
  | trace
  | debug
  | info
  | notice
  | warn
  | error
  | fatal
deriving Repr, DecidableEq

def Level.letter : Level → Char
  | trace => 'V'
  | debug => 'D'
  | info => 'I'
  | notice => 'N'
  | warn => 'W'
  | error => 'E'
  | fatal => 'F'

def Level.fromLetter : Char → Option Level
  | 'V' => some trace
  | 'D' => some debug
  | 'I' => some info
  | 'N' => some notice
  | 'W' => some warn
  | 'E' => some error
  | 'F' => some fatal
  | _ => none

def Level.pins (level : Level) : Bool := level = error || level = fatal

structure LogLine where
  tsUnixMs : ℕ
  level : Level
  label : List Char
  message : List Char
deriving Repr, DecidableEq

/-- The last millisecond that a clock reading can have. -/
def MAX_MILLIS : ℕ := 8210266876799999

/-- A reading of the clock, `Local::now()`: it is refused before the epoch and
beyond the last date. -/
structure Instant where
  millis : ℕ
  inRange : millis ≤ MAX_MILLIS

section Writing

/-- Two digits, with a leading zero. -/
def two (n : ℕ) : List Char := [Nat.digitChar (n / 10), Nat.digitChar (n % 10)]

def three (n : ℕ) : List Char := Nat.digitChar (n / 100) :: two (n % 100)

/-- The local clock's `%m-%d %H:%M:%S%.3f`, in a zone that is `offset`
milliseconds ahead. -/
def stamp (offset : ℤ) (now : ℕ) : List Char :=
  let moment := Moment.ofMillis (now + offset)
  two (moment.date.month0 + 1) ++ '-' :: two (moment.date.day0 + 1)
    ++ ' ' :: two moment.hour ++ ':' :: two moment.minute
    ++ ':' :: two moment.second ++ '.' :: three moment.milli

/-- What `record` puts before every line of a message. -/
def linePrefix (offset : ℤ) (now pid thread : ℕ) (level : Level)
    (label : List Char) : List Char :=
  stamp offset now ++ (' ' :: Nat.toDigits 10 pid ++ (' ' :: Nat.toDigits 10 thread
    ++ ' ' :: level.letter :: ' ' :: (label ++ [':', ' '])))

end Writing

section Reading

structure Threadtime where
  stamp : List Char
  level : Level
  rest : List Char

def SHAPE : List Char :=
  ['#', '#', '-', '#', '#', ' ', '#', '#', ':', '#', '#', ':', '#', '#', '.', '#',
    '#', '#']

/-- Whether the text begins with the shape, a `#` standing for any digit. -/
def matched : List Char → List Char → Bool
  | [], _ => true
  | _ :: _, [] => false
  | expected :: shape, c :: text =>
      (if expected = '#' then c.isDigit else c = expected) && matched shape text

def parseThreadtime (line : List Char) : Option Threadtime :=
  if matched SHAPE line then do
    let rest ← stripRun isWhitespace (line.drop SHAPE.length)
    let rest ← stripRun Char.isDigit rest
    let rest ← stripRun isWhitespace rest
    let rest ← stripRun Char.isDigit rest
    let rest ← stripRun isWhitespace rest
    let level ← rest.head?.bind Level.fromLetter
    let rest ← stripRun isWhitespace rest.tail
    some ⟨line.take SHAPE.length, level, rest⟩
  else none

def errorLine (line : List Char) : Bool :=
  (parseThreadtime line).any fun parsed => parsed.level.pins

/-- The number that decimal digits write. -/
def number (digits : List Char) : ℕ :=
  digits.foldl (fun n c => 10 * n + (c.toNat - 48)) 0

/-- A stamp of the shape, put behind a year: the year is read from four digits at
most, and a second of 60 is a leap second. -/
def parseMoment (year : ℤ) (stamp : List Char) : Option Moment :=
  match stamp with
  | [m₁, m₂, _, d₁, d₂, _, h₁, h₂, _, n₁, n₂, _, s₁, s₂, _, f₁, f₂, f₃] =>
      let month := number [m₁, m₂]
      let day := number [d₁, d₂]
      let hour := number [h₁, h₂]
      let minute := number [n₁, n₂]
      let second := number [s₁, s₂]
      if year ≤ 9999 ∧ 1 ≤ month ∧ 1 ≤ day ∧ hour < 24 ∧ minute < 60 ∧
          second ≤ 60 then
        (Date.ofYmd? year (month - 1) (day - 1)).map fun date =>
          ⟨date, hour, minute, second, number [f₁, f₂, f₃]⟩
      else none
  | _ => none

/-- The stamp carries no year: the year given is taken, or else the present one. -/
def stampMillis (offset thisYear : ℤ) (stamp : List Char) (year : Option ℤ) :
    Option ℕ :=
  (parseMoment (year.getD thisYear) stamp).bind fun moment =>
    let millis := moment.millis - offset
    if 0 ≤ millis then some millis.toNat else none

/-- One line read back, and the time that is carried on to the next. -/
def projectLine (offset thisYear : ℤ) (raw : List Char) (year : Option ℤ)
    (carried : ℕ) : LogLine × ℕ :=
  match parseThreadtime raw with
  | none => (⟨carried, .info, [], raw⟩, carried)
  | some parsed =>
      let carried := (stampMillis offset thisYear parsed.stamp year).getD carried
      let split := (splitOnce parsed.rest).getD ([], parsed.rest)
      (⟨carried, parsed.level, split.1, split.2⟩, carried)

end Reading

/-- The year on the calendar of the zone. -/
def yearAt (offset : ℤ) (now : ℕ) : ℤ := yearOf ((now + offset) / 86400000)

/-- A label that a reader can tell from the message behind it. -/
structure PlainLabel (label : List Char) : Prop where
  noNewline : '\n' ∉ label
  noColonSpace : ¬ [':', ' '] <:+: label
  noWhitespace : ∀ c ∈ label.head?, isWhitespace c = false

section Digits

theorem digitChar_number {n : ℕ} (hn : n < 10) :
    (Nat.digitChar n).toNat - 48 = n := by
  interval_cases n <;> decide

theorem number_two {n : ℕ} (hn : n < 100) : number (two n) = n := by
  have htens : n / 10 < 10 := by omega
  have hones : n % 10 < 10 := by omega
  simp only [number, two, List.foldl_cons, List.foldl_nil,
    digitChar_number htens, digitChar_number hones]
  omega

theorem number_three {n : ℕ} (hn : n < 1000) : number (three n) = n := by
  have hhundreds : n / 100 < 10 := by omega
  have htens : n % 100 / 10 < 10 := by omega
  have hones : n % 100 % 10 < 10 := by omega
  simp only [number, three, two, List.foldl_cons, List.foldl_nil,
    digitChar_number hhundreds, digitChar_number htens, digitChar_number hones]
  omega

theorem level_letter (level : Level) :
    Level.fromLetter level.letter = some level := by
  cases level <;> rfl

theorem isDigit_not_whitespace {c : Char} (hc : c.isDigit = true) :
    isWhitespace c = false := by
  have hrange : 48 ≤ c.toNat ∧ c.toNat ≤ 57 := by
    simpa [Char.isDigit, UInt32.le_iff_toNat_le] using hc
  simp only [isWhitespace, Bool.or_eq_false_iff, Bool.and_eq_false_imp,
    decide_eq_true_eq, decide_eq_false_iff_not]
  omega

end Digits

section Stamps

variable (offset : ℤ) (now : ℕ)

/-- The clock's numbers are small enough for the digits of the stamp. -/
theorem stamp_ranges :
    let moment := Moment.ofMillis (now + offset)
    moment.date.month0 < 12 ∧ moment.date.day0 < 31 ∧ moment.hour < 24 ∧
      moment.minute < 60 ∧ moment.second < 60 ∧ moment.milli < 1000 :=
  ⟨Date.month0_lt _, Date.day0_lt _, Moment.ofMillis_clock _⟩

theorem stamp_length : (stamp offset now).length = SHAPE.length := by
  simp [stamp, two, three, SHAPE]

theorem matched_stamp (rest : List Char) :
    matched SHAPE (stamp offset now ++ rest) = true := by
  obtain ⟨hmonth, hday, hhour, hminute, hsecond, hmilli⟩ :=
    stamp_ranges offset now
  simp [stamp, two, three, SHAPE, matched]
  omega

/-- The stamp read back with the year of another date has that year's day, if the
year has it. -/
theorem parseMoment_stamp (year : ℤ) :
    parseMoment year (stamp offset now) =
      if year ≤ 9999 then
        (Date.ofYmd? year (Moment.ofMillis (now + offset)).date.month0
          (Moment.ofMillis (now + offset)).date.day0).map fun date =>
            { Moment.ofMillis (now + offset) with date := date }
      else none := by
  obtain ⟨hmonth, hday, hhour, hminute, hsecond, hmilli⟩ :=
    stamp_ranges offset now
  have hpair : ∀ n < 100,
      number [Nat.digitChar (n / 10), Nat.digitChar (n % 10)] = n :=
    fun _ hn => number_two hn
  have hmillis := number_three hmilli
  simp only [three, two] at hmillis
  simp only [stamp, two, three, List.cons_append, List.nil_append, parseMoment]
  rw [hpair _ (by omega), hpair _ (by omega), hpair _ (by omega),
    hpair _ (by omega), hpair _ (by omega), hmillis]
  simp only [Nat.le_add_left, hhour, hminute, hsecond.le, and_true,
    Nat.add_sub_cancel]

/-- Within a year that is read, a stamp gives back the time it was written. -/
theorem stampMillis_own (thisYear : ℤ) (hyear : yearAt offset now ≤ 9999) :
    stampMillis offset thisYear (stamp offset now) (some (yearAt offset now))
      = some now := by
  have hdate : Date.ofYmd? (yearAt offset now)
      (Moment.ofMillis (now + offset)).date.month0
      (Moment.ofMillis (now + offset)).date.day0
        = some (Moment.ofMillis (now + offset)).date :=
    Date.ofYmd?_self _
  have hmillis : (Moment.ofMillis (now + offset)).millis - offset = now := by
    rw [Moment.millis_ofMillis, Int.add_sub_cancel]
  simp only [stampMillis, Option.getD_some, parseMoment_stamp, hyear, if_true,
    hdate, Option.map_some, Option.bind_some, hmillis]
  simp

/-- A stamp is dated within the year it is read with. -/
theorem stampMillis_year {thisYear year : ℤ} {ts : ℕ}
    (h : stampMillis offset thisYear (stamp offset now) (some year) = some ts) :
    year ≤ 9999 ∧ yearAt offset ts = year := by
  obtain ⟨-, -, hhour, hminute, hsecond, hmilli⟩ := stamp_ranges offset now
  simp only [stampMillis, Option.getD_some, parseMoment_stamp] at h
  obtain ⟨moment, hmoment, hmillis⟩ := Option.bind_eq_some_iff.mp h
  split at hmoment
  · rename_i hyear
    obtain ⟨date, hdate, rfl⟩ := Option.map_eq_some_iff.mp hmoment
    split at hmillis
    · rename_i hpositive
      cases hmillis
      refine ⟨hyear, ?_⟩
      have hday := @Moment.day_millis
        { Moment.ofMillis (now + offset) with date := date }
        hhour hminute hsecond hmilli
      rw [yearAt, Int.toNat_of_nonneg hpositive, Int.sub_add_cancel, hday,
        Date.yearOf_days, Date.year_of_ofYmd? hdate]
    · cases hmillis
  · cases hmoment

end Stamps

section RoundTrip

variable (offset : ℤ) (now pid thread : ℕ) (level : Level)

/-- The prefix is recognised whatever its label and its message are. -/
theorem parseThreadtime_stamped (label text : List Char) :
    parseThreadtime (linePrefix offset now pid thread level label ++ text)
      = some ⟨stamp offset now, level,
          (label ++ ':' :: ' ' :: text).dropWhile isWhitespace⟩ := by
  have hspace : isWhitespace ' ' = true := by decide
  have hdigits : ∀ n, ∀ c ∈ Nat.toDigits 10 n, c.isDigit = true :=
    fun n c hc => Nat.isDigit_of_mem_toDigits (by decide) (by decide) hc
  have hnumber : ∀ n rest, ∀ c ∈ (Nat.toDigits 10 n ++ rest).head?,
      isWhitespace c = false := by
    intro n rest c hc
    obtain ⟨d, ds, hn⟩ := List.exists_cons_of_ne_nil
      (Nat.toDigits_ne_nil (n := n) (b := 10))
    rw [hn, List.cons_append, List.head?_cons, Option.mem_some_iff] at hc
    exact isDigit_not_whitespace (hdigits n c (by simp [hn, hc]))
  have hletter : isWhitespace level.letter = false := by
    cases level <;> decide
  have hblank : ∀ rest, (∀ c ∈ rest.head?, isWhitespace c = false) →
      stripRun isWhitespace (' ' :: rest) = some rest := fun rest hhead =>
    @Text.stripRun_append _ [' '] rest (by simp) (by simp [hspace]) hhead
  have hrun : ∀ n rest, stripRun Char.isDigit
      (Nat.toDigits 10 n ++ ' ' :: rest) = some (' ' :: rest) := fun n rest =>
    Text.stripRun_append Nat.toDigits_ne_nil (hdigits n) (by simp)
  have hlast : ∀ rest, stripRun isWhitespace (' ' :: rest)
      = some (rest.dropWhile isWhitespace) := by
    simp [stripRun, hspace]
  have hdrop : ∀ rest, (stamp offset now ++ rest).drop SHAPE.length = rest :=
    fun rest => List.drop_left' (stamp_length offset now)
  have htake : ∀ rest,
      (stamp offset now ++ rest).take SHAPE.length = stamp offset now :=
    fun rest => List.take_left' (stamp_length offset now)
  simp only [parseThreadtime, linePrefix, List.append_assoc, List.cons_append,
    List.nil_append, matched_stamp, if_true, hdrop, htake]
  rw [hblank _ (hnumber _ _)]
  simp only [Option.bind_eq_bind, Option.bind_some, hrun]
  rw [hblank _ (hnumber _ _)]
  simp only [Option.bind_some, hrun]
  rw [hblank _ (by simp [hletter])]
  simp only [Option.bind_some, List.head?_cons, level_letter, List.tail_cons,
    hlast]

theorem parseThreadtime_written {label : List Char} (hlabel : PlainLabel label)
    (text : List Char) :
    parseThreadtime (linePrefix offset now pid thread level label ++ text)
      = some ⟨stamp offset now, level, label ++ ':' :: ' ' :: text⟩ := by
  have hcolon : isWhitespace ':' = false := by decide
  rw [parseThreadtime_stamped]
  cases hlabel' : label with
  | nil => simp [hcolon]
  | cons first more =>
      have hfirst : isWhitespace first = false :=
        hlabel.noWhitespace first (by simp [hlabel'])
      simp [hfirst]

/-- A line that `record` wrote is read back: its level, its label, its text less a
carriage return at the end, and a time that depends on its stamp. -/
theorem projectLine_written {label : List Char} (hlabel : PlainLabel label)
    (text : List Char) (thisYear : ℤ) (year : Option ℤ) (carried : ℕ) :
    projectLine offset thisYear
        (Text.dropReturn (linePrefix offset now pid thread level label ++ text))
        year carried
      = (⟨(stampMillis offset thisYear (stamp offset now) year).getD carried,
            level, label, Text.dropReturn text⟩,
          (stampMillis offset thisYear (stamp offset now) year).getD carried) := by
  have hlast : (linePrefix offset now pid thread level label).getLast?
      ≠ some '\r' := by
    simp [linePrefix, List.getLast?_append, List.getLast?_cons]
  rw [Text.dropReturn_append _ hlast, projectLine,
    parseThreadtime_written offset now pid thread level hlabel]
  simp [Text.splitOnce_append hlabel.noColonSpace]

theorem newline_not_mem_linePrefix {label : List Char} (hlabel : '\n' ∉ label) :
    '\n' ∉ linePrefix offset now pid thread level label := by
  have hdigits : ∀ n, '\n' ∉ Nat.toDigits 10 n := fun n hn =>
    absurd (Nat.isDigit_of_mem_toDigits (by decide) (by decide) hn) (by decide)
  have hchar : ∀ n < 10, '\n' ≠ Nat.digitChar n := by decide
  obtain ⟨hmonth, hday, hhour, hminute, hsecond, hmilli⟩ :=
    stamp_ranges offset now
  have hletter : '\n' ≠ level.letter := by cases level <;> decide
  simp (disch := omega) [linePrefix, stamp, two, three, hdigits, hletter,
    hlabel, hchar]

end RoundTrip

end LogStore

end Bridgething
