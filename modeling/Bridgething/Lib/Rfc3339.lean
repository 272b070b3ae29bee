/-
Times as RFC 3339 writes them, and the instants that they name.
-/
import Bridgething.Lib.Calendar

namespace Rfc3339

/-- A time as it is written: a leap second is second 60, and the offset is in
minutes. -/
structure Stamp where
  moment : Calendar.Moment
  places : ℕ
  offset : ℤ
  capitals : Bool

/-- Milliseconds from the start of 1 January 1970 by universal time; a leap
second is counted as the first of the minute after it. -/
def Stamp.instant (stamp : Stamp) : ℤ :=
  stamp.moment.millis - 60000 * stamp.offset

def value (digits : List Char) : ℕ :=
  digits.foldl (fun n c => 10 * n + (c.toNat - '0'.toNat)) 0

/-- A number of so many digits, and what comes after it. -/
def number (width : ℕ) (text : List Char) : Option (ℕ × List Char) :=
  if (text.take width).length = width ∧ (text.take width).all Char.isDigit then
    some (value (text.take width), text.drop width)
  else none

/-- What comes after one of the marks. -/
def mark (marks : List Char) : List Char → Option (List Char)
  | [] => none
  | c :: rest => if c ∈ marks then some rest else none

/-- The digits of a fraction of a second, if there is one. -/
def fraction (text : List Char) : Option (List Char × List Char) :=
  match mark ['.'] text with
  | none => some ([], text)
  | some rest =>
      if (rest.takeWhile Char.isDigit).isEmpty then none
      else some (rest.takeWhile Char.isDigit, rest.dropWhile Char.isDigit)

/-- The offset from universal time, at the end of the text. -/
def zone (text : List Char) : Option ℤ :=
  if text = ['Z'] ∨ text = ['z'] then some 0
  else do
    let rest ← mark ['+', '-'] text
    let (hours, rest) ← number 2 rest
    let rest ← mark [':'] rest
    let (minutes, rest) ← number 2 rest
    if hours < 24 ∧ minutes < 60 ∧ rest = [] then
      some (if text.head? = some '-' then -(60 * hours + minutes : ℤ)
        else 60 * hours + minutes)
    else none

def parse (text : List Char) : Option Stamp := do
  let (year, rest) ← number 4 text
  let rest ← mark ['-'] rest
  let (month, rest) ← number 2 rest
  let rest ← mark ['-'] rest
  let (day, rest) ← number 2 rest
  let clock ← mark ['T', 't', ' '] rest
  let (hour, clock) ← number 2 clock
  let clock ← mark [':'] clock
  let (minute, clock) ← number 2 clock
  let clock ← mark [':'] clock
  let (second, clock) ← number 2 clock
  let (digits, clock) ← fraction clock
  let offset ← zone clock
  let date ← Calendar.Date.ofYmd? year (month - 1) (day - 1)
  if 0 < month ∧ 0 < day ∧ hour < 24 ∧ minute < 60 ∧ second ≤ 60 then
    some
      { moment := ⟨date, hour, minute, second,
          value ((digits ++ ['0', '0', '0']).take 3)⟩
        places := digits.length
        offset := offset
        capitals := rest.head? = some 'T' ∧ clock ≠ ['z'] }
  else none

example : (parse "2016-12-31T23:59:60Z".toList).map Stamp.instant =
    (parse "2017-01-01T01:00:00.0009+01:00".toList).map Stamp.instant := by
  decide +kernel

end Rfc3339
