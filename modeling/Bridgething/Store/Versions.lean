/-
How versions are read and compared, by the updater that installs and by the
listing that offers.
-/
import Bridgething.Lib.Text

namespace Bridgething

namespace Store

/-- The text less a letter v before it. -/
def stripV : List Char → List Char
  | 'v' :: rest | 'V' :: rest => rest
  | text => text

/-- What stands before a build or a prerelease tag, in its parts. -/
def parts (bare : List Char) : List (List Char) :=
  (bare.takeWhile fun c => c ≠ '-' && c ≠ '+').splitOn '.'

def versionComponents (raw : String) : List Nat :=
  (parts (stripV (Text.trim raw.toList))).map fun part =>
    (Text.parseUnsigned (2 ^ 64 - 1) (part.takeWhile Char.isDigit)).getD 0

def compareVersions (a b : String) : Ordering :=
  let left := versionComponents a
  let right := versionComponents b
  ((List.range (max left.length right.length)).map fun i =>
      compare (left[i]?.getD 0) (right[i]?.getD 0)).find? (· ≠ .eq)
    |>.getD .eq

def satisfies (deviceVersion minimum : String) : Bool :=
  (compareVersions deviceVersion minimum).isGE

/-- Whether a version is one to go on to from another. -/
def isUpgrade (candidate installed : String) : Bool :=
  (compareVersions candidate installed).isGT

namespace Resolve

/-- White space as ECMAScript has it: the byte order mark is, and the next line
character is not. -/
def isWhitespace (c : Char) : Bool :=
  Text.isWhitespace c && c.toNat ≠ 0x85 || c.toNat = 0xFEFF

def trim (text : List Char) : List Char :=
  (text.dropWhile isWhitespace).rdropWhile isWhitespace

/-- The number that stands for an integer: the nearest that has 53 bits, the
even one of two.  `2 ^ 1024` is infinity. -/
def toNumber (n : Nat) : Nat :=
  if n < 2 ^ 53 then n
  else
    let unit := 2 ^ (n.log2 - 52)
    let down := n / unit
    let rest := n % unit
    let near :=
      if unit < 2 * rest ∨ unit = 2 * rest ∧ down % 2 = 1 then down + 1
      else down
    min (near * unit) (2 ^ 1024)

/-- No part has a sign. -/
def parseInt (part : List Char) : Option Nat :=
  let digits := (part.dropWhile isWhitespace).takeWhile Char.isDigit
  if digits.isEmpty then none
  else
    some (toNumber
      (digits.foldl (fun n c => 10 * n + (c.toNat - '0'.toNat)) 0))

def versionComponents (raw : String) : List Nat :=
  (parts (stripV (trim raw.toList))).map fun part => (parseInt part).getD 0

def compareVersions (a b : String) : Int :=
  let pa := versionComponents a
  let pb := versionComponents b
  match (List.range (max pa.length pb.length)).find? fun i =>
      pa[i]?.getD 0 ≠ pb[i]?.getD 0 with
  | some i => if pa[i]?.getD 0 < pb[i]?.getD 0 then -1 else 1
  | none => 0

def satisfies (deviceVersion minimum : String) : Bool :=
  0 ≤ compareVersions deviceVersion minimum

def isUpgrade (candidate installed : String) : Bool :=
  0 < compareVersions candidate installed

end Resolve

/-! ### Where the two agree -/

end Store

end Bridgething
