/-
Text as characters: what is white space at its ends, what differs only in the
case of its letters, its lines, what stands before a mark in it, and the numbers
that it spells.
-/
import Mathlib

namespace Text

/-- The characters that Unicode calls white space. -/
def isWhitespace (c : Char) : Bool :=
  let n := c.toNat
  0x9 ≤ n && n ≤ 0xD || n = 0x20 || n = 0x85 || n = 0xA0 || n = 0x1680 ||
    0x2000 ≤ n && n ≤ 0x200A || n = 0x2028 || n = 0x2029 || n = 0x202F ||
    n = 0x205F || n = 0x3000

def trimStart (text : List Char) : List Char := text.dropWhile isWhitespace

def trimEnd (text : List Char) : List Char := text.rdropWhile isWhitespace

def trim (text : List Char) : List Char := trimEnd (trimStart text)

/-- Only letters of ASCII have another case. -/
def toAsciiLowercase (text : List Char) : List Char := text.map Char.toLower

def eqIgnoreAsciiCase (left right : List Char) : Bool :=
  toAsciiLowercase left = toAsciiLowercase right

section Lines

/-- A line less the carriage return at its end, if it has one. -/
def dropReturn (line : List Char) : List Char :=
  if line.getLast? = some '\r' then line.dropLast else line

/-- The lines of a text: what stands before each newline, less a carriage return,
and what stands after the last, if anything does. -/
def lines (text : List Char) : List (List Char) :=
  (text.splitOn '\n').dropLast.map dropReturn
    ++ (text.splitOn '\n').getLast?.toList.filter (· ≠ [])

theorem dropReturn_append {front : List Char} (line : List Char)
    (hfront : front.getLast? ≠ some '\r') :
    dropReturn (front ++ line) = front ++ dropReturn line := by
  cases hline : line with
  | nil => simp [dropReturn, hfront]
  | cons c rest =>
      have hlast : (front ++ c :: rest).getLast? = (c :: rest).getLast? := by
        simp [List.getLast?_append, List.getLast?_cons]
      unfold dropReturn
      rw [hlast]
      split
      · rw [List.dropLast_append_of_ne_nil (List.cons_ne_nil c rest)]
      · rfl

/-- A line that is ended by a newline, and has none of its own, is read first. -/
theorem lines_line {line : List Char} (hline : '\n' ∉ line) (rest : List Char) :
    lines (line ++ '\n' :: rest) = dropReturn line :: lines rest := by
  have hsplit : (line ++ '\n' :: rest).splitOn '\n'
      = line :: rest.splitOn '\n' := by
    apply List.splitOnP_append_cons_of_forall_mem
    · intro c hc
      simpa using fun h : c = '\n' => hline (h ▸ hc)
    · simp
  have hnonempty : rest.splitOn '\n' ≠ [] := List.splitOnP_ne_nil _ _
  obtain ⟨first, others, hparts⟩ := List.exists_cons_of_ne_nil hnonempty
  simp only [lines, hsplit, hparts, List.dropLast_cons_cons, List.map_cons,
    List.getLast?_cons_cons, List.cons_append]

/-- Lines written one after the other, each with its newline, are read back. -/
theorem lines_written {written : List (List Char)}
    (hwritten : ∀ line ∈ written, '\n' ∉ line) :
    lines (written.flatMap fun line => line ++ ['\n'])
      = written.map dropReturn := by
  induction written with
  | nil => rfl
  | cons line written ih =>
      have hrest := ih fun other hother =>
        hwritten other (List.mem_cons_of_mem _ hother)
      rw [List.flatMap_cons, List.append_assoc, List.singleton_append,
        lines_line (hwritten line List.mem_cons_self), hrest, List.map_cons]

/-- No part of a text split at a mark holds the mark. -/
theorem not_mem_of_mem_splitOn {mark : Char} {text part : List Char}
    (hpart : part ∈ text.splitOn mark) : mark ∉ part := by
  induction text generalizing part with
  | nil =>
      rw [List.splitOn_nil, List.mem_singleton] at hpart
      simp [hpart]
  | cons c text ih =>
      rw [List.splitOn, List.splitOnP_cons_eq_if_modifyHead] at hpart
      split at hpart
      · rcases List.mem_cons.mp hpart with rfl | hrest
        · simp
        · exact ih hrest
      · rename_i hmark
        cases hparts : List.splitOnP (· == mark) text with
        | nil => simp [hparts] at hpart
        | cons first others =>
            rw [hparts, List.modifyHead_cons] at hpart
            rcases List.mem_cons.mp hpart with rfl | hrest
            · have hfirst : mark ∉ first := @ih first (by
                rw [List.splitOn, hparts]
                exact List.mem_cons_self)
              have hc : mark ≠ c := fun h => hmark (by simp [h])
              simp [hc, hfirst]
            · exact ih (by
                rw [List.splitOn, hparts]
                exact List.mem_cons_of_mem _ hrest)

end Lines

section Marks

/-- What stands before the first `: ` of a text, and what stands behind it. -/
def splitOnce : List Char → Option (List Char × List Char)
  | [] => none
  | c :: rest =>
      if c = ':' ∧ rest.head? = some ' ' then some ([], rest.tail)
      else (splitOnce rest).map fun found => (c :: found.1, found.2)

/-- What is left behind the longest run of accepted characters, if there is one. -/
def stripRun (accept : Char → Bool) (text : List Char) : Option (List Char) :=
  if (text.takeWhile accept).length = 0 then none
  else some (text.dropWhile accept)

theorem splitOnce_append {front : List Char}
    (hfront : ¬ [':', ' '] <:+: front) (rest : List Char) :
    splitOnce (front ++ ':' :: ' ' :: rest) = some (front, rest) := by
  induction front with
  | nil => simp [splitOnce]
  | cons c front ih =>
      have hrest := ih fun hin =>
        hfront (hin.trans (List.suffix_cons c front).isInfix)
      have hhere : ¬ (c = ':' ∧
          (front ++ ':' :: ' ' :: rest).head? = some ' ') := by
        rintro ⟨rfl, hspace⟩
        cases front with
        | nil => simp at hspace
        | cons d more =>
            simp only [List.cons_append, List.head?_cons,
              Option.some.injEq] at hspace
            subst hspace
            exact hfront ⟨[], more, rfl⟩
      rw [List.cons_append, splitOnce, if_neg hhere, hrest]
      rfl

theorem stripRun_append {accept : Char → Bool} {run rest : List Char}
    (hrun : run ≠ []) (haccept : ∀ c ∈ run, accept c = true)
    (hrest : ∀ c ∈ rest.head?, accept c = false) :
    stripRun accept (run ++ rest) = some rest := by
  have hlength : ((run ++ rest).takeWhile accept).length ≠ 0 := by
    rw [List.takeWhile_append_of_pos haccept]
    simp [hrun]
  rw [stripRun, if_neg hlength, List.dropWhile_append_of_pos haccept]
  cases rest with
  | nil => rfl
  | cons c more => simp [hrest c (by simp)]

end Marks

section Numbers

/-- A number of digits, with a plus before them or none, that is in bounds. -/
def parseUnsigned (bound : Nat) (text : List Char) : Option Nat :=
  let digits := if text.head? = some '+' then text.tail else text
  let value := digits.foldl (fun n c => 10 * n + (c.toNat - '0'.toNat)) 0
  if digits ≠ [] ∧ digits.all Char.isDigit ∧ value ≤ bound then some value
  else none

theorem parseUnsigned_le {bound value : Nat} {text : List Char}
    (h : parseUnsigned bound text = some value) : value ≤ bound := by
  simp only [parseUnsigned, Option.ite_none_right_eq_some,
    Option.some.injEq] at h
  obtain ⟨hok, rfl⟩ := h
  exact hok.2.2

end Numbers

end Text
