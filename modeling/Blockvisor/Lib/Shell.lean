/-
Text between double quotes, as the POSIX shell reads it. A dollar sign or a
backquote may begin an expansion there. A backslash is an escape before one of
these, a quote or a backslash; before a line feed the two are left out; before
any other character it is what it is, and stays.

`quoted_flatMap` reads text that was escaped character by character, with
anything behind its closing quote.
-/
import Mathlib.Data.List.Basic

namespace Shell

/-- What a backslash between double quotes takes the meaning of. -/
def escapable (c : Char) : Bool := c = '$' || c = '`' || c = '"' || c = '\\'

/-- A character more of what was read. -/
def push (c : Char) (read : List Char × List Char) : List Char × List Char := (c :: read.1, read.2)

/-- Reads from behind the opening quote to the closing one: the value, and
what is behind. There is none if an expansion may begin, or nothing closes. -/
def quoted : List Char → Option (List Char × List Char)
  | [] => none
  | [c] => if c = '"' then some ([], []) else none
  | c :: d :: rest =>
    if c = '"' then some ([], d :: rest)
    else if c = '$' ∨ c = '`' then none
    else if c = '\\' ∧ d = '\n' then quoted rest
    else if c = '\\' ∧ escapable d then (quoted rest).map (push d)
    else (quoted (d :: rest)).map (push c)

/-- The value of a text that is one double-quoted word and nothing else. -/
def word : List Char → Option (List Char)
  | [] => none
  | c :: rest => if c = '"' then (quoted rest).bind fun read => if read.2 = [] then some read.1 else none else none

theorem quoted_close (rest : List Char) : quoted ('"' :: rest) = some ([], rest) := by
  cases rest with
  | nil => rfl
  | cons d rest => simp [quoted]

theorem quoted_literal {c : Char} (h : escapable c = false) (rest : List Char) :
    quoted (c :: rest) = (quoted rest).map (push c) := by
  simp only [escapable, Bool.or_eq_false_iff, decide_eq_false_iff_not] at h
  cases rest with
  | nil => simp [quoted, h]
  | cons d rest => simp [quoted, h]

theorem quoted_escape {d : Char} (h : escapable d = true) (rest : List Char) :
    quoted ('\\' :: d :: rest) = (quoted rest).map (push d) := by
  have hd : d ≠ '\n' := by
    intro hd
    subst hd
    cases h
  simp [quoted, h, hd]

/-- Before a character it does not escape, a backslash stays. -/
theorem quoted_backslash {d : Char} (h : escapable d = false) (hd : d ≠ '\n') (rest : List Char) :
    quoted ('\\' :: d :: rest) = (quoted rest).map fun read => push '\\' (push d read) := by
  have hread : quoted ('\\' :: d :: rest) = (quoted (d :: rest)).map (push '\\') := by
    simp [quoted, h, hd]
  rw [hread, quoted_literal h, Option.map_map]
  rfl

/-- **Text escaped character by character** reads as the values of what each
character was escaped to, and ends at its own closing quote. -/
theorem quoted_flatMap {escape value : Char → List Char} {text : List Char}
    (h : ∀ c ∈ text, ∀ rest, quoted (escape c ++ rest) = (quoted rest).map fun read => (value c ++ read.1, read.2))
    (rest : List Char) : quoted (text.flatMap escape ++ '"' :: rest) = some (text.flatMap value, rest) := by
  induction text with
  | nil => exact quoted_close rest
  | cons c text ih =>
    have htext := ih fun d hd => h d (List.mem_cons_of_mem c hd)
    rw [List.flatMap_cons, List.append_assoc, h c (List.mem_cons_self ..), htext]
    rfl

theorem word_quoted {text value : List Char} (h : quoted text = some (value, [])) : word ('"' :: text) = some value := by
  simp [word, h]

end Shell
