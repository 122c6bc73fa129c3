/-
Texts: one in another, their lines, and numbers in them. `lines` and `trim` do
what `str::lines` and `str::trim` do, `splitOnce` and `parseUsize` likewise.

A text without a line feed is in a text of several lines if it is in one of
them (`hasText_unlines`), and the lines of such a text are these
(`lines_unlines`).
-/
import Mathlib.Algebra.Group.Nat.Defs
import Mathlib.Data.List.Infix

/-- One text is in another. -/
def hasText (text pattern : String) : Bool := pattern.toList <:+: text.toList

namespace Text

/-- The text of lines, each with a line feed behind it. -/
def unlines (ls : List String) : String := String.join (ls.map (· ++ "\n"))

def chomp (segment : List Char) : List Char := if segment.getLast? = some '\r' then segment.dropLast else segment

/-- What is behind the last line feed is a line unless it is empty. -/
def ends : List (List Char) → List (List Char)
  | [] => []
  | [last] => if last = [] then [] else [last]
  | segment :: rest => chomp segment :: ends rest

def lines (text : String) : List String := (ends (text.toList.splitOn '\n')).map String.ofList

/-- What is before and behind the first of these characters. -/
def splitOnce (text : String) (c : Char) : Option (String × String) :=
  match text.toList.dropWhile (· ≠ c) with
  | [] => none
  | _ :: rest => some (String.ofList (text.toList.takeWhile (· ≠ c)), String.ofList rest)

def trimStartMatches (text : String) (c : Char) : String := String.ofList (text.toList.dropWhile (· = c))

/-- The characters that Unicode calls white space. -/
def isWhite (c : Char) : Bool :=
  c.isWhitespace || c.toNat ∈ [0x0b, 0x0c, 0x85, 0xa0, 0x1680, 0x2028, 0x2029, 0x202f, 0x205f, 0x3000] ||
    (0x2000 ≤ c.toNat && c.toNat ≤ 0x200a)

def trim (text : String) : String :=
  String.ofList ((text.toList.dropWhile isWhite).reverse.dropWhile isWhite).reverse

def parseDigits (digits : List Char) : Option Nat :=
  if digits ≠ [] ∧ digits.all (·.isDigit) then
    let n := Nat.ofDigitChars 10 digits 0
    if n < 2 ^ 64 then some n else none
  else none

def parseUsize (text : String) : Option Nat :=
  match text.toList with
  | '+' :: digits => parseDigits digits
  | digits => parseDigits digits

/-! ## Lines -/

section

variable {α : Type} {pattern xs ys : List α} {c : α}

/-- What is in two lists with a separator between them, and is without it, is in one of them. -/
theorem infix_of_separated (h : pattern <:+: xs ++ c :: ys) (hc : c ∉ pattern) : pattern <:+: xs ∨ pattern <:+: ys := by
  obtain ⟨front, back, heq⟩ := h
  rw [List.append_assoc] at heq
  cases List.append_eq_append_iff.mp heq with
  | inl hlonger =>
    obtain ⟨more, hxs, hrest⟩ := hlonger
    cases List.append_eq_append_iff.mp hrest with
    | inl hinside =>
      obtain ⟨last, hmore, -⟩ := hinside
      left
      exact ⟨front, last, by rw [hxs, hmore, List.append_assoc]⟩
    | inr hover =>
      obtain ⟨last, hpattern, hlast⟩ := hover
      cases last with
      | nil => left; exact ⟨front, [], by simp [hxs, hpattern]⟩
      | cons d last =>
        cases hlast
        exact absurd (by simp [hpattern]) hc
  | inr hshorter =>
    obtain ⟨more, -, hrest⟩ := hshorter
    cases more with
    | nil =>
      cases pattern with
      | nil => exact .inl (List.nil_infix)
      | cons d pattern =>
        cases hrest
        exact absurd (by simp) hc
    | cons d more =>
      cases hrest
      right
      exact ⟨more, back, by simp⟩

theorem infix_separated : pattern <:+: xs ∨ pattern <:+: ys → pattern <:+: xs ++ c :: ys := by
  intro h
  cases h with
  | inl h => exact h.trans (List.prefix_append _ _).isInfix
  | inr h => exact h.trans (((List.suffix_cons c ys).trans (List.suffix_append _ _)).isInfix)

/-- The last separator splits a list in one way. -/
theorem append_separated_inj {xs' ys' : List α} (hys : c ∉ ys) (hys' : c ∉ ys') (h : xs ++ c :: ys = xs' ++ c :: ys') :
    xs = xs' ∧ ys = ys' := by
  cases List.append_eq_append_iff.mp h with
  | inl hlonger =>
    obtain ⟨more, hxs, hrest⟩ := hlonger
    cases more with
    | nil => exact ⟨by simpa using hxs.symm, (List.cons.inj hrest).2⟩
    | cons d more =>
      rw [(List.cons.inj hrest).2] at hys
      exact absurd (by simp) hys
  | inr hshorter =>
    obtain ⟨more, hxs, hrest⟩ := hshorter
    cases more with
    | nil => exact ⟨by simpa using hxs, (List.cons.inj hrest).2.symm⟩
    | cons d more =>
      rw [(List.cons.inj hrest).2] at hys'
      exact absurd (by simp) hys'

/-- The separator is in no part of a split list. -/
theorem not_mem_of_mem_splitOn [DecidableEq α] : ∀ {xs part : List α}, part ∈ xs.splitOn c → c ∉ part
  | [], part, h => by
    rw [List.splitOn_nil, List.mem_singleton] at h
    simp [h]
  | x :: xs, part, h => by
    rw [List.splitOn_cons_eq_if_modifyHead] at h
    split at h
    · cases List.mem_cons.mp h with
      | inl hnil => simp [hnil]
      | inr hrest => exact not_mem_of_mem_splitOn hrest
    · rename_i hx
      cases hparts : xs.splitOn c with
      | nil => exact absurd hparts (List.splitOn_ne_nil c xs)
      | cons first rest =>
        rw [hparts, List.modifyHead_cons] at h
        have hmem : ∀ other ∈ first :: rest, c ∉ other := fun other hother => not_mem_of_mem_splitOn (hparts ▸ hother)
        cases List.mem_cons.mp h with
        | inl hfirst =>
          rw [hfirst, List.mem_cons, not_or]
          refine ⟨fun hc => hx ?_, hmem first List.mem_cons_self⟩
          simp [hc]
        | inr hrest => exact hmem part (List.mem_cons_of_mem _ hrest)

end

theorem toList_unlines_cons (l : String) (ls : List String) : (unlines (l :: ls)).toList = l.toList ++ '\n' :: (unlines ls).toList := by
  simp [unlines, String.join_cons]

/-- **A pattern of one line** is in a text if it is in one of its lines. -/
theorem hasText_unlines {pattern : String} (hline : '\n' ∉ pattern.toList) (hnonempty : pattern ≠ "") (ls : List String) :
    hasText (unlines ls) pattern = true ↔ ∃ l ∈ ls, hasText l pattern = true := by
  unfold hasText
  simp only [decide_eq_true_eq]
  induction ls with
  | nil => simp [unlines, hnonempty]
  | cons l ls ih =>
    rw [toList_unlines_cons, List.exists_mem_cons_iff, ← ih]
    exact ⟨fun h => infix_of_separated h hline, infix_separated⟩

theorem splitOn_unlines {ls : List String} (h : ∀ l ∈ ls, '\n' ∉ l.toList) :
    (unlines ls).toList.splitOn '\n' = ls.map (·.toList) ++ [[]] := by
  have htext : (unlines ls).toList = ['\n'].intercalate (ls.map (·.toList) ++ [[]]) := by
    induction ls with
    | nil => simp [unlines]
    | cons l ls ih =>
      rw [toList_unlines_cons, ih fun l hl => h l (by simp [hl]), List.map_cons, List.cons_append]
      cases ls with
      | nil => simp
      | cons l' ls => simp [List.intercalate_cons_cons]
  rw [htext]
  refine List.splitOn_intercalate '\n' (fun l hl => ?_) (by simp)
  simp only [List.mem_append, List.mem_map, List.mem_singleton] at hl
  rcases hl with ⟨l', hl', heq⟩ | heq
  · rw [← heq]
    exact h l' hl'
  · simp [heq]

/-- **The lines of a text of lines.** -/
theorem lines_unlines {ls : List String} (h : ∀ l ∈ ls, '\n' ∉ l.toList ∧ l.toList.getLast? ≠ some '\r') :
    lines (unlines ls) = ls := by
  have hends : ends (ls.map (·.toList) ++ [[]]) = ls.map (·.toList) := by
    induction ls with
    | nil => simp [ends]
    | cons l ls ih =>
      have hrest := ih fun l hl => h l (by simp [hl])
      have hchomp : chomp l.toList = l.toList := if_neg (h l (by simp)).2
      cases ls with
      | nil => simp [ends, hchomp]
      | cons l' ls =>
        rw [List.map_cons, List.cons_append, List.map_cons, List.cons_append, ends, hchomp]
        · rw [List.map_cons, List.cons_append] at hrest
          rw [hrest]
        · simp
  unfold lines
  rw [splitOn_unlines fun l hl => (h l hl).1, hends]
  simp

/-! ## Numbers -/

theorem toString_inj {n m : Nat} (h : toString n = toString m) : n = m := by
  have hdigits : Nat.toDigits 10 n = Nat.toDigits 10 m := by
    rw [← Nat.toList_repr, ← Nat.toList_repr]
    exact congrArg String.toList h
  rw [← @Nat.ofDigitChars_ten_toDigits n, hdigits, Nat.ofDigitChars_ten_toDigits]

theorem isDigit_toString {n : Nat} : ∀ c ∈ (toString n).toList, c.isDigit = true := by
  intro c hc
  change c ∈ n.repr.toList at hc
  rw [Nat.toList_repr] at hc
  exact Nat.isDigit_of_mem_toDigits (by decide) (by decide) hc

theorem toString_ne_nil (n : Nat) : (toString n).toList ≠ [] := by
  show n.repr.toList ≠ []
  rw [Nat.toList_repr]
  exact Nat.toDigits_ne_nil

theorem parseUsize_toString {n : Nat} (h : n < 2 ^ 64) : parseUsize (toString n) = some n := by
  have hdigits : parseDigits (toString n).toList = some n := by
    have hvalue : Nat.ofDigitChars 10 (toString n).toList 0 = n := by
      show Nat.ofDigitChars 10 n.repr.toList 0 = n
      rw [Nat.toList_repr, Nat.ofDigitChars_ten_toDigits]
    have hall : (toString n).toList.all (·.isDigit) = true := List.all_eq_true.mpr isDigit_toString
    unfold parseDigits
    rw [if_pos ⟨toString_ne_nil n, hall⟩]
    simp only [hvalue, h, if_true]
  unfold parseUsize
  split
  · rename_i digits heq
    have hplus := @isDigit_toString n '+' (by rw [heq]; simp)
    exact absurd hplus (by decide)
  · exact hdigits

end Text
