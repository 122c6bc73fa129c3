/-
Prefix codes: encodings of which one can tell where they end, whatever comes
next. What a reader gives back is one (`of_reader`); so are as many encodings as
there are until something that begins none of them (`closed`, `joined_code`),
and a code in symbols that are themselves encoded (`flatMap`).

`CodeBefore` is for parts that end only where something particular comes next, as
a number ends where there is no digit.
-/
import Mathlib.Data.List.Basic

/-- Before a rest of this kind, an encoding is told apart from it. -/
def CodeBefore {α β : Type} (rest : List β → Prop) (f : α → List β) : Prop :=
  ∀ a b r s, rest r → rest s → f a ++ r = f b ++ s → a = b ∧ r = s

/-- An encoding is told apart from anything behind it. -/
def PrefixCode {α β : Type} (f : α → List β) : Prop := ∀ a b r s, f a ++ r = f b ++ s → a = b ∧ r = s

namespace PrefixCode

variable {α β δ : Type} {f : α → List β}

theorem before (h : PrefixCode f) (rest : List β → Prop) : CodeBefore rest f := fun a b r s _ _ heq => h a b r s heq

theorem inj (h : PrefixCode f) {a b : α} (heq : f a = f b) : a = b := (h a b [] [] (by rw [heq])).1

/-- No encoding is part of another one, from its beginning. -/
theorem not_cut (h : PrefixCode f) {a b : α} {more : List β} (heq : f a ++ more = f b) : more = [] := by
  have hsame : f a ++ more = f b ++ [] := by rw [heq, List.append_nil]
  exact (h a b more [] hsame).2

/-- What a reader gives back, with anything behind it, is told apart from it. -/
theorem of_reader (read : List β → Option (α × List β)) (h : ∀ a r, read (f a ++ r) = some (a, r)) : PrefixCode f := by
  intro a b r s heq
  have hread := h a r
  rw [heq, h b s] at hread
  obtain ⟨hba, hsr⟩ := Prod.mk.inj (Option.some.inj hread)
  exact ⟨hba.symm, hsr.symm⟩

/-- As many as there are, until what begins none of them. -/
theorem closed {rest : List β → Prop} (hf : CodeBefore rest f) (stop : β) (hhead : ∀ a, ∃ x xs, f a = x :: xs ∧ x ≠ stop)
    (hstop : ∀ r, rest (stop :: r)) (hmore : ∀ a r, rest (f a ++ r)) :
    PrefixCode fun l : List α => l.flatMap f ++ [stop] := by
  have hrest : ∀ (l : List α) r, rest (l.flatMap f ++ [stop] ++ r) := by
    intro l r
    cases l with
    | nil => exact hstop r
    | cons a l =>
      rw [List.flatMap_cons, List.append_assoc, List.append_assoc]
      exact hmore a _
  intro l
  induction l with
  | nil =>
    intro m r s heq
    cases m with
    | nil => exact ⟨rfl, (List.cons.inj heq).2⟩
    | cons b m =>
      obtain ⟨x, xs, hb, hx⟩ := hhead b
      simp only [List.flatMap_nil, List.nil_append, List.flatMap_cons, hb, List.cons_append, List.append_assoc] at heq
      exact absurd (List.cons.inj heq).1.symm hx
  | cons a l ih =>
    intro m r s heq
    cases m with
    | nil =>
      obtain ⟨x, xs, ha, hx⟩ := hhead a
      simp only [List.flatMap_nil, List.nil_append, List.flatMap_cons, ha, List.cons_append, List.append_assoc] at heq
      exact absurd (List.cons.inj heq).1 hx
    | cons b m =>
      have hsplit : ∀ (a : α) (l : List α) r, (a :: l).flatMap f ++ [stop] ++ r = f a ++ (l.flatMap f ++ [stop] ++ r) := by
        intro a l r
        simp only [List.flatMap_cons, List.append_assoc]
      have heq' : f a ++ (l.flatMap f ++ [stop] ++ r) = f b ++ (m.flatMap f ++ [stop] ++ s) := by
        rw [← hsplit, ← hsplit]
        exact heq
      obtain ⟨hab, hlists⟩ := hf a b _ _ (hrest l r) (hrest m s) heq'
      obtain ⟨hlm, hrs⟩ := ih m r s hlists
      exact ⟨by rw [hab, hlm], hrs⟩

/-- The code of a list, with a separator between two and something behind the last. -/
def joined (f : α → List β) (sep stop : β) : List α → List β
  | [] => [stop]
  | a :: l => f a ++ (l.flatMap (fun a => sep :: f a) ++ [stop])

theorem joined_code {rest : List β → Prop} (hf : CodeBefore rest f) {sep stop : β} (hapart : sep ≠ stop)
    (hhead : ∀ a, ∃ x xs, f a = x :: xs ∧ x ≠ stop) (hsep : ∀ r, rest (sep :: r)) (hstop : ∀ r, rest (stop :: r)) :
    PrefixCode (joined f sep stop) := by
  have hitem : CodeBefore rest fun a => sep :: f a := by
    intro a b r s hr hs heq
    exact hf a b r s hr hs (List.cons.inj heq).2
  have hitems := closed hitem stop (fun a => ⟨sep, f a, rfl, hapart⟩) hstop fun a r => hsep _
  have hrest : ∀ (l : List α) r, rest (l.flatMap (fun a => sep :: f a) ++ [stop] ++ r) := by
    intro l r
    cases l with
    | nil => exact hstop r
    | cons a l => exact hsep _
  intro l m r s heq
  cases l with
  | nil =>
    cases m with
    | nil => exact ⟨rfl, (List.cons.inj heq).2⟩
    | cons b m =>
      obtain ⟨x, xs, hb, hx⟩ := hhead b
      simp only [joined, hb, List.cons_append] at heq
      exact absurd (List.cons.inj heq).1.symm hx
  | cons a l =>
    cases m with
    | nil =>
      obtain ⟨x, xs, ha, hx⟩ := hhead a
      simp only [joined, ha, List.cons_append] at heq
      exact absurd (List.cons.inj heq).1 hx
    | cons b m =>
      simp only [joined] at heq
      rw [List.append_assoc (f a), List.append_assoc (f b)] at heq
      obtain ⟨hab, hlists⟩ := hf a b _ _ (hrest l r) (hrest m s) heq
      obtain ⟨hlm, hrs⟩ := hitems l m r s hlists
      exact ⟨by rw [hab, hlm], hrs⟩

/-- Of two texts in a code of their symbols, one is how the other begins. -/
theorem flatMap_comparable (hf : PrefixCode f) {x y : List α} {r s : List β}
    (heq : x.flatMap f ++ r = y.flatMap f ++ s) : (∃ t, x = y ++ t) ∨ ∃ t, y = x ++ t := by
  induction x generalizing y with
  | nil => exact .inr ⟨y, rfl⟩
  | cons a x ih =>
    cases y with
    | nil => exact .inl ⟨a :: x, rfl⟩
    | cons b y =>
      simp only [List.flatMap_cons, List.append_assoc] at heq
      obtain ⟨hab, hmore⟩ := hf a b _ _ heq
      obtain ⟨t, ht⟩ | ⟨t, ht⟩ := ih hmore
      · exact .inl ⟨t, by rw [hab, ht]; rfl⟩
      · exact .inr ⟨t, by rw [hab, ht]; rfl⟩

/-- **A code in symbols that are themselves encoded.** -/
theorem flatMap {e : δ → List α} (he : PrefixCode e) (hf : PrefixCode f) :
    PrefixCode fun d => (e d).flatMap f := by
  intro a b r s heq
  have hab : a = b := by
    obtain ⟨t, ht⟩ | ⟨t, ht⟩ := flatMap_comparable hf heq
    · exact (he a b [] t (by rw [List.append_nil, ht])).1
    · exact (he b a [] t (by rw [List.append_nil, ht])).1.symm
  subst hab
  exact ⟨rfl, List.append_cancel_left heq⟩

end PrefixCode
