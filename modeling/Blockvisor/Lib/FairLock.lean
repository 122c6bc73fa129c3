/-
Fair read-write locks. A lock is the queue of those who have asked for it and
not given it back, in the order in which they asked: an entry has the lock
once nobody ahead of it asks for something it cannot be shared with. So a
reader behind a waiting writer waits, and so does a writer behind a reader.

`no_cycle` is the rule for locks that are taken in the order of a rank: nobody
waits for himself through any number of others. It admits waits of another
kind, as of a sender for space in a channel, that end at somebody who waits
for no lock, or start at somebody who has none.
-/
import Mathlib.Data.Prod.Lex
import Mathlib.Logic.Relation

namespace FairLock

inductive Mode where
  | read
  | write
deriving DecidableEq

def Mode.shares : Mode → Mode → Bool
  | .read, .read => true
  | _, _ => false

abbrev Queue (P : Type) := List (P × Mode)

section Queue

variable {P : Type} [DecidableEq P]

def queued (q : Queue P) (p : P) : Bool := q.any (·.1 = p)

/-- Those who have asked before `p`, or all when `p` has not. -/
def ahead (q : Queue P) (p : P) : Queue P := q.takeWhile (·.1 ≠ p)

/-- `p`, who asks for mode `m`, has the lock, or gets it at once. -/
def admits (q : Queue P) (p : P) (m : Mode) : Bool := (ahead q p).all fun r => m.shares r.2

def request (q : Queue P) (p : P) (m : Mode) : Queue P := q ++ [(p, m)]

def release (q : Queue P) (p : P) : Queue P := q.filter (·.1 ≠ p)

@[simp] theorem queued_nil (p : P) : queued [] p = false := rfl

theorem queued_iff (q : Queue P) (p : P) : queued q p = true ↔ ∃ m, (p, m) ∈ q := by
  simp [queued]

@[simp] theorem queued_request (q : Queue P) (p r : P) (m : Mode) :
    queued (request q p m) r = (queued q r || decide (p = r)) := by
  simp [queued, request]

@[simp] theorem queued_release (q : Queue P) (p r : P) : queued (release q p) r = (queued q r && decide (r ≠ p)) := by
  rw [Bool.eq_iff_iff]
  simp only [queued_iff, release, List.mem_filter, Bool.and_eq_true, decide_eq_true_eq]
  constructor
  · intro ⟨m, hm, hne⟩
    exact ⟨⟨m, hm⟩, hne⟩
  · intro ⟨⟨m, hm⟩, hne⟩
    exact ⟨m, hm, hne⟩

theorem queued_of_ahead {q : Queue P} {p r : P} {m : Mode} (h : (r, m) ∈ ahead q p) : queued q r = true :=
  (queued_iff q r).mpr ⟨m, (List.takeWhile_sublist _).subset h⟩

theorem ahead_request {q : Queue P} {r : P} (h : queued q r = true) (p : P) (m : Mode) :
    ahead (request q p m) r = ahead q r := by
  induction q with
  | nil => simp at h
  | cons x q ih =>
    simp only [request, ahead, List.cons_append, List.takeWhile_cons]
    by_cases hx : x.1 = r
    · simp [hx]
    · have hq : queued q r = true := by simpa [queued, hx] using h
      simp only [hx, ne_eq, not_false_eq_true, decide_true, if_true]
      exact congrArg (x :: ·) (ih hq)

/-- Who has just asked has everybody ahead. -/
theorem ahead_request_self {q : Queue P} {p : P} (h : queued q p = false) (m : Mode) : ahead (request q p m) p = q := by
  induction q with
  | nil => simp [request, ahead]
  | cons x q ih =>
    have hx : x.1 ≠ p ∧ queued q p = false := by simpa [queued] using h
    simp only [request, ahead, List.cons_append, List.takeWhile_cons, hx.1, ne_eq, not_false_eq_true, decide_true, if_true]
    exact congrArg (x :: ·) (ih hx.2)

theorem ahead_release {p r : P} (hne : r ≠ p) (q : Queue P) : ahead (release q p) r = release (ahead q r) p := by
  induction q with
  | nil => rfl
  | cons x q ih =>
    simp only [ahead, release] at ih ⊢
    by_cases hp : x.1 = p
    · have hr : x.1 ≠ r := fun h => hne (h.symm.trans hp)
      simpa [hp, Ne.symm hne, hr] using ih
    · by_cases hr : x.1 = r
      · simp [hr, hne]
      · simpa [hp, hr] using ih

theorem ahead_length_le (q : Queue P) (p : P) : (ahead q p).length ≤ q.length :=
  (List.takeWhile_sublist _).length_le

/-- Who is ahead has fewer ahead. -/
theorem ahead_lt {q : Queue P} {p r : P} {m : Mode} (h : (r, m) ∈ ahead q p) : (ahead q r).length < (ahead q p).length := by
  induction q with
  | nil => simp [ahead] at h
  | cons x q ih =>
    by_cases hp : x.1 = p
    · simp [ahead, hp] at h
    · have hcons : ahead (x :: q) p = x :: ahead q p := by simp [ahead, hp]
      rw [hcons] at h ⊢
      by_cases hr : x.1 = r
      · have hnone : ahead (x :: q) r = [] := by simp [ahead, hr]
        simp [hnone]
      · have hrest : ahead (x :: q) r = x :: ahead q r := by simp [ahead, hr]
        rw [hrest]
        obtain heq | hmem := List.mem_cons.mp h
        · exact absurd (congrArg Prod.fst heq).symm hr
        · have := ih hmem
          simpa using this

end Queue

/-! ## Waits -/

section Waits

variable {L P : Type} [DecidableEq P] (queue : L → Queue P) (wants : P → Option (L × Mode)) (rank : L → Nat)

/-- `r` is ahead of `p` for a lock that `p` waits for, and not to be shared with. -/
def Waits (p r : P) : Prop :=
  ∃ l m m', wants p = some (l, m) ∧ (r, m') ∈ ahead (queue l) p ∧ m.shares m' = false

/-- A lock that is waited for ranks after all others that are held or asked for by the same party. -/
def Ordered : Prop := ∀ p l m l', wants p = some (l, m) → queued (queue l') p = true → l' ≠ l → rank l' < rank l

variable {queue wants rank} {extra : P → P → Prop}

theorem Waits.wants_ne {p r : P} (h : Waits queue wants p r) : wants p ≠ none := by
  obtain ⟨l, m, m', hw, -⟩ := h
  simp [hw]

theorem not_waits_of_admits {p r : P} {l : L} {m : Mode} (hw : wants p = some (l, m)) (h : admits (queue l) p m = true) :
    ¬ Waits queue wants p r := by
  intro ⟨l', m', m'', hw', hmem, hno⟩
  rw [hw] at hw'
  cases hw'
  have := List.all_eq_true.mp h _ hmem
  simp [hno] at this

/-- A party that waits for something else stands below all others when it has no lock. -/
private def tier (locked : Prop) [Decidable locked] : Nat := if locked then 2 else 0

open Classical in
/-- Who waits for a lock stands where the lock ranks, those closer to it higher. -/
private noncomputable def level (queue : L → Queue P) (wants : P → Option (L × Mode)) (rank : L → Nat) (extra : P → P → Prop)
    (p : P) : Nat ×ₗ Nat ×ₗ Nat :=
  if ∃ r, extra p r then toLex (tier (∃ l, queued (queue l) p = true), toLex (0, 0))
  else match wants p with
    | some (l, _) =>
      if ∃ r, Waits queue wants p r then toLex (1, toLex (rank l, (queue l).length - (ahead (queue l) p).length))
      else toLex (3, toLex (0, 0))
    | none => toLex (3, toLex (0, 0))

private theorem tier_lt {a b : Nat} (h : a < b) (x y : Nat ×ₗ Nat) : toLex (a, x) < toLex (b, y) :=
  Prod.Lex.toLex_lt_toLex.mpr (.inl h)

private theorem level_of_waits {p r : P} {l : L} {m : Mode} (hw : Waits queue wants p r) (hwants : wants p = some (l, m))
    (hno : ¬ ∃ x, extra p x) :
    level queue wants rank extra p = toLex (1, toLex (rank l, (queue l).length - (ahead (queue l) p).length)) := by
  simp only [level, hno, hwants, if_false]
  rw [if_pos ⟨r, hw⟩]

private theorem level_free {p : P} (hno : ¬ ∃ x, extra p x) (hw : ¬ ∃ x, Waits queue wants p x) :
    level queue wants rank extra p = toLex (3, toLex (0, 0)) := by
  simp only [level, hno, hw, if_false]
  split <;> rfl

private theorem level_extra {p r : P} (h : extra p r) :
    level queue wants rank extra p = toLex (open Classical in tier (∃ l, queued (queue l) p = true), toLex (0, 0)) := by
  simp only [level]
  rw [if_pos ⟨r, h⟩]

private theorem level_lt_of_waits (hord : Ordered queue wants rank) {p r : P} (hno : ¬ ∃ x, extra p x)
    (h : Waits queue wants p r) : level queue wants rank extra p < level queue wants rank extra r := by
  obtain ⟨l, m, m', hwants, hmem, -⟩ := id h
  have hlocked : ∃ l, queued (queue l) r = true := ⟨l, queued_of_ahead hmem⟩
  rw [level_of_waits h hwants hno]
  by_cases he : ∃ x, extra r x
  · obtain ⟨x, hx⟩ := he
    rw [level_extra hx, tier, if_pos hlocked]
    exact tier_lt (by decide) ..
  · by_cases hr : ∃ x, Waits queue wants r x
    · obtain ⟨x, hx⟩ := hr
      obtain ⟨l', m'', -, hwants', -⟩ := id hx
      rw [level_of_waits hx hwants' he, Prod.Lex.toLex_lt_toLex]
      refine .inr ⟨rfl, Prod.Lex.toLex_lt_toLex.mpr ?_⟩
      by_cases hl : l = l'
      · subst hl
        have hlt := ahead_lt hmem
        have hle := ahead_length_le (queue l) p
        refine .inr ⟨rfl, ?_⟩
        show (queue l).length - _ < (queue l).length - _
        omega
      · exact .inl (hord r l' m'' l hwants' (queued_of_ahead hmem) hl)
    · rw [level_free he hr]
      exact tier_lt (by decide) ..

/-- **Locks taken in the order of their ranks are never waited for in a circle.** -/
theorem no_cycle (hord : Ordered queue wants rank)
    (hextra : ∀ p r, extra p r → wants p = none ∧ (∀ x, ¬ extra r x) ∧
      ((∃ l, queued (queue l) p = true) → ∀ x, ¬ Waits queue wants r x)) :
    ¬ ∃ p, Relation.TransGen (fun p r => Waits queue wants p r ∨ extra p r) p p := by
  have hstep : ∀ p r, Waits queue wants p r ∨ extra p r →
      level queue wants rank extra p < level queue wants rank extra r := by
    intro p r h
    by_cases he : extra p r
    · obtain ⟨-, hlast, hfree⟩ := hextra p r he
      have hno : ¬ ∃ x, extra r x := fun ⟨x, hx⟩ => hlast x hx
      rw [level_extra he, tier]
      by_cases hr : ∃ x, Waits queue wants r x
      · obtain ⟨x, hx⟩ := hr
        obtain ⟨l, m, -, hwants, -⟩ := id hx
        rw [if_neg fun hlocked => hfree hlocked x hx, level_of_waits hx hwants hno]
        exact tier_lt (by decide) ..
      · rw [level_free hno hr]
        split <;> exact tier_lt (by decide) ..
    · have hw := h.resolve_right he
      exact level_lt_of_waits hord (fun ⟨x, hx⟩ => hw.wants_ne (hextra p x hx).1) hw
  intro ⟨p, hp⟩
  have hlt := Relation.TransGen.lift (p := (· < ·)) (level queue wants rank extra) hstep p p hp
  rw [Relation.transGen_eq_self] at hlt
  exact lt_irrefl _ hlt

end Waits

end FairLock
