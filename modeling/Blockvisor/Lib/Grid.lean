/-
Grids of numbers: rows of cells, read and written by two indexes. A write to a
cell of the grid changes this cell alone (`get_write`). A loop over indexes keeps
what each of its turns keeps (`range_induction`, `range'_induction`).
-/
import Mathlib.Data.List.Basic

abbrev Grid := List (List Nat)

namespace Grid

def new (rows cols : Nat) : Grid := List.replicate rows (List.replicate cols 0)

def get (g : Grid) (i j : Nat) : Nat := (g.getD i []).getD j 0

def write (g : Grid) (i j v : Nat) : Grid := g.set i ((g.getD i []).set j v)

/-- So many rows of so many cells. -/
def Shape (rows cols : Nat) (g : Grid) : Prop := g.length = rows ∧ ∀ row ∈ g, row.length = cols

variable {g : Grid} {rows cols i j : Nat}

theorem shape_new (rows cols : Nat) : Shape rows cols (new rows cols) := by
  refine ⟨List.length_replicate, fun row hrow => ?_⟩
  rw [List.eq_of_mem_replicate hrow, List.length_replicate]

theorem Shape.row (h : Shape rows cols g) (hi : i < rows) : (g.getD i []).length = cols := by
  have hlength : i < g.length := by rw [h.1]; exact hi
  rw [List.getD_eq_getElem?_getD, List.getElem?_eq_getElem hlength, Option.getD_some]
  exact h.2 _ (List.getElem_mem hlength)

theorem Shape.write (h : Shape rows cols g) (hi : i < rows) (j v : Nat) : Shape rows cols (g.write i j v) := by
  refine ⟨by rw [Grid.write, List.length_set]; exact h.1, fun row hrow => ?_⟩
  cases List.mem_or_eq_of_mem_set hrow with
  | inl hold => exact h.2 row hold
  | inr hnew => rw [hnew, List.length_set, h.row hi]

theorem getD_set_self {β : Type} {l : List β} {k : Nat} (hk : k < l.length) (x d : β) : (l.set k x).getD k d = x := by
  rw [List.getD_eq_getElem?_getD, List.getElem?_set_self hk, Option.getD_some]

theorem getD_set_ne {β : Type} {l : List β} {k k' : Nat} (h : k' ≠ k) (x d : β) : (l.set k x).getD k' d = l.getD k' d := by
  rw [List.getD_eq_getElem?_getD, List.getElem?_set_ne (Ne.symm h), ← List.getD_eq_getElem?_getD]

theorem get_write (h : Shape rows cols g) (hi : i < rows) (hj : j < cols) (v i' j' : Nat) :
    (g.write i j v).get i' j' = if i' = i ∧ j' = j then v else g.get i' j' := by
  have hrow : i < g.length := by rw [h.1]; exact hi
  have hcell : j < (g.getD i []).length := by rw [h.row hi]; exact hj
  unfold write get
  by_cases hii : i' = i
  · subst hii
    rw [getD_set_self hrow]
    by_cases hjj : j' = j
    · subst hjj
      rw [if_pos ⟨rfl, rfl⟩, getD_set_self hcell]
    · rw [if_neg fun hboth => hjj hboth.2, getD_set_ne hjj]
  · rw [if_neg fun hboth => hii hboth.1, getD_set_ne hii]

/-- A loop over the indexes from 0 on. -/
theorem range_induction {σ : Type} {f : σ → Nat → σ} {P : Nat → σ → Prop} {s : σ} (hstart : P 0 s) :
    ∀ n : Nat, (∀ k, k < n → ∀ s, P k s → P (k + 1) (f s k)) → P n ((List.range n).foldl f s)
  | 0, _ => hstart
  | n + 1, hstep => by
    rw [List.range_succ, List.foldl_append, List.foldl_cons, List.foldl_nil]
    exact hstep n (Nat.lt_succ_self n) _ (range_induction hstart n fun k hk => hstep k (Nat.lt_succ_of_lt hk))

/-- A loop over the indexes from 1 on. -/
theorem range'_induction {σ : Type} {f : σ → Nat → σ} {P : Nat → σ → Prop} {s : σ} (hstart : P 0 s) :
    ∀ n : Nat, (∀ k, k < n → ∀ s, P k s → P (k + 1) (f s (k + 1))) → P n ((List.range' 1 n).foldl f s)
  | 0, _ => hstart
  | n + 1, hstep => by
    rw [List.range'_1_concat, List.foldl_append, List.foldl_cons, List.foldl_nil, Nat.add_comm 1 n]
    exact hstep n (Nat.lt_succ_self n) _ (range'_induction hstart n fun k hk => hstep k (Nat.lt_succ_of_lt hk))

end Grid
