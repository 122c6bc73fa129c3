/-
Files that survive a crash. A `Doc` is a file written whole, a `LogFile` a
file of records that is only appended to, one record a line. A write may be
cut: it fails, or the process is killed, after leaving any part of it behind
(`DocCut`, `LogCut`). A cut document cannot be loaded. A cut line is either
no record or, when only its end of line is missing, the record itself, and
whatever is appended after it ends up on the same line and spoils it.

`LogFile.load_append` is what the jobs that keep such logs rely on: an append,
however cut, adds at most its own record to what is loaded.
-/

/-- How a call ends early: with an error, or with the process. -/
inductive Exit (ε : Type) where
  | error (e : ε)
  | killed
  deriving DecidableEq, Repr

theorem Except.of_bind_ok {ε α β : Type} {x : Except ε α} {f : α → Except ε β} {b : β} (h : x >>= f = .ok b) :
    ∃ a, x = .ok a ∧ f a = .ok b := by
  cases x with
  | error e => cases h
  | ok a => exact ⟨a, rfl, h⟩

theorem Except.of_map_ok {ε α β : Type} {x : Except ε α} {f : α → β} {b : β} (h : x.map f = .ok b) :
    ∃ a, x = .ok a ∧ b = f a := by
  cases x with
  | error e => cases h
  | ok a =>
    cases h
    exact ⟨a, rfl, rfl⟩

/-- What the function of a `mapM` makes of one element holds of all it makes. -/
theorem Except.forall_of_mapM {ε α β : Type} {f : α → Except ε β} {P : β → Prop} (hf : ∀ a b, f a = .ok b → P b) {as : List α}
    {bs : List β} (h : as.mapM f = .ok bs) : ∀ b ∈ bs, P b := by
  induction as generalizing bs with
  | nil =>
    cases h
    simp
  | cons a as ih =>
    rw [List.mapM_cons] at h
    obtain ⟨b, hb, h⟩ := of_bind_ok h
    obtain ⟨rest, hrest, h⟩ := of_bind_ok h
    cases h
    intro c hc
    rcases List.mem_cons.mp hc with rfl | hc
    · exact hf a c hb
    · exact ih hrest c hc

/-- A loop that returns went well in each of its rounds. -/
theorem Except.forall_of_forM {ε α : Type} {f : α → Except ε Unit} {as : List α} (h : as.forM f = .ok ()) :
    ∀ a ∈ as, f a = .ok () := by
  induction as with
  | nil => exact fun a ha => by cases ha
  | cons a as ih =>
    obtain ⟨u, ha, has⟩ := of_bind_ok (x := f a) (f := fun _ => as.forM f) h
    intro b hb
    cases List.mem_cons.mp hb with
    | inl hb => rw [hb, ha]
    | inr hb => exact ih has b hb

/-- What becomes of a write: all of it, or a cut with an error or with the process. -/
inductive Fault (ω : Type) where
  | none
  | error (cut : ω)
  | killed (cut : ω)
  deriving DecidableEq, Repr

namespace Fault

variable {ω : Type}

/-- What is left of the write, `all` being the whole of it. -/
def cutOr (all : ω) : Fault ω → ω
  | .none => all
  | .error cut => cut
  | .killed cut => cut

def result (msg : String) : Fault ω → Except (Exit String) Unit
  | .none => .ok ()
  | .error _ => .error (.error msg)
  | .killed _ => .error .killed

@[simp] theorem result_ok {msg : String} {f : Fault ω} : f.result msg = .ok () ↔ f = .none := by
  cases f <;> simp [result]

end Fault

/-! ## Documents -/

inductive Doc (α : Type) where
  | missing
  | torn
  | whole (a : α)
  deriving DecidableEq, Repr

/-- Where a write of a whole file is cut: before it is truncated, after that, or in its text. -/
inductive DocCut where
  | untouched
  | truncated
  | fragment
  | whole
  deriving DecidableEq, Repr

/-- The write comes out whole or not at all. -/
def DocCut.clean : DocCut → Bool
  | .untouched => true
  | .whole => true
  | _ => false

def Fault.clean (fault : Fault DocCut) : Bool := (fault.cutOr .whole).clean

theorem DocCut.of_clean {cut : DocCut} (h : cut.clean = true) : cut = .untouched ∨ cut = .whole := by
  cases cut with
  | untouched => exact .inl rfl
  | truncated => cases h
  | fragment => cases h
  | whole => exact .inr rfl

namespace Doc

variable {α : Type}

def write (d : Doc α) (a : α) : DocCut → Doc α
  | .untouched => d
  | .truncated => .torn
  | .fragment => .torn
  | .whole => .whole a

/-- The document saved, and how the call ended. -/
def save (d : Doc α) (a : α) (f : Fault DocCut) (msg : String) : Doc α × Except (Exit String) Unit :=
  (d.write a (f.cutOr .whole), f.result msg)

def load : Doc α → Option α
  | .whole a => some a
  | _ => none

@[simp] theorem load_eq_some {d : Doc α} {a : α} : d.load = some a ↔ d = .whole a := by
  cases d <;> simp [load]

theorem write_missing {d : Doc α} {a : α} {c : DocCut} (h : d.write a c = .missing) : d = .missing := by
  cases c <;> simp_all [write]

theorem write_whole {d : Doc α} {a b : α} {c : DocCut} (h : d.write a c = .whole b) : d = .whole b ∨ a = b := by
  cases c with
  | untouched => exact .inl h
  | truncated => cases h
  | fragment => cases h
  | whole => exact .inr (Doc.whole.inj h)

end Doc

/-! ## Logs -/

/-- What follows the last end of line: nothing, a record, or text that is no record. -/
inductive Tail (α : Type) where
  | none
  | fragment
  | record (a : α)
  deriving DecidableEq, Repr

/-- A log: its lines, each a record or text that is none, and its tail. -/
structure LogFile (α : Type) where
  lines : List (Option α)
  tail : Tail α
  deriving DecidableEq, Repr

/-- Where an append is cut: before it, in the record, before its end of line, or not at all. -/
inductive LogCut where
  | nothing
  | fragment
  | unterminated
  | complete
  deriving DecidableEq, Repr

/-- The record is on disk, with or without its end of line. -/
def LogCut.recorded : LogCut → Bool
  | .nothing => false
  | .fragment => false
  | .unterminated => true
  | .complete => true

namespace LogFile

variable {α : Type}

/-- A missing log is loaded as an empty one, and created by the first append. -/
def empty : LogFile α := ⟨[], .none⟩

/-- A record appended. -/
def append (l : LogFile α) (a : α) : LogCut → LogFile α
  | .nothing => l
  | .fragment => { l with tail := .fragment }
  | .unterminated => { l with tail := match l.tail with | .none => .record a | _ => .fragment }
  | .complete => ⟨l.lines ++ [match l.tail with | .none => some a | _ => Option.none], .none⟩

/-- The record appended, and how the call ended. -/
def save (l : LogFile α) (a : α) (f : Fault LogCut) (msg : String) : LogFile α × Except (Exit String) Unit :=
  (l.append a (f.cutOr .complete), f.result msg)

/-- The log overwritten with text that is no record. -/
def overwrite (l : LogFile α) : DocCut → LogFile α
  | .untouched => l
  | .truncated => empty
  | .fragment => ⟨[], .fragment⟩
  | .whole => ⟨[], .fragment⟩

/-- The records of a log; a line that is none makes the whole log unreadable. -/
def load (l : LogFile α) : Option (List α) :=
  match l.lines.mapM id, l.tail with
  | some records, .none => some records
  | some records, .record a => some (records ++ [a])
  | _, _ => none

@[simp] theorem load_empty : (empty : LogFile α).load = some [] := rfl

theorem mapM_id_append (xs ys : List (Option α)) :
    (xs ++ ys).mapM id = (xs.mapM id).bind fun as => (ys.mapM id).map fun bs => as ++ bs := by
  induction xs with
  | nil => cases h : ys.mapM id <;> simp [h]
  | cons x xs ih =>
    cases x with
    | none => simp [List.mapM_cons]
    | some x =>
      cases hxs : xs.mapM id <;> cases hys : ys.mapM id <;> simp [List.mapM_cons, ih, hxs, hys]

/-- A whole append to a log whose last line is ended adds its record. -/
theorem load_append_complete {l : LogFile α} {a : α} {as : List α} (h : l.load = some as)
    (htail : l.tail = .none) : (l.append a .complete).load = some (as ++ [a]) := by
  unfold load at h ⊢
  simp only [append, htail, mapM_id_append] at h ⊢
  cases hl : l.lines.mapM id with
  | none => simp [hl] at h
  | some records =>
    simp only [hl, Option.some.injEq] at h
    subst h
    simp

/-- What is loaded after an append that spoils nothing: the record too, if it is on disk. -/
theorem load_append_eq {l : LogFile α} {a : α} {cut : LogCut} {bs : List α} (h : (l.append a cut).load = some bs) :
    ∃ as, l.load = some as ∧ bs = if cut.recorded then as ++ [a] else as := by
  cases cut with
  | nothing => exact ⟨bs, h, rfl⟩
  | fragment =>
    unfold load at h
    simp only [append] at h
    cases hl : l.lines.mapM id <;> simp [hl] at h
  | unterminated =>
    unfold load at h ⊢
    simp only [append] at h
    cases ht : l.tail <;> cases hl : l.lines.mapM id <;> simp [ht, hl] at h
    subst h
    exact ⟨_, rfl, rfl⟩
  | complete =>
    unfold load at h ⊢
    simp only [append, mapM_id_append] at h
    cases ht : l.tail <;> cases hl : l.lines.mapM id <;> simp [ht, hl] at h
    subst h
    exact ⟨_, rfl, rfl⟩

/-- **An append adds at most its own record** to what is loaded, however it is cut. -/
theorem load_append {l : LogFile α} {a : α} {cut : LogCut} {bs : List α} (h : (l.append a cut).load = some bs) :
    ∃ as, l.load = some as ∧ (bs = as ∨ bs = as ++ [a] ∧ cut.recorded) := by
  obtain ⟨as, has, rfl⟩ := load_append_eq h
  refine ⟨as, has, ?_⟩
  cases hcut : cut.recorded with
  | false => exact .inl rfl
  | true => exact .inr ⟨rfl, rfl⟩

/-- What is overwritten loads nothing, unless it was not touched. -/
theorem load_overwrite {l : LogFile α} {cut : DocCut} {bs : List α} (h : (l.overwrite cut).load = some bs) :
    l.load = some bs ∨ bs = [] := by
  cases cut with
  | untouched => exact .inl h
  | truncated => exact .inr (by simpa [overwrite] using h.symm)
  | fragment => simp [overwrite, load] at h
  | whole => simp [overwrite, load] at h

end LogFile
