/-
What is left of writes that come in any order. The log of a list of writes is
the bytes it writes, in order; the last byte logged at an address is what is
left there (`Store.byteAt_writes_log`), whatever the pieces they came in.

Several parties write, each in its own order, and an interleaving is labelled
with the party of each write. Parties that never write different bytes to one
address leave the same bytes in every interleaving (`Store.lastAt_interleaves`).

Writes may stop halfway and be taken up again: `Store.Settles` says that what
is still to be written leaves given extents with given bytes, and is kept by
each write of the list and by writes elsewhere.
-/
import Blockvisor.Lib.Extent

/-! ## Interleavings -/

/-- `order` runs through every party's list, each in its own order. -/
def Interleaves {α : Type} (parts : Nat → List α) (order : List (Nat × α)) : Prop :=
  ∀ k, (order.filter (·.1 = k)).map (·.2) = parts k

/-- The parties one after the other. -/
def inTurn {α : Type} (parts : Nat → List α) (turns : List Nat) : List (Nat × α) :=
  turns.flatMap fun k => (parts k).map (k, ·)

theorem filter_turn {α : Type} (l : List α) (j k : Nat) :
    (((l.map fun a => (j, a)).filter (·.1 = k)).map (·.2)) = if j = k then l else [] := by
  split
  · rename_i h
    simp [h, Function.comp_def, List.filter_map]
  · rename_i h
    simp [h, Function.comp_def, List.filter_map]

theorem inTurn_interleaves {α : Type} {parts : Nat → List α} {turns : List Nat} (hnodup : turns.Nodup)
    (hall : ∀ k, parts k ≠ [] → k ∈ turns) : Interleaves parts (inTurn parts turns) := by
  intro k
  have hturns : ∀ ts : List Nat, ts.Nodup →
      ((inTurn parts ts).filter (·.1 = k)).map (·.2) = if k ∈ ts then parts k else [] := by
    intro ts hts
    induction ts with
    | nil => rfl
    | cons j ts ih =>
      obtain ⟨hj, hts⟩ := List.nodup_cons.mp hts
      have hcons : inTurn parts (j :: ts) = (parts j).map (j, ·) ++ inTurn parts ts := rfl
      rw [hcons, List.filter_append, List.map_append, filter_turn, ih hts]
      by_cases hjk : j = k
      · subst hjk
        simp [hj]
      · simp [hjk, Ne.symm hjk]
  rw [hturns turns hnodup]
  split
  · rfl
  · rename_i h
    by_contra hne
    exact h (hall k fun hnil => hne hnil.symm)

theorem map_inTurn_last {α : Type} (parts : Nat → List α) (turns : List Nat) (k : Nat) :
    (inTurn parts (turns ++ [k])).map (·.2) = (inTurn parts turns).map (·.2) ++ parts k := by
  simp [inTurn, Function.comp_def]

theorem Interleaves.filterMap {α β : Type} {parts : Nat → List α} {order : List (Nat × α)} (h : Interleaves parts order)
    (f : α → Option β) : Interleaves (fun k => (parts k).filterMap f) (order.filterMap fun a => (f a.2).map (a.1, ·)) := by
  intro k
  show _ = (parts k).filterMap f
  rw [← h k]
  clear h
  induction order with
  | nil => rfl
  | cons a order ih =>
    by_cases hk : a.1 = k <;> cases hf : f a.2 <;> simp [hk, hf, ih]

theorem Interleaves.map {α β : Type} {parts : Nat → List α} {order : List (Nat × α)} (h : Interleaves parts order)
    (f : α → β) : Interleaves (fun k => (parts k).map f) (order.map fun a => (a.1, f a.2)) := by
  have hmap := h.filterMap fun a => some (f a)
  simpa using hmap

theorem Interleaves.mem {α : Type} {parts : Nat → List α} {order : List (Nat × α)} (h : Interleaves parts order) (a : α) :
    a ∈ order.map (·.2) ↔ ∃ k, a ∈ parts k := by
  constructor
  · intro ha
    obtain ⟨b, hb, rfl⟩ := List.mem_map.mp ha
    refine ⟨b.1, ?_⟩
    rw [← h b.1]
    exact List.mem_map.mpr ⟨b, List.mem_filter.mpr ⟨hb, by simp⟩, rfl⟩
  · rintro ⟨k, ha⟩
    rw [← h k] at ha
    obtain ⟨b, hb, rfl⟩ := List.mem_map.mp ha
    exact List.mem_map_of_mem (List.mem_filter.mp hb).1

/-! ## The log -/

namespace Store

open Extent

variable {κ : Type} [DecidableEq κ]

/-- The bytes that are written, in order. -/
def log (ws : List (Extent κ × Bytes)) : List ((κ × Nat) × UInt8) := ws.flatMap fun w => w.1.cells.zip w.2

/-- The last byte logged at an address. -/
def lastAt : List ((κ × Nat) × UInt8) → κ × Nat → Option UInt8
  | [], _ => none
  | (c, b) :: l, x => (lastAt l x).or (if c = x then some b else none)

@[simp] theorem lastAt_append (l m : List ((κ × Nat) × UInt8)) (x : κ × Nat) :
    lastAt (l ++ m) x = (lastAt m x).or (lastAt l x) := by
  induction l with
  | nil => simp [lastAt]
  | cons c l ih => simp [lastAt, ih, Option.or_assoc]

omit [DecidableEq κ] in
@[simp] theorem log_cons (w : Extent κ × Bytes) (ws : List (Extent κ × Bytes)) :
    log (w :: ws) = w.1.cells.zip w.2 ++ log ws := rfl

omit [DecidableEq κ] in
@[simp] theorem log_append (ws vs : List (Extent κ × Bytes)) : log (ws ++ vs) = log ws ++ log vs :=
  List.flatMap_append

omit [DecidableEq κ] in
/-- The log does not depend on the pieces the bytes come in. -/
theorem log_eq_zip {ws : List (Extent κ × Bytes)} (hsize : ∀ w ∈ ws, w.2.length = w.1.size) :
    log ws = (allCells (ws.map (·.1))).zip (ws.flatMap (·.2)) := by
  induction ws with
  | nil => rfl
  | cons w ws ih =>
    have hw := hsize w (by simp)
    rw [log_cons, ih fun v hv => hsize v (by simp [hv]), List.map_cons, allCells_cons, List.flatMap_cons,
      List.zip_append (by simp [hw])]

/-- What one write logs. -/
theorem lastAt_write (q : κ) (data : Bytes) : ∀ (pos : Nat) (p : κ) (i : Nat),
    lastAt ((⟨q, pos, data.length⟩ : Extent κ).cells.zip data) (p, i) =
      if p = q ∧ pos ≤ i ∧ i < pos + data.length then data[i - pos]? else none := by
  induction data with
  | nil => intro pos p i; simp [lastAt]
  | cons b data ih =>
    intro pos p i
    have hsplit := cells_split q pos 1 data.length
    have hone : (⟨q, pos, 1⟩ : Extent κ).cells = [(q, pos)] := rfl
    rw [Nat.add_comm, hone] at hsplit
    rw [List.length_cons, hsplit, List.cons_append, List.nil_append, List.zip_cons_cons, lastAt, ih]
    by_cases hp : p = q
    · subst hp
      rcases Nat.lt_trichotomy i pos with hi | rfl | hi
      · simp [show ¬ pos ≤ i by omega, show ¬ pos + 1 ≤ i by omega, show pos ≠ i by omega]
      · simp
      · obtain ⟨j, rfl⟩ := Nat.exists_eq_add_of_lt hi
        have hidx : pos + j + 1 - pos = j + 1 := by omega
        have hidx' : pos + j + 1 - (pos + 1) = j := by omega
        by_cases hj : j < data.length
        · simp [hidx, hidx', show pos + 1 ≤ pos + j + 1 by omega, show pos ≤ pos + j + 1 by omega,
            show pos + j + 1 < pos + 1 + data.length by omega, show pos + j + 1 < pos + (data.length + 1) by omega, hj]
        · simp [show ¬ pos + j + 1 < pos + 1 + data.length by omega,
            show ¬ pos + j + 1 < pos + (data.length + 1) by omega]
          omega
    · simp [hp, Ne.symm hp]

/-- A byte after the address is logged. -/
def LogsAfter (l : List ((κ × Nat) × UInt8)) (p : κ) (i : Nat) : Prop := ∃ j, i < j ∧ (lastAt l (p, j)).isSome

theorem logsAfter_append (l m : List ((κ × Nat) × UInt8)) (p : κ) (i : Nat) :
    LogsAfter (l ++ m) p i ↔ LogsAfter l p i ∨ LogsAfter m p i := by
  unfold LogsAfter
  constructor
  · rintro ⟨j, hj, hsome⟩
    rw [lastAt_append, Option.isSome_or, Bool.or_eq_true] at hsome
    rcases hsome with h | h
    · exact .inr ⟨j, hj, h⟩
    · exact .inl ⟨j, hj, h⟩
  · rintro (⟨j, hj, h⟩ | ⟨j, hj, h⟩)
    · exact ⟨j, hj, by simp [h]⟩
    · exact ⟨j, hj, by simp [h]⟩

theorem logsAfter_write (q : κ) (pos : Nat) (data : Bytes) (p : κ) (i : Nat) :
    LogsAfter ((⟨q, pos, data.length⟩ : Extent κ).cells.zip data) p i ↔
      p = q ∧ data ≠ [] ∧ i + 1 < pos + data.length := by
  unfold LogsAfter
  constructor
  · rintro ⟨j, hj, h⟩
    rw [lastAt_write] at h
    split at h
    · rename_i hcov
      refine ⟨hcov.1, ?_, by omega⟩
      rintro rfl
      simp at h
    · cases h
  · rintro ⟨rfl, hne, hend⟩
    have hpos : 0 < data.length := List.length_pos_iff.mpr hne
    refine ⟨pos + data.length - 1, by omega, ?_⟩
    rw [lastAt_write, if_pos ⟨rfl, by omega, by omega⟩, List.getElem?_eq_getElem (by omega)]
    rfl

open scoped Classical in
/-- **The last byte logged is what is left**; a gap before a logged byte is filled with zeros. -/
theorem byteAt_writes_log {ws : List (Extent κ × Bytes)} (hsize : ∀ w ∈ ws, w.2.length = w.1.size) (p : κ) (i : Nat) :
    ∀ s : Store κ, (s.writes ws).byteAt p i =
      (lastAt (log ws) (p, i)).or (if LogsAfter (log ws) p i then some ((s.byteAt p i).getD 0) else s.byteAt p i) := by
  induction ws with
  | nil => intro s; simp [log, lastAt, LogsAfter]
  | cons w ws ih =>
    intro s
    obtain ⟨⟨q, pos, size⟩, data⟩ := w
    obtain rfl : data.length = size := hsize (⟨q, pos, size⟩, data) (by simp)
    rw [writes_cons, ih fun v hv => hsize v (by simp [hv]), log_cons, lastAt_append, lastAt_write, byteAt_write]
    cases hlast : lastAt (log ws) (p, i) with
    | some b => simp
    | none =>
      simp only [Option.none_or, logsAfter_append, logsAfter_write]
      by_cases hcov : p = q ∧ pos ≤ i ∧ i < pos + data.length
      · -- the address is written now, and not again
        have hidx : i - pos < data.length := by omega
        simp only [hcov, and_self, if_true, List.getElem?_eq_getElem hidx, Option.getD_some, ite_self, Option.some_or]
      by_cases hgap : p = q ∧ i < pos ∧ data ≠ []
      · have hpos : 0 < data.length := List.length_pos_iff.mpr hgap.2.2
        have hafter : p = q ∧ data ≠ [] ∧ i + 1 < pos + data.length := ⟨hgap.1, hgap.2.2, by omega⟩
        rw [if_neg hcov, if_pos hgap, if_neg hcov, if_pos (Or.inl hafter)]
        simp
      · -- what is written lies before the address
        have hbefore : ¬ (p = q ∧ data ≠ [] ∧ i + 1 < pos + data.length) := by
          rintro ⟨hpq, hne, hend⟩
          exact hgap ⟨hpq, by by_contra hge; exact hcov ⟨hpq, by omega, by omega⟩, hne⟩
        rw [if_neg hcov, if_neg hgap, if_neg hcov]
        simp only [hbefore, false_or, Option.none_or]

omit [DecidableEq κ] in
/-- Files that exist alike and have the same bytes are the same. -/
theorem file_ext {s t : Store κ} {p : κ} (hfile : (s p).isSome = (t p).isSome) (hbyte : ∀ i, s.byteAt p i = t.byteAt p i) :
    s p = t p := by
  unfold byteAt at hbyte
  cases hs : s p with
  | none =>
    cases ht : t p with
    | none => rfl
    | some content => simp [hs, ht] at hfile
  | some content =>
    rw [hs] at hfile
    obtain ⟨content', ht⟩ := Option.isSome_iff_exists.mp hfile.symm
    rw [ht, Option.some.injEq]
    apply List.ext_getElem?
    intro i
    simpa [hs, ht] using hbyte i

theorem writes_isSome_iff (s : Store κ) (ws : List (Extent κ × Bytes)) (p : κ) :
    (s.writes ws p).isSome ↔ (s p).isSome ∨ ∃ w ∈ ws, w.1.path = p := by
  constructor
  · intro h
    by_contra hnot
    rw [writes_other fun w hw hp => hnot (.inr ⟨w, hw, hp⟩)] at h
    exact hnot (.inl h)
  · exact writes_isSome

open scoped Classical in
/-- Writes that leave the same last bytes, and open the same files, leave the same store. -/
theorem writes_eq {ws vs : List (Extent κ × Bytes)} (hws : ∀ w ∈ ws, w.2.length = w.1.size)
    (hvs : ∀ v ∈ vs, v.2.length = v.1.size) (hlast : ∀ c, lastAt (log ws) c = lastAt (log vs) c)
    (s : Store κ) (hfiles : ∀ p, (s p).isSome ∨ ((∃ w ∈ ws, w.1.path = p) ↔ ∃ v ∈ vs, v.1.path = p)) :
    s.writes ws = s.writes vs := by
  funext p
  apply file_ext
  · rw [Bool.eq_iff_iff, writes_isSome_iff, writes_isSome_iff]
    rcases hfiles p with h | h
    · simp [h]
    · rw [h]
  · intro i
    have hafter : LogsAfter (log ws) p i ↔ LogsAfter (log vs) p i := by
      simp only [LogsAfter, hlast]
    rw [byteAt_writes_log hws, byteAt_writes_log hvs, hlast, if_congr hafter rfl rfl]

/-! ## What is still to be written -/

/-- Once `ws` are written to `s`, the extents have `src`'s bytes, and their files exist. -/
structure Settles (src s : Store κ) (es : List (Extent κ)) (ws : List (Extent κ × Bytes)) : Prop where
  files : ∀ e ∈ es, (s e.path).isSome ∨ ∃ w ∈ ws, w.1.path = e.path
  bytes : ∀ c ∈ allCells es, (lastAt (log ws) c).or (s.byteAt c.1 c.2) = src.byteAt c.1 c.2

omit [DecidableEq κ] in
theorem byteAt_of_lt {s : Store κ} {p : κ} {content : Bytes} (h : s p = some content) {i : Nat} :
    (s.byteAt p i).isSome ↔ i < content.length := by
  simp [byteAt, h]

omit [DecidableEq κ] in
theorem isSome_of_map_some {f : κ × Nat → Option UInt8} {cs : List (κ × Nat)} {data : Bytes}
    (h : data.map some = cs.map f) : ∀ c ∈ cs, (f c).isSome := by
  intro c hc
  have hmem : f c ∈ data.map some := by
    rw [h]
    exact List.mem_map_of_mem hc
  obtain ⟨b, _, hb⟩ := List.mem_map.mp hmem
  rw [← hb]
  rfl

theorem lastAt_zip_of_notMem {c : κ × Nat} : ∀ {cs : List (κ × Nat)} {data : Bytes}, c ∉ cs →
    lastAt (cs.zip data) c = none := by
  intro cs
  induction cs with
  | nil => intro data _; rfl
  | cons d cs ih =>
    intro data hc
    rw [List.mem_cons, not_or] at hc
    cases data with
    | nil => rfl
    | cons b data =>
      rw [List.zip_cons_cons, lastAt, ih hc.2, if_neg (Ne.symm hc.1)]
      rfl

/-- The bytes of a list of addresses, logged in turn, are what is logged last at each of them. -/
theorem lastAt_zip {f : κ × Nat → Option UInt8} {cs : List (κ × Nat)} : ∀ {data : Bytes}, data.map some = cs.map f →
    ∀ c ∈ cs, lastAt (cs.zip data) c = f c := by
  induction cs with
  | nil => intro data _ c hc; cases hc
  | cons d cs ih =>
    intro data h c hc
    cases data with
    | nil => cases h
    | cons b data =>
      simp only [List.map_cons, List.cons.injEq] at h
      obtain ⟨hb, hrest⟩ := h
      rw [List.zip_cons_cons, lastAt]
      by_cases hin : c ∈ cs
      · rw [ih hrest c hin, Option.or_of_isSome (isSome_of_map_some hrest c hin)]
      · obtain rfl : c = d := (List.mem_cons.mp hc).resolve_right hin
        rw [lastAt_zip_of_notMem hin, if_pos rfl, ← hb]
        rfl

/-- The bytes of the extents, in any pieces. -/
theorem settles_of_concat {src : Store κ} (s : Store κ) {es : List (Extent κ)} {ws : List (Extent κ × Bytes)}
    (hsize : ∀ w ∈ ws, w.2.length = w.1.size) (hcells : allCells (ws.map (·.1)) = allCells es)
    (hdata : (ws.flatMap (·.2)).map some = src.bytesAt (allCells es)) (hfiles : ∀ e ∈ es, ∃ w ∈ ws, w.1.path = e.path) :
    Settles src s es ws where
  files e he := .inr (hfiles e he)
  bytes c hc := by
    have hlast := lastAt_zip hdata c hc
    have hsome := isSome_of_map_some hdata c hc
    rw [log_eq_zip hsize, hcells, hlast, Option.or_of_isSome hsome]

/-- A write elsewhere may come before the rest. -/
theorem Settles.cons {src s : Store κ} {es : List (Extent κ)} {ws : List (Extent κ × Bytes)} (h : Settles src s es ws)
    (w : Extent κ × Bytes) (hw : ∀ c ∈ w.1.cells, c ∉ allCells es) (hsize : w.2.length = w.1.size) :
    Settles src s es (w :: ws) where
  files e he := (h.files e he).imp id fun ⟨v, hv, hp⟩ => ⟨v, List.mem_cons_of_mem _ hv, hp⟩
  bytes c hc := by
    obtain ⟨⟨q, pos, size⟩, data⟩ := w
    obtain rfl : data.length = size := hsize
    have hnone : ¬ (c.1 = q ∧ pos ≤ c.2 ∧ c.2 < pos + data.length) :=
      fun hcov => hw c (mem_cells.mpr hcov) hc
    rw [log_cons, lastAt_append, lastAt_write, if_neg hnone, Option.or_none]
    exact h.bytes c hc

/-- The first of the writes is done. -/
theorem Settles.write {src s : Store κ} {es : List (Extent κ)} {w : Extent κ × Bytes} {ws : List (Extent κ × Bytes)}
    (h : Settles src s es (w :: ws)) (hsize : w.2.length = w.1.size)
    (hsrc : ∀ c ∈ allCells es, (src.byteAt c.1 c.2).isSome) : Settles src (s.write w.1.path w.1.pos w.2) es ws where
  files e he := by
    rcases h.files e he with hsome | ⟨v, hv, hp⟩
    · exact .inl (write_isSome hsome)
    · rcases List.mem_cons.mp hv with rfl | hv
      · left
        rw [← hp, write_same]
        rfl
      · exact .inr ⟨v, hv, hp⟩
  bytes c hc := by
    obtain ⟨⟨q, pos, size⟩, data⟩ := w
    obtain rfl : data.length = size := hsize
    have hbyte := h.bytes c hc
    rw [log_cons, lastAt_append, lastAt_write] at hbyte
    rw [byteAt_write]
    cases hlast : lastAt (log ws) c with
    | some b =>
      rw [hlast] at hbyte
      exact hbyte
    | none =>
      rw [hlast] at hbyte
      by_cases hcov : c.1 = q ∧ pos ≤ c.2 ∧ c.2 < pos + data.length
      · have hidx : c.2 - pos < data.length := by omega
        rw [if_pos hcov, List.getElem?_eq_getElem hidx] at hbyte
        rw [if_pos hcov, List.getElem?_eq_getElem hidx]
        exact hbyte
      · -- a gap keeps the byte that is there
        rw [if_neg hcov, Option.none_or, Option.none_or] at hbyte
        rw [if_neg hcov, Option.none_or]
        split
        · rw [hbyte]
          obtain ⟨b, hb⟩ := Option.isSome_iff_exists.mp (hsrc c hc)
          rw [hb]
          rfl
        · exact hbyte

/-- A write that ends before an address leaves it alone. -/
theorem byteAt_write_beyond (s : Store κ) {w : Extent κ × Bytes} (hsize : w.2.length = w.1.size) {p : κ} {n i : Nat}
    (hw : ∀ c ∈ w.1.cells, c.1 = p → c.2 < n) (hi : n ≤ i) :
    (s.write w.1.path w.1.pos w.2).byteAt p i = s.byteAt p i := by
  rw [byteAt_write]
  split
  · rename_i hcov
    have := hw (p, i) (mem_cells.mpr ⟨hcov.1, hcov.2.1, by omega⟩) rfl
    omega
  · split
    · rename_i hgap
      have hpos := List.length_pos_iff.mpr hgap.2.2
      have := hw (p, w.1.pos) (mem_cells.mpr ⟨hgap.1, Nat.le_refl _, by show w.1.pos < _; omega⟩) rfl
      omega
    · rfl

/-! ## Writes of several parties -/

/-- Parties that never log different bytes at one address. -/
def Consistent (parts : Nat → List (Extent κ × Bytes)) : Prop :=
  ∀ j k c a b, lastAt (log (parts j)) c = some a → lastAt (log (parts k)) c = some b → j ≠ k → a = b

/-- An address that an interleaving leaves no byte at is one that no party writes. -/
theorem lastAt_order_none {c : κ × Nat} (order : List (Nat × (Extent κ × Bytes))) :
    lastAt (log (order.map (·.2))) c = none → ∀ k, lastAt (log ((order.filter (·.1 = k)).map (·.2))) c = none := by
  induction order with
  | nil => intro _ k; rfl
  | cons w order ih =>
    intro h k
    rw [List.map_cons, log_cons, lastAt_append, Option.or_eq_none_iff] at h
    by_cases hw : w.1 = k
    · rw [List.filter_cons_of_pos (by simpa using hw), List.map_cons, log_cons, lastAt_append, ih h.1 k, h.2]
      rfl
    · rw [List.filter_cons_of_neg (by simpa using hw)]
      exact ih h.1 k

/-- What an interleaving leaves is what one of the parties leaves. -/
theorem lastAt_order_some {c : κ × Nat} (order : List (Nat × (Extent κ × Bytes))) : ∀ {b},
    lastAt (log (order.map (·.2))) c = some b → ∃ k, lastAt (log ((order.filter (·.1 = k)).map (·.2))) c = some b := by
  induction order with
  | nil => intro b h; cases h
  | cons w order ih =>
    intro b h
    rw [List.map_cons, log_cons, lastAt_append] at h
    cases hrest : lastAt (log (order.map (·.2))) c with
    | some b' =>
      obtain ⟨k, hk⟩ := ih hrest
      rw [hrest, Option.some_or, Option.some.injEq] at h
      subst h
      refine ⟨k, ?_⟩
      by_cases hw : w.1 = k
      · rw [List.filter_cons_of_pos (by simpa using hw), List.map_cons, log_cons, lastAt_append, hk]
        rfl
      · rwa [List.filter_cons_of_neg (by simpa using hw)]
    | none =>
      rw [hrest, Option.none_or] at h
      refine ⟨w.1, ?_⟩
      rw [List.filter_cons_of_pos (by simp), List.map_cons, log_cons, lastAt_append, lastAt_order_none order hrest, h]
      rfl

variable {parts parts' : Nat → List (Extent κ × Bytes)} {order order' : List (Nat × (Extent κ × Bytes))}

theorem lastAt_interleaves_none (h : Interleaves parts order) {c : κ × Nat}
    (hnone : lastAt (log (order.map (·.2))) c = none) (k : Nat) : lastAt (log (parts k)) c = none := by
  rw [← h k]
  exact lastAt_order_none order hnone k

theorem lastAt_interleaves_some (h : Interleaves parts order) {c : κ × Nat} {b : UInt8}
    (hsome : lastAt (log (order.map (·.2))) c = some b) : ∃ k, lastAt (log (parts k)) c = some b := by
  obtain ⟨k, hk⟩ := lastAt_order_some order hsome
  rw [h k] at hk
  exact ⟨k, hk⟩

/-- **Every interleaving of consistent parties leaves the same bytes**, whatever the pieces. -/
theorem lastAt_interleaves (hsame : ∀ k c, lastAt (log (parts k)) c = lastAt (log (parts' k)) c)
    (hconsistent : Consistent parts) (h : Interleaves parts order) (h' : Interleaves parts' order') (c : κ × Nat) :
    lastAt (log (order.map (·.2))) c = lastAt (log (order'.map (·.2))) c := by
  cases hlast : lastAt (log (order.map (·.2))) c with
  | none =>
    cases hlast' : lastAt (log (order'.map (·.2))) c with
    | none => rfl
    | some b =>
      obtain ⟨k, hk⟩ := lastAt_interleaves_some h' hlast'
      rw [← hsame, lastAt_interleaves_none h hlast k] at hk
      cases hk
  | some a =>
    obtain ⟨j, hj⟩ := lastAt_interleaves_some h hlast
    cases hlast' : lastAt (log (order'.map (·.2))) c with
    | none =>
      have hnone := lastAt_interleaves_none h' hlast' j
      rw [← hsame, hj] at hnone
      cases hnone
    | some b =>
      obtain ⟨k, hk⟩ := lastAt_interleaves_some h' hlast'
      rw [← hsame] at hk
      by_cases hjk : j = k
      · subst hjk
        rw [hj] at hk
        exact hk
      · rw [hconsistent j k c a b hj hk hjk]

end Store
