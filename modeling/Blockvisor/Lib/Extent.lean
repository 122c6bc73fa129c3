/-
Extents: runs of bytes in named files, and the stores they are read from and
written to.

An extent is a file name, a position and a size. Its cells are the byte
addresses it covers, in order; a list of extents is judged by its cells, so
that one run of bytes cut in two (`cells_split`) is the run it was. A store
maps names to contents. `Store.write` is a write at a position: it creates
the file, fills a gap with zeros (as a sparse file reads) and keeps what lies
after the data, so a write in two pieces is the write of the whole
(`Store.write_append`), and `Store.byteAt_writes` says which bytes a list of
writes leaves behind.
-/
import Mathlib.Algebra.BigOperators.Group.List.Basic
import Mathlib.Algebra.GroupWithZero.Nat
import Mathlib.Algebra.Order.BigOperators.Group.List
import Mathlib.Algebra.Order.Group.Nat
import Mathlib.Data.List.TakeDrop

abbrev Bytes := List UInt8

/-- `size` bytes of the file `path`, from `pos`. -/
structure Extent (κ : Type) where
  path : κ
  pos : Nat
  size : Nat
  deriving DecidableEq, Repr

namespace Extent

variable {κ : Type}

/-- The byte addresses an extent covers. -/
def cells (e : Extent κ) : List (κ × Nat) := (List.range e.size).map fun i => (e.path, e.pos + i)

/-- The byte addresses a list of extents covers, each as often as it is covered. -/
def allCells (es : List (Extent κ)) : List (κ × Nat) := es.flatMap cells

/-- The number of bytes of a list of extents. -/
def total (es : List (Extent κ)) : Nat := (es.map (·.size)).sum

/-- The extents of a list that cover nothing. -/
def empties (es : List (Extent κ)) : List (Extent κ) := es.filter (·.size = 0)

@[simp] theorem allCells_nil : allCells ([] : List (Extent κ)) = [] := rfl
@[simp] theorem allCells_cons (e : Extent κ) (es) : allCells (e :: es) = e.cells ++ allCells es := rfl
@[simp] theorem allCells_append (es fs : List (Extent κ)) :
    allCells (es ++ fs) = allCells es ++ allCells fs := List.flatMap_append

@[simp] theorem total_nil : total ([] : List (Extent κ)) = 0 := rfl
@[simp] theorem total_cons (e : Extent κ) (es) : total (e :: es) = e.size + total es := by simp [total]
@[simp] theorem total_append (es fs : List (Extent κ)) : total (es ++ fs) = total es + total fs := by
  simp [total]

@[simp] theorem empties_nil : empties ([] : List (Extent κ)) = [] := rfl
@[simp] theorem empties_append (es fs : List (Extent κ)) : empties (es ++ fs) = empties es ++ empties fs :=
  List.filter_append ..

theorem empties_cons (e : Extent κ) (es) :
    empties (e :: es) = if e.size = 0 then e :: empties es else empties es := by
  by_cases h : e.size = 0 <;> simp [empties, h]

theorem mem_cells {e : Extent κ} {p : κ} {i : Nat} :
    (p, i) ∈ e.cells ↔ p = e.path ∧ e.pos ≤ i ∧ i < e.pos + e.size := by
  simp only [cells, List.mem_map, List.mem_range, Prod.mk.injEq]
  constructor
  · rintro ⟨j, hj, rfl, rfl⟩
    exact ⟨rfl, by omega, by omega⟩
  · rintro ⟨rfl, h₁, h₂⟩
    exact ⟨i - e.pos, by omega, rfl, by omega⟩

theorem mem_allCells {es : List (Extent κ)} {c : κ × Nat} : c ∈ allCells es ↔ ∃ e ∈ es, c ∈ e.cells :=
  List.mem_flatMap

@[simp] theorem length_cells (e : Extent κ) : e.cells.length = e.size := by simp [cells]

theorem length_allCells (es : List (Extent κ)) : (allCells es).length = total es := by
  induction es with
  | nil => rfl
  | cons e es ih => simp [ih]

theorem cells_of_size_zero {e : Extent κ} (h : e.size = 0) : e.cells = [] := by simp [cells, h]

/-- An extent cut in two covers the cells of the whole, in order. -/
theorem cells_split (p : κ) (pos a b : Nat) :
    (⟨p, pos, a + b⟩ : Extent κ).cells = (⟨p, pos, a⟩ : Extent κ).cells ++ (⟨p, pos + a, b⟩ : Extent κ).cells := by
  simp [cells, List.range_add, Nat.add_assoc]

theorem allCells_perm {es fs : List (Extent κ)} (h : es.Perm fs) : (allCells es).Perm (allCells fs) :=
  h.flatMap_right _

theorem total_perm {es fs : List (Extent κ)} (h : es.Perm fs) : total es = total fs :=
  (h.map _).sum_eq

theorem empties_perm {es fs : List (Extent κ)} (h : es.Perm fs) : (empties es).Perm (empties fs) :=
  h.filter _

theorem total_eq_zero {es : List (Extent κ)} : total es = 0 ↔ ∀ e ∈ es, e.size = 0 := by
  simp [total, List.sum_eq_zero_iff_forall_eq_nat]

theorem mem_size_le_total {es : List (Extent κ)} {e : Extent κ} (h : e ∈ es) : e.size ≤ total es :=
  List.le_sum_of_mem (List.mem_map_of_mem h)

/-- The same run of bytes in another file. -/
def mapPath {ι : Type} (f : κ → ι) (e : Extent κ) : Extent ι := ⟨f e.path, e.pos, e.size⟩

theorem cells_mapPath {ι : Type} (f : κ → ι) (e : Extent κ) :
    (e.mapPath f).cells = e.cells.map fun c => (f c.1, c.2) := by
  simp [cells, mapPath]

theorem allCells_mapPath {ι : Type} (f : κ → ι) (es : List (Extent κ)) :
    allCells (es.map (mapPath f)) = (allCells es).map fun c => (f c.1, c.2) := by
  induction es with
  | nil => rfl
  | cons e es ih => simp [ih, cells_mapPath]

theorem total_mapPath {ι : Type} (f : κ → ι) (es : List (Extent κ)) : total (es.map (mapPath f)) = total es := by
  rw [← length_allCells, allCells_mapPath, List.length_map, length_allCells]

end Extent

/-! ## Writing at a position -/

/-- `old` after `data` is written at `pos`: a gap before `pos` reads as zeros. -/
def writeAt (old : Bytes) (pos : Nat) (data : Bytes) : Bytes :=
  old.takeD pos 0 ++ data ++ old.drop (pos + data.length)

theorem getElem?_takeD (l : Bytes) (n i : Nat) :
    (l.takeD n 0)[i]? = if i < n then some (l.getD i 0) else none := by
  induction n generalizing l i with
  | zero => simp
  | succ n ih =>
    cases i with
    | zero => cases l <;> simp [List.takeD]
    | succ i => cases l <;> simp [List.takeD, ih, List.getElem?_replicate]

/-- What a write leaves at each position. -/
theorem getElem?_writeAt (old data : Bytes) (pos i : Nat) :
    (writeAt old pos data)[i]? =
      if i < pos then some (old.getD i 0)
      else if i < pos + data.length then data[i - pos]? else old[i]? := by
  have hlen : (old.takeD pos 0).length = pos := List.takeD_length ..
  unfold writeAt
  by_cases h₁ : i < pos
  · rw [List.append_assoc, List.getElem?_append_left (by omega), getElem?_takeD]
    simp [h₁]
  by_cases h₂ : i < pos + data.length
  · rw [List.append_assoc, List.getElem?_append_right (by omega), hlen,
      List.getElem?_append_left (by omega)]
    simp [h₁, h₂]
  · rw [List.getElem?_append_right (by simp [hlen]; omega), List.getElem?_drop]
    simp only [List.length_append, hlen, h₁, h₂, if_false]
    congr 1; omega

/-- A write in two pieces is the write of the whole. -/
theorem writeAt_append (old d₁ d₂ : Bytes) (pos : Nat) :
    writeAt (writeAt old pos d₁) (pos + d₁.length) d₂ = writeAt old pos (d₁ ++ d₂) := by
  apply List.ext_getElem?
  intro i
  simp only [getElem?_writeAt, List.length_append, List.getD_eq_getElem?_getD]
  rcases Nat.lt_or_ge i pos with h₁ | h₁
  · simp [h₁, show i < pos + d₁.length by omega]
  rcases Nat.lt_or_ge i (pos + d₁.length) with h₂ | h₂
  · have hi : i - pos < d₁.length := by omega
    simp [h₂, show ¬ i < pos by omega, show i < pos + (d₁.length + d₂.length) by omega,
      List.getElem?_append_left hi, List.getElem?_eq_getElem hi]
  · rw [List.getElem?_append_right (by omega)]
    simp [show ¬ i < pos by omega, show ¬ i < pos + d₁.length by omega, Nat.add_assoc, Nat.sub_sub]

/-! ## Stores -/

/-- Named files. -/
abbrev Store (κ : Type) := κ → Option Bytes

namespace Store

variable {κ : Type}

/-- One byte of the store. -/
def byteAt (s : Store κ) (p : κ) (i : Nat) : Option UInt8 := (s p).bind (·[i]?)

/-- The bytes at a list of addresses. -/
def bytesAt (s : Store κ) (cs : List (κ × Nat)) : List (Option UInt8) := cs.map fun c => s.byteAt c.1 c.2

/-- An exact read of an extent: it fails where the file ends too early, and a read of nothing
needs no more than the file. -/
def read (s : Store κ) (e : Extent κ) : Option Bytes :=
  (s e.path).bind fun content =>
    if e.size = 0 ∨ e.pos + e.size ≤ content.length then some ((content.drop e.pos).take e.size) else none

@[simp] theorem bytesAt_append (s : Store κ) (cs ds : List (κ × Nat)) :
    s.bytesAt (cs ++ ds) = s.bytesAt cs ++ s.bytesAt ds := List.map_append

@[simp] theorem length_bytesAt (s : Store κ) (cs : List (κ × Nat)) : (s.bytesAt cs).length = cs.length :=
  List.length_map ..

/-- A file that has the bytes of an extent gives them to a read. -/
theorem read_of_length_le {s : Store κ} {e : Extent κ} {content : Bytes} (hc : s e.path = some content)
    (hlen : e.size = 0 ∨ e.pos + e.size ≤ content.length) :
    s.read e = some ((content.drop e.pos).take e.size) := by
  simp only [read, hc, Option.bind_some]
  rw [if_pos hlen]

/-- The extent can be read. -/
def Readable (s : Store κ) (e : Extent κ) : Prop :=
  ∃ content, s e.path = some content ∧ (e.size = 0 ∨ e.pos + e.size ≤ content.length)

theorem Readable.read {s : Store κ} {e : Extent κ} (h : s.Readable e) : ∃ d, s.read e = some d := by
  obtain ⟨content, hc, hlen⟩ := h
  exact ⟨_, read_of_length_le hc hlen⟩

/-- What is readable is so in two pieces. -/
theorem Readable.split {s : Store κ} {e : Extent κ} (h : s.Readable e) {n : Nat} (hn : n ≤ e.size) :
    s.Readable ⟨e.path, e.pos, n⟩ ∧ s.Readable ⟨e.path, e.pos + n, e.size - n⟩ := by
  obtain ⟨content, hc, hlen⟩ := h
  exact ⟨⟨content, hc, by dsimp only; omega⟩, ⟨content, hc, by dsimp only; omega⟩⟩

/-- What a read returns is what is at the extent's cells. -/
theorem bytesAt_read {s : Store κ} {e : Extent κ} {d : Bytes} (h : s.read e = some d) :
    d.map some = s.bytesAt e.cells := by
  simp only [read, Option.bind_eq_some_iff] at h
  obtain ⟨content, hc, h⟩ := h
  split at h
  · rename_i hlen
    cases h
    apply List.ext_getElem?
    intro i
    simp only [bytesAt, Extent.cells, List.map_map, List.getElem?_map, byteAt, hc, Option.bind_some,
      Function.comp_def]
    rcases Nat.lt_or_ge i e.size with hi | hi
    · have hin : e.pos + i < content.length := by omega
      simp [hi, hin]
    · simp [hi]
  · cases h

variable [DecidableEq κ]

def set (s : Store κ) (p : κ) (v : Option Bytes) : Store κ := fun q => if q = p then v else s q

@[simp] theorem set_self (s : Store κ) (p : κ) (v) : s.set p v p = v := by simp [set]
theorem set_other (s : Store κ) {p q : κ} (v) (h : q ≠ p) : s.set p v q = s q := by simp [set, h]

/-- The file `p` opened for writing (created empty when missing) and `data` written at `pos`;
no data is no write. -/
def write (s : Store κ) (p : κ) (pos : Nat) (data : Bytes) : Store κ :=
  s.set p (some (if data = [] then (s p).getD [] else writeAt ((s p).getD []) pos data))

theorem write_same (s : Store κ) (p : κ) (pos : Nat) (data : Bytes) :
    s.write p pos data p = some (if data = [] then (s p).getD [] else writeAt ((s p).getD []) pos data) := by
  simp [write]

theorem write_other (s : Store κ) {p q : κ} (pos : Nat) (data : Bytes) (h : q ≠ p) :
    s.write p pos data q = s q := by simp [write, set_other _ _ h]

/-- A file written in two pieces is the file written at once. -/
theorem write_append (s : Store κ) (p : κ) (pos : Nat) (d₁ d₂ : Bytes) :
    (s.write p pos d₁).write p (pos + d₁.length) d₂ = s.write p pos (d₁ ++ d₂) := by
  funext q
  by_cases hq : q = p
  · subst hq
    simp only [write_same, Option.getD_some]
    by_cases h₂ : d₂ = []
    · simp [h₂]
    by_cases h₁ : d₁ = []
    · simp [h₁]
    · simp [h₁, h₂, writeAt_append]
  · simp only [write_other _ _ _ hq]

/-- Writes of the given data at the given extents, in order. -/
def writes (s : Store κ) (ws : List (Extent κ × Bytes)) : Store κ :=
  ws.foldl (fun s w => s.write w.1.path w.1.pos w.2) s

@[simp] theorem writes_nil (s : Store κ) : s.writes [] = s := rfl
@[simp] theorem writes_cons (s : Store κ) (w ws) :
    s.writes (w :: ws) = (s.write w.1.path w.1.pos w.2).writes ws := rfl

theorem writes_append (s : Store κ) (ws vs) : s.writes (ws ++ vs) = (s.writes ws).writes vs := by
  simp [writes, List.foldl_append]

/-- A file no extent names is left alone. -/
theorem writes_other {ws : List (Extent κ × Bytes)} {p : κ} :
    ∀ {s : Store κ}, (∀ w ∈ ws, w.1.path ≠ p) → s.writes ws p = s p := by
  induction ws with
  | nil => intro s _; rfl
  | cons w ws ih =>
    intro s h
    rw [writes_cons, ih fun v hv => h v (by simp [hv]), write_other _ _ _ (h w (by simp)).symm]

/-- A write keeps every file. -/
theorem write_isSome {s : Store κ} {p q : κ} {pos data} (h : (s q).isSome) : (s.write p pos data q).isSome := by
  by_cases hq : q = p
  · subst hq; simp [write_same]
  · rwa [write_other _ _ _ hq]

/-- Every named file exists after the writes. -/
theorem writes_isSome {ws : List (Extent κ × Bytes)} {p : κ} :
    ∀ {s : Store κ}, ((s p).isSome ∨ ∃ w ∈ ws, w.1.path = p) → (s.writes ws p).isSome := by
  induction ws with
  | nil => intro s h; simpa using h
  | cons w ws ih =>
    intro s h
    rw [writes_cons]
    apply ih
    rcases h with h | ⟨v, hv, rfl⟩
    · exact .inl (write_isSome h)
    · rcases List.mem_cons.mp hv with rfl | hv
      · exact .inl (by simp [write_same])
      · exact .inr ⟨v, hv, rfl⟩

/-- What one write leaves at a byte address: the data where the extent covers it; elsewhere what
was there, a byte past the old end reading zero up to the data. -/
theorem byteAt_write (s : Store κ) (p q : κ) (pos i : Nat) (data : Bytes) :
    (s.write p pos data).byteAt q i =
      if q = p ∧ pos ≤ i ∧ i < pos + data.length then data[i - pos]?
      else if q = p ∧ i < pos ∧ data ≠ [] then some ((s.byteAt q i).getD 0)
      else s.byteAt q i := by
  by_cases hq : q = p
  · subst hq
    by_cases hd : data = []
    · subst hd
      rw [if_neg (by simp), if_neg (by simp)]
      cases h : s q <;> simp [byteAt, write_same, h]
    · have hwrite : (s.write q pos data).byteAt q i = (writeAt ((s q).getD []) pos data)[i]? := by
        simp [byteAt, write_same, hd]
      have hold : s.byteAt q i = ((s q).getD [])[i]? := by
        cases h : s q <;> simp [byteAt, h]
      rw [hwrite, getElem?_writeAt, hold, List.getD_eq_getElem?_getD]
      rcases Nat.lt_or_ge i pos with h₁ | h₁
      · rw [if_pos h₁, if_neg (by omega), if_pos ⟨rfl, h₁, hd⟩]
      rw [if_neg (by omega)]
      by_cases h₂ : i < pos + data.length
      · rw [if_pos h₂, if_pos ⟨rfl, h₁, h₂⟩]
      · rw [if_neg h₂, if_neg (by omega), if_neg (by omega)]
  · simp [byteAt, write_other _ _ _ hq, hq]

/-- The write of `w.2` at `w.1` writes what `src` has there. -/
def Agrees (src : Store κ) (w : Extent κ × Bytes) : Prop := w.2.map some = src.bytesAt w.1.cells

omit [DecidableEq κ] in
theorem Agrees.length {src : Store κ} {w : Extent κ × Bytes} (h : src.Agrees w) : w.2.length = w.1.size := by
  simpa using congrArg List.length h

omit [DecidableEq κ] in
theorem Agrees.byteAt {src : Store κ} {w : Extent κ × Bytes} (h : src.Agrees w) {i : Nat} (hi : i < w.1.size) :
    src.byteAt w.1.path (w.1.pos + i) = w.2[i]? := by
  have hlen := h.length
  have hget := congrArg (fun l => l[i]?) h
  simp only [bytesAt, Extent.cells, List.map_map, List.getElem?_map, List.getElem?_range hi,
    Option.map_some, Function.comp_def] at hget
  rw [List.getElem?_eq_getElem (by omega), Option.map_some] at hget
  rw [List.getElem?_eq_getElem (by omega)]
  exact (Option.some.inj hget).symm

omit [DecidableEq κ] in
/-- Pieces that add up to what `src` has at their extents' cells agree with `src` one by one. -/
theorem agrees_of_concat {src : Store κ} {ws : List (Extent κ × Bytes)} :
    (∀ w ∈ ws, w.2.length = w.1.size) →
      (ws.flatMap (·.2)).map some = src.bytesAt (Extent.allCells (ws.map (·.1))) → ∀ w ∈ ws, src.Agrees w := by
  induction ws with
  | nil => intro _ _ w hw; simp at hw
  | cons v ws ih =>
    intro hlen h w hw
    simp only [List.flatMap_cons, List.map_append, List.map_cons, Extent.allCells_cons,
      bytesAt_append] at h
    have hv := hlen v (by simp)
    obtain ⟨hhead, htail⟩ := List.append_inj h (by simp [hv])
    rcases List.mem_cons.mp hw with rfl | hw
    · exact hhead
    · exact ih (fun u hu => hlen u (by simp [hu])) htail w hw

/-- Writes that agree with `src` wherever they write leave `src`'s bytes on every cell they cover. -/
theorem byteAt_writes {src : Store κ} {ws : List (Extent κ × Bytes)} (hsrc : ∀ w ∈ ws, src.Agrees w)
    {p : κ} {i : Nat} :
    ∀ {s : Store κ}, ((p, i) ∈ Extent.allCells (ws.map (·.1)) ∨ s.byteAt p i = src.byteAt p i) →
      (s.writes ws).byteAt p i = src.byteAt p i := by
  induction ws with
  | nil => intro s h; simpa using h
  | cons w ws ih =>
    intro s h
    rw [writes_cons]
    apply ih fun v hv => hsrc v (by simp [hv])
    have hw := hsrc w (by simp)
    have hlen := hw.length
    by_cases hc : (p, i) ∈ w.1.cells
    · obtain ⟨rfl, h₁, h₂⟩ := Extent.mem_cells.mp hc
      right
      rw [byteAt_write, if_pos ⟨rfl, h₁, by omega⟩]
      have hget := hw.byteAt (show i - w.1.pos < w.1.size by omega)
      rw [← hget]
      congr 1; omega
    · rcases h with h | h
      · simp only [List.map_cons, Extent.allCells_cons, List.mem_append, hc, false_or] at h
        exact .inl h
      · right
        have hne : ¬ (p = w.1.path ∧ w.1.pos ≤ i ∧ i < w.1.pos + w.2.length) := by
          rw [hlen, ← Extent.mem_cells]; exact hc
        rw [byteAt_write, if_neg hne]
        split
        · next hgap =>
          -- the source has a byte after the gap, so it has one in the gap
          obtain ⟨rfl, hi, hd⟩ := hgap
          have hpos : 0 < w.1.size := by rw [← hlen]; exact List.length_pos_iff.mpr hd
          have hfirst := hw.byteAt hpos
          rw [List.getElem?_eq_getElem (by omega), Nat.add_zero] at hfirst
          rw [h]
          unfold byteAt at hfirst ⊢
          cases hcont : src w.1.path with
          | none => simp [hcont] at hfirst
          | some content =>
            simp only [hcont, Option.bind_some] at hfirst ⊢
            have := (List.getElem?_eq_some_iff.mp hfirst).1
            simp [List.getElem?_eq_getElem (show i < content.length by omega)]
        · exact h

/-- A byte address no write covers is left as it is, unless a gap that reads as zero reaches over it. -/
theorem byteAt_writes_outside {ws : List (Extent κ × Bytes)}
    (hlen : ∀ w ∈ ws, w.2.length = w.1.size) {p : κ} {i : Nat}
    (hc : (p, i) ∉ Extent.allCells (ws.map (·.1))) :
    ∀ s : Store κ, (s.writes ws).byteAt p i = s.byteAt p i ∨
      s.byteAt p i = none ∧ (s.writes ws).byteAt p i = some 0 := by
  induction ws with
  | nil => exact fun s => .inl rfl
  | cons w ws ih =>
    intro s
    simp only [List.map_cons, Extent.allCells_cons, List.mem_append, not_or] at hc
    rw [writes_cons]
    have hrest := ih (fun v hv => hlen v (by simp [hv])) hc.2 (s.write w.1.path w.1.pos w.2)
    have hne : ¬ (p = w.1.path ∧ w.1.pos ≤ i ∧ i < w.1.pos + w.2.length) := by
      rw [hlen w (by simp), ← Extent.mem_cells]; exact hc.1
    rw [byteAt_write, if_neg hne] at hrest
    split at hrest
    · cases hbyte : s.byteAt p i with
      | none =>
        simp only [hbyte, Option.getD_none] at hrest
        exact .inr ⟨rfl, hrest.resolve_right (by simp)⟩
      | some b =>
        simp only [hbyte, Option.getD_some] at hrest
        exact .inl (hrest.resolve_right (by simp))
    · exact hrest

/-- A byte address no write covers keeps its byte, if it had one. -/
theorem byteAt_writes_uncovered {ws : List (Extent κ × Bytes)}
    (hlen : ∀ w ∈ ws, w.2.length = w.1.size) {p : κ} {i : Nat} {b : UInt8}
    (hc : (p, i) ∉ Extent.allCells (ws.map (·.1))) {s : Store κ} (h : s.byteAt p i = some b) :
    (s.writes ws).byteAt p i = some b := by
  rcases byteAt_writes_outside hlen hc s with hsame | ⟨hnone, -⟩
  · rw [hsame, h]
  · rw [hnone] at h
    cases h

/-- A byte address no write covers that had no byte has none afterwards, or a gap's zero. -/
theorem byteAt_writes_gap {ws : List (Extent κ × Bytes)}
    (hlen : ∀ w ∈ ws, w.2.length = w.1.size) {p : κ} {i : Nat}
    (hc : (p, i) ∉ Extent.allCells (ws.map (·.1))) {s : Store κ} (h : s.byteAt p i = none ∨ s.byteAt p i = some 0) :
    (s.writes ws).byteAt p i = none ∨ (s.writes ws).byteAt p i = some 0 := by
  rcases byteAt_writes_outside hlen hc s with hsame | ⟨-, hzero⟩
  · rw [hsame]
    exact h
  · exact .inr hzero

end Store
