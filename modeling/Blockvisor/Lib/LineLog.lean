/-
A log as the bytes of a file: each record is a line, and a record is appended
with its line feed. Read line by line, as `BufRead::lines` does, it is a
`LogFile`: what is behind the last line feed is a line too if it is not empty.

A log of whole records reads as these (`read_records`). An append that is cut
comes to one of the cuts of a `LogFile`, by how many bytes got there
(`read_append`).
-/
import Blockvisor.Lib.Persist
import Blockvisor.Lib.PrefixCode

/-- Records as lines: what is written is read back, is one line, and is none if it is cut. -/
structure LineCodec (α : Type) where
  encode : α → List UInt8
  decode : List UInt8 → Option α
  decode_encode : ∀ a, decode (encode a) = some a
  decode_cut : ∀ a p q, encode a = p ++ q → q ≠ [] → decode p = none
  oneLine : ∀ a, 10 ∉ encode a
  noReturn : ∀ a, (encode a).getLast? ≠ some 13

namespace LineLog

variable {α : Type}

/-- A byte before lines and what is behind the last one. -/
def addByte (b : UInt8) (split : List (List UInt8) × List UInt8) : List (List UInt8) × List UInt8 :=
  if b = 10 then ([] :: split.1, split.2)
  else match split.1 with
    | [] => ([], b :: split.2)
    | l :: ls => ((b :: l) :: ls, split.2)

/-- The lines, without their line feeds, and what is behind the last one. -/
def splitLines : List UInt8 → List (List UInt8) × List UInt8
  | [] => ([], [])
  | b :: rest => addByte b (splitLines rest)

/-- A line without the carriage return before its line feed. -/
def chomp (line : List UInt8) : List UInt8 := if line.getLast? = some 13 then line.dropLast else line

/-- `BufRead::lines`. -/
def lines (bytes : List UInt8) : List (List UInt8) :=
  let (ended, last) := splitLines bytes
  ended.map chomp ++ if last = [] then [] else [last]

def tailOf (codec : LineCodec α) (last : List UInt8) : Tail α :=
  if last = [] then .none
  else match codec.decode last with
    | some a => .record a
    | none => .fragment

/-- The log that is read from the bytes of a file. -/
def read (codec : LineCodec α) (bytes : List UInt8) : LogFile α where
  lines := (splitLines bytes).1.map fun line => codec.decode (chomp line)
  tail := tailOf codec (splitLines bytes).2

/-- A record and its line feed. -/
def record (codec : LineCodec α) (a : α) : List UInt8 := codec.encode a ++ [10]

/-- What an append comes to when so many of its bytes got there. -/
def cutAt (codec : LineCodec α) (a : α) (count : Nat) : LogCut :=
  if count = 0 then .nothing
  else if count < (codec.encode a).length then .fragment
  else if count = (codec.encode a).length then .unterminated
  else .complete

/-! ## Lines -/

theorem splitLines_line {line : List UInt8} (h : 10 ∉ line) (rest : List UInt8) :
    splitLines (line ++ 10 :: rest) = (line :: (splitLines rest).1, (splitLines rest).2) := by
  induction line with
  | nil => rfl
  | cons b line ih =>
    have hb : b ≠ 10 := fun hb => h (by rw [hb]; exact List.mem_cons_self ..)
    rw [List.cons_append, splitLines, ih fun hmem => h (List.mem_cons_of_mem b hmem)]
    exact if_neg hb

theorem splitLines_tail {line : List UInt8} (h : 10 ∉ line) : splitLines line = ([], line) := by
  induction line with
  | nil => rfl
  | cons b line ih =>
    have hb : b ≠ 10 := fun hb => h (by rw [hb]; exact List.mem_cons_self ..)
    rw [splitLines, ih fun hmem => h (List.mem_cons_of_mem b hmem)]
    exact if_neg hb

theorem addByte_ended {b : UInt8} {split : List (List UInt8) × List UInt8} (h : (addByte b split).2 = []) :
    split.2 = [] ∧ ∀ ls last, addByte b (split.1 ++ ls, last) = ((addByte b split).1 ++ ls, last) := by
  unfold addByte at h ⊢
  by_cases hb : b = 10
  · simp only [hb, if_true] at h ⊢
    exact ⟨h, fun _ _ => rfl⟩
  · simp only [hb, if_false] at h ⊢
    cases hls : split.1 with
    | nil =>
      rw [hls] at h
      cases h
    | cons l ls =>
      rw [hls] at h
      exact ⟨h, fun _ _ => rfl⟩

/-- Behind a line feed the lines begin anew. -/
theorem splitLines_append {bytes : List UInt8} (h : (splitLines bytes).2 = []) (more : List UInt8) :
    splitLines (bytes ++ more) = ((splitLines bytes).1 ++ (splitLines more).1, (splitLines more).2) := by
  induction bytes with
  | nil => rfl
  | cons b bytes ih =>
    obtain ⟨hrest, hadd⟩ := addByte_ended h
    rw [List.cons_append, splitLines, ih hrest, hadd]
    rfl

/-- **Line by line or as a log**: one line that is no record makes both fail. -/
theorem load_read (codec : LineCodec α) (bytes : List UInt8) :
    (read codec bytes).load = (lines bytes).mapM codec.decode := by
  unfold read LogFile.load lines tailOf
  cases hsplit : splitLines bytes with
  | mk ended last =>
    have hended : (ended.map fun line => codec.decode (chomp line)).mapM id = (ended.map chomp).mapM codec.decode := by
      rw [List.mapM_map, List.mapM_map]
      rfl
    simp only [List.mapM_append, hended]
    cases (ended.map chomp).mapM codec.decode with
    | none => rfl
    | some records =>
      by_cases hlast : last = []
      · simp [hlast]
      · cases hdecode : codec.decode last with
        | none => simp [hlast, hdecode]
        | some a => simp [hlast, hdecode]

/-! ## Records -/

section

variable (codec : LineCodec α)

theorem chomp_encode (a : α) : chomp (codec.encode a) = codec.encode a := if_neg (codec.noReturn a)

/-- The log of whole records. -/
def records (as : List α) : List UInt8 := as.flatMap (record codec)

theorem splitLines_records (as : List α) : splitLines (records codec as) = (as.map codec.encode, []) := by
  induction as with
  | nil => rfl
  | cons a as ih =>
    have hline := splitLines_line (codec.oneLine a) (records codec as)
    rw [ih] at hline
    unfold records record at hline ⊢
    rw [List.flatMap_cons, List.append_assoc, List.singleton_append, hline]
    rfl

theorem read_records (as : List α) : read codec (records codec as) = ⟨as.map some, .none⟩ := by
  unfold read
  rw [splitLines_records]
  simp only [List.map_map, tailOf, if_true]
  congr 1
  refine List.map_congr_left fun a _ => ?_
  show codec.decode (chomp (codec.encode a)) = some a
  rw [chomp_encode, codec.decode_encode]

/-- **Whole records are read back**, in their order. -/
theorem load_records (as : List α) : (read codec (records codec as)).load = some as := by
  rw [read_records]
  unfold LogFile.load
  rw [List.mapM_map]
  have hall : as.mapM (id ∘ some) = some as := by
    induction as with
    | nil => rfl
    | cons a as ih =>
      rw [List.mapM_cons, ih]
      rfl
  rw [hall]

/-! ## An append that is cut -/

theorem decode_take {a : α} {count : Nat} (h : count < (codec.encode a).length) :
    codec.decode ((codec.encode a).take count) = none := by
  refine codec.decode_cut a _ ((codec.encode a).drop count) (List.take_append_drop count _).symm ?_
  intro hdrop
  have hle := List.drop_eq_nil_iff.mp hdrop
  omega

/-- Text without a line feed is no line but a tail. -/
theorem read_tail {text : List UInt8} (h : 10 ∉ text) : read codec text = ⟨[], tailOf codec text⟩ := by
  unfold read
  rw [splitLines_tail h]
  rfl

/-- The bytes of an append that got there, by themselves. -/
def cutLog (a : α) : LogCut → LogFile α
  | .nothing => ⟨[], .none⟩
  | .fragment => ⟨[], .fragment⟩
  | .unterminated => ⟨[], .record a⟩
  | .complete => ⟨[some a], .none⟩

theorem read_cut (a : α) (count : Nat) : read codec ((record codec a).take count) = cutLog a (cutAt codec a count) := by
  unfold cutAt
  by_cases hzero : count = 0
  · subst hzero
    rfl
  rw [if_neg hzero]
  by_cases hless : count < (codec.encode a).length
  · rw [if_pos hless, record, List.take_append_of_le_length (Nat.le_of_lt hless)]
    have hline : 10 ∉ (codec.encode a).take count := fun hmem => codec.oneLine a (List.mem_of_mem_take hmem)
    have hsome : (codec.encode a).take count ≠ [] := by
      intro hnil
      have hlength := congrArg List.length hnil
      rw [List.length_take, List.length_nil] at hlength
      omega
    rw [read_tail codec hline, tailOf, if_neg hsome, decode_take codec hless]
    rfl
  rw [if_neg hless]
  by_cases hline : count = (codec.encode a).length
  · have hsome : codec.encode a ≠ [] := by
      intro hnil
      rw [hnil] at hline
      exact hzero hline
    rw [if_pos hline, record, hline, List.take_left, read_tail codec (codec.oneLine a), tailOf, if_neg hsome,
      codec.decode_encode]
    rfl
  · have hall : (record codec a).take count = records codec [a] := by
      have hlength : (record codec a).length = (codec.encode a).length + 1 := List.length_append
      rw [List.take_of_length_le (by omega)]
      exact (List.append_nil _).symm
    rw [if_neg hline, hall, read_records]
    rfl

theorem tail_none {bytes : List UInt8} (h : (read codec bytes).tail = .none) : (splitLines bytes).2 = [] := by
  have htail : tailOf codec (splitLines bytes).2 = .none := h
  unfold tailOf at htail
  by_cases hlast : (splitLines bytes).2 = []
  · exact hlast
  · rw [if_neg hlast] at htail
    split at htail <;> cases htail

/-- **What is read after an append that was cut**: where the log ended with a
line feed, what its abstract append comes to. -/
theorem read_append {bytes : List UInt8} (h : (read codec bytes).tail = .none) (a : α) (count : Nat) :
    read codec (bytes ++ (record codec a).take count) = (read codec bytes).append a (cutAt codec a count) := by
  have hread : read codec (bytes ++ (record codec a).take count) =
      ⟨(read codec bytes).lines ++ (read codec ((record codec a).take count)).lines,
        (read codec ((record codec a).take count)).tail⟩ := by
    unfold read
    rw [splitLines_append (tail_none codec h), List.map_append]
  rw [hread, read_cut]
  cases hlog : read codec bytes with
  | mk ls last =>
    rw [hlog] at h
    cases h
    cases cutAt codec a count with
    | nothing => simp [cutLog, LogFile.append]
    | fragment => simp [cutLog, LogFile.append]
    | unterminated => simp [cutLog, LogFile.append]
    | complete => simp [cutLog, LogFile.append]

/-- **Whole records and an append that was cut**: all of it is read unless only
a part of the last record got there. -/
theorem load_cut (as : List α) (a : α) (count : Nat) :
    (read codec (records codec as ++ (record codec a).take count)).load =
      match cutAt codec a count with
      | .nothing => some as
      | .fragment => none
      | .unterminated => some (as ++ [a])
      | .complete => some (as ++ [a]) := by
  have hread := read_records codec as
  have htail : (read codec (records codec as)).tail = .none := by rw [hread]
  have hload := load_records codec as
  rw [read_append codec htail]
  cases cutAt codec a count with
  | nothing => exact hload
  | fragment =>
    rw [hread]
    unfold LogFile.load LogFile.append
    split <;> simp_all
  | unterminated =>
    rw [hread] at hload ⊢
    unfold LogFile.load at hload ⊢
    cases hlines : (as.map some).mapM id with
    | none =>
      simp only [hlines] at hload
      cases hload
    | some bs =>
      simp only [hlines, Option.some.injEq] at hload
      subst hload
      simp only [LogFile.append, hlines]
  | complete => exact LogFile.load_append_complete hload htail

end

/-! ## Codes of lines -/

/-- A prefix code of one line each: what is none of its encodings is no record. -/
noncomputable def ofPrefixCode (f : α → List UInt8) (hcode : PrefixCode f) (hline : ∀ a, 10 ∉ f a)
    (hreturn : ∀ a, (f a).getLast? ≠ some 13) : LineCodec α where
  encode := f
  decode bytes := open Classical in if h : ∃ a, f a = bytes then some h.choose else none
  decode_encode a := by
    have hex : ∃ b, f b = f a := ⟨a, rfl⟩
    rw [dif_pos hex, hcode.inj hex.choose_spec]
  decode_cut a p q h hq := by
    refine dif_neg fun hex => ?_
    obtain ⟨b, hb⟩ := hex
    rw [← hb] at h
    exact hq (hcode.not_cut h.symm)
  oneLine := hline
  noReturn := hreturn

end LineLog
