/-
A chunk as JSON, the way it is put in a chunk file: the fields in their order,
without blanks, in UTF-8. Control characters, quotes and backslashes of a text
are escaped, so that all of it is one line.

A path is written by its components, each with a slash behind it; a slash in a
component is escaped. What one can tell from this file is `chunkJson_code`: no
chunk is how another one begins.
-/
import Blockvisor.Babel.Engine
import Blockvisor.Lib.LineLog
import Mathlib.Tactic.IntervalCases

namespace Blockvisor
namespace Json

/-! ## Numbers and texts -/

def digits (n : Nat) : List Char := Nat.toDigits 10 n

/-- Behind a number there is no digit. -/
def NoDigit (rest : List Char) : Prop := ∀ c ∈ rest.head?, c.isDigit = false

theorem digits_isDigit {n : Nat} {c : Char} (h : c ∈ digits n) : c.isDigit = true :=
  Nat.isDigit_of_mem_toDigits (by decide) (by decide) h

theorem digits_code : CodeBefore NoDigit digits := by
  have htake : ∀ n r, NoDigit r → (digits n ++ r).takeWhile Char.isDigit = digits n := by
    intro n r hr
    have hrest : r.takeWhile Char.isDigit = [] := by
      cases r with
      | nil => rfl
      | cons c r => exact List.takeWhile_cons_of_neg (by simp [hr c (by simp)])
    rw [List.takeWhile_append_of_pos fun c hc => digits_isDigit hc, hrest, List.append_nil]
  intro a b r s hr hs heq
  have hsame : digits a = digits b := by rw [← htake a r hr, heq, htake b s hs]
  have hab : a = b := by
    rw [← @Nat.ofDigitChars_ten_toDigits a, ← @Nat.ofDigitChars_ten_toDigits b]
    exact congrArg (Nat.ofDigitChars 10 · 0) hsame
  subst hab
  exact ⟨rfl, List.append_cancel_left heq⟩

theorem digits_head (n : Nat) : ∃ x xs, digits n = x :: xs ∧ x.isDigit = true := by
  cases h : digits n with
  | nil => exact absurd h Nat.toDigits_ne_nil
  | cons x xs => exact ⟨x, xs, rfl, digits_isDigit (by rw [h]; exact List.mem_cons_self ..)⟩

def hexDigit (n : Nat) : Char := if n < 10 then Char.ofNat (48 + n) else Char.ofNat (87 + n)

/-- What is behind the backslash of a control character. -/
def control : Nat → List Char
  | 8 => ['b']
  | 9 => ['t']
  | 10 => ['n']
  | 12 => ['f']
  | 13 => ['r']
  | n => ['u', '0', '0', hexDigit (n / 16), hexDigit (n % 16)]

/-- A character of a text. -/
def escape (c : Char) : List Char :=
  if c.toNat < 32 then '\\' :: control c.toNat
  else if c = '"' ∨ c = '\\' then ['\\', c]
  else [c]

/-- Reads what is behind a backslash. -/
def readEscape : List Char → Option (Char × List Char)
  | 'b' :: rest => some (Char.ofNat 8, rest)
  | 't' :: rest => some (Char.ofNat 9, rest)
  | 'n' :: rest => some (Char.ofNat 10, rest)
  | 'f' :: rest => some (Char.ofNat 12, rest)
  | 'r' :: rest => some (Char.ofNat 13, rest)
  | 'u' :: '0' :: '0' :: high :: low :: rest =>
    ((List.range 32).find? fun n => hexDigit (n / 16) = high ∧ hexDigit (n % 16) = low).map fun n => (Char.ofNat n, rest)
  | c :: rest => some (c, rest)
  | [] => none

def readChar : List Char → Option (Char × List Char)
  | [] => none
  | c :: rest => if c = '\\' then readEscape rest else some (c, rest)

theorem readEscape_control : ∀ n < 32, ∀ rest, readEscape (control n ++ rest) = some (Char.ofNat n, rest) := by
  intro n hn rest
  interval_cases n <;> rfl

theorem readChar_escape (c : Char) (rest : List Char) : readChar (escape c ++ rest) = some (c, rest) := by
  unfold escape
  by_cases hcontrol : c.toNat < 32
  · rw [if_pos hcontrol, List.cons_append, readChar, if_pos rfl, readEscape_control c.toNat hcontrol, Char.ofNat_toNat]
  rw [if_neg hcontrol]
  by_cases hquote : c = '"' ∨ c = '\\'
  · rw [if_pos hquote]
    obtain h | h := hquote <;> subst h <;> rfl
  · rw [if_neg hquote]
    exact if_neg fun hc => hquote (.inr hc)

theorem escape_code : PrefixCode escape := PrefixCode.of_reader readChar readChar_escape

/-- A text escaped character by character, up to its end. -/
def body (stop : Char) (s : String) : List Char := s.toList.flatMap escape ++ [stop]

/-- What is written for a character begins with a backslash or is the character. -/
theorem escape_head (c : Char) : ∃ x xs, escape c = x :: xs ∧ (x = '\\' ∨ x = c ∧ c ≠ '"') := by
  unfold escape
  by_cases hcontrol : c.toNat < 32
  · rw [if_pos hcontrol]
    exact ⟨'\\', _, rfl, .inl rfl⟩
  rw [if_neg hcontrol]
  by_cases hquote : c = '"' ∨ c = '\\'
  · rw [if_pos hquote]
    exact ⟨'\\', _, rfl, .inl rfl⟩
  · rw [if_neg hquote]
    exact ⟨c, [], rfl, .inr ⟨rfl, fun hc => hquote (.inl hc)⟩⟩

theorem escape_head_ne (c : Char) : ∃ x xs, escape c = x :: xs ∧ x ≠ '"' := by
  obtain ⟨x, xs, hescape, rfl | ⟨rfl, hx⟩⟩ := escape_head c
  · exact ⟨'\\', xs, hescape, by decide⟩
  · exact ⟨x, xs, hescape, hx⟩

def text (s : String) : List Char := '"' :: body '"' s

theorem text_code : PrefixCode text := by
  have hclosed := PrefixCode.closed (escape_code.before fun _ => True) '"' escape_head_ne (fun _ => trivial) fun _ _ => trivial
  intro a b r s heq
  obtain ⟨hab, hrs⟩ := hclosed a.toList b.toList r s (List.cons.inj heq).2
  exact ⟨String.toList_injective hab, hrs⟩

/-- The name of a field, with its colon. -/
def field (name : String) : List Char := text name ++ [':']

theorem field_apart {a b : String} (hne : a ≠ b) (r s : List Char) : field a ++ r ≠ field b ++ s := by
  intro heq
  unfold field at heq
  rw [List.append_assoc, List.append_assoc] at heq
  exact hne (text_code a b _ _ heq).1

def url : Option Url → List Char
  | none => ['n', 'u', 'l', 'l']
  | some u => text u

theorem url_code : PrefixCode url := by
  intro a b r s heq
  cases a with
  | none =>
    cases b with
    | none => exact ⟨rfl, List.append_cancel_left heq⟩
    | some v => exact absurd (List.cons.inj heq).1 (by decide)
  | some u =>
    cases b with
    | none => exact absurd (List.cons.inj heq).1 (by decide)
    | some v =>
      obtain ⟨huv, hrs⟩ := text_code u v r s heq
      exact ⟨by rw [huv], hrs⟩

/-! ## Lists -/

def array {α : Type} (f : α → List Char) (l : List α) : List Char := '[' :: PrefixCode.joined f ',' ']' l

theorem array_code {α : Type} {rest : List Char → Prop} {f : α → List Char} (hf : CodeBefore rest f)
    (hhead : ∀ a, ∃ x xs, f a = x :: xs ∧ x ≠ ']') (hsep : ∀ r, rest (',' :: r)) (hstop : ∀ r, rest (']' :: r)) :
    PrefixCode (array f) := by
  have hjoined := PrefixCode.joined_code hf (by decide) hhead hsep hstop
  intro l m r s heq
  exact hjoined l m r s (List.cons.inj heq).2

theorem noDigit_cons {c : Char} (h : c.isDigit = false) (r : List Char) : NoDigit (c :: r) := by
  intro d hd
  cases hd
  exact h

theorem digits_head_ne (n : Nat) : ∃ x xs, digits n = x :: xs ∧ x ≠ ']' := by
  obtain ⟨x, xs, hdigits, hx⟩ := digits_head n
  refine ⟨x, xs, hdigits, fun h => ?_⟩
  rw [h] at hx
  cases hx

theorem numbers_code : PrefixCode (array digits) :=
  array_code digits_code digits_head_ne (noDigit_cons (by decide)) (noDigit_cons (by decide))

/-- The bytes of a digest. -/
def bytes {n : Nat} (digest : Vector UInt8 n) : List Char := array digits (digest.toList.map (·.toNat))

theorem bytes_code {n : Nat} : PrefixCode (bytes (n := n)) := by
  intro a b r s heq
  obtain ⟨hmap, hrs⟩ := numbers_code _ _ r s heq
  have hlist : a.toList = b.toList := List.map_injective_iff.mpr (fun _ _ h => UInt8.toNat_inj.mp h) hmap
  exact ⟨Vector.toList_inj.mp hlist, hrs⟩

def checksum : Checksum → List Char
  | .sha1 digest => '{' :: (field "sha1" ++ (bytes digest ++ ['}']))
  | .sha256 digest => '{' :: (field "sha256" ++ (bytes digest ++ ['}']))
  | .blake3 digest => '{' :: (field "blake3" ++ (bytes digest ++ ['}']))

/-- Behind one and the same name there is the digest. -/
theorem digest_code {n : Nat} {name : String} {a b : Vector UInt8 n} {r s : List Char}
    (heq : '{' :: (field name ++ (bytes a ++ ['}'])) ++ r = '{' :: (field name ++ (bytes b ++ ['}'])) ++ s) : a = b ∧ r = s := by
  simp only [List.cons_append, List.append_assoc, List.cons.injEq, true_and] at heq
  obtain ⟨hab, hrest⟩ := bytes_code a b _ _ (List.append_cancel_left heq)
  exact ⟨hab, (List.cons.inj hrest).2⟩

theorem digest_apart {n m : Nat} {name other : String} (hne : name ≠ other) {a : Vector UInt8 n} {b : Vector UInt8 m}
    {r s : List Char} : '{' :: (field name ++ (bytes a ++ ['}'])) ++ r ≠ '{' :: (field other ++ (bytes b ++ ['}'])) ++ s := by
  intro heq
  simp only [List.cons_append, List.append_assoc, List.cons.injEq, true_and] at heq
  exact field_apart hne _ _ heq

theorem checksum_code : PrefixCode checksum := by
  intro a b r s heq
  cases a with
  | sha1 da =>
    cases b with
    | sha1 db =>
      obtain ⟨hab, hrs⟩ := digest_code heq
      exact ⟨by rw [hab], hrs⟩
    | sha256 db => exact absurd heq (digest_apart (by decide))
    | blake3 db => exact absurd heq (digest_apart (by decide))
  | sha256 da =>
    cases b with
    | sha1 db => exact absurd heq (digest_apart (by decide))
    | sha256 db =>
      obtain ⟨hab, hrs⟩ := digest_code heq
      exact ⟨by rw [hab], hrs⟩
    | blake3 db => exact absurd heq (digest_apart (by decide))
  | blake3 da =>
    cases b with
    | sha1 db => exact absurd heq (digest_apart (by decide))
    | sha256 db => exact absurd heq (digest_apart (by decide))
    | blake3 db =>
      obtain ⟨hab, hrs⟩ := digest_code heq
      exact ⟨by rw [hab], hrs⟩

/-! ## Locations and chunks -/

/-- A character of a component of a path. -/
def escapePart (c : Char) : List Char := if c = '/' then ['\\', '/'] else escape c

/-- A component, with its slash. -/
def part (s : String) : List Char := s.toList.flatMap escapePart ++ ['/']

def path (p : PathBuf) : List Char := '"' :: (p.flatMap part ++ ['"'])

theorem escapePart_code : PrefixCode escapePart := by
  refine PrefixCode.of_reader readChar fun c rest => ?_
  unfold escapePart
  by_cases hslash : c = '/'
  · subst hslash
    rfl
  · rw [if_neg hslash]
    exact readChar_escape c rest

theorem escapePart_head (c : Char) : ∃ x xs, escapePart c = x :: xs ∧ x ≠ '"' ∧ x ≠ '/' := by
  unfold escapePart
  by_cases hslash : c = '/'
  · rw [if_pos hslash]
    exact ⟨'\\', ['/'], rfl, by decide, by decide⟩
  rw [if_neg hslash]
  obtain ⟨x, xs, hescape, rfl | ⟨rfl, hx⟩⟩ := escape_head c
  · exact ⟨'\\', xs, hescape, by decide, by decide⟩
  · exact ⟨x, xs, hescape, hx, hslash⟩

theorem part_code : PrefixCode part := by
  have hclosed := PrefixCode.closed (escapePart_code.before fun _ => True) '/'
    (fun c => by obtain ⟨x, xs, hc, -, hx⟩ := escapePart_head c; exact ⟨x, xs, hc, hx⟩) (fun _ => trivial) fun _ _ => trivial
  intro a b r s heq
  obtain ⟨hab, hrs⟩ := hclosed a.toList b.toList r s heq
  exact ⟨String.toList_injective hab, hrs⟩

theorem part_head (s : String) : ∃ x xs, part s = x :: xs ∧ x ≠ '"' := by
  unfold part
  cases s.toList with
  | nil => exact ⟨'/', [], rfl, by decide⟩
  | cons c cs =>
    obtain ⟨x, xs, hc, hx, -⟩ := escapePart_head c
    exact ⟨x, _, by rw [List.flatMap_cons, hc]; rfl, hx⟩

theorem path_code : PrefixCode path := by
  have hclosed := PrefixCode.closed (part_code.before fun _ => True) '"' part_head (fun _ => trivial) fun _ _ => trivial
  intro a b r s heq
  exact hclosed a b r s (List.cons.inj heq).2

def location (l : FileLocation) : List Char :=
  '{' :: (field "path" ++ (path l.path ++ (',' :: (field "pos" ++ (digits l.pos ++
    (',' :: (field "size" ++ (digits l.size ++ ['}']))))))))

/-- A number is read up to what follows it. -/
theorem digits_read {a b : Nat} {c d : Char} {r s : List Char} (heq : digits a ++ c :: r = digits b ++ d :: s)
    (hc : c.isDigit = false) (hd : d.isDigit = false) : a = b ∧ c :: r = d :: s :=
  digits_code a b _ _ (noDigit_cons hc r) (noDigit_cons hd s) heq

theorem location_code : PrefixCode location := by
  intro a b r s heq
  unfold location at heq
  simp only [List.cons_append, List.append_assoc, List.nil_append, List.cons.injEq, true_and] at heq
  obtain ⟨hpath, h₁⟩ := path_code _ _ _ _ (List.append_cancel_left heq)
  obtain ⟨hpos, h₂⟩ := digits_read (List.append_cancel_left (List.cons.inj h₁).2) (by decide) (by decide)
  obtain ⟨hsize, h₃⟩ := digits_read (List.append_cancel_left (List.cons.inj h₂).2) (by decide) (by decide)
  refine ⟨?_, (List.cons.inj h₃).2⟩
  cases a
  cases b
  simp_all

def chunk (c : Chunk) : List Char :=
  '{' :: (field "index" ++ (digits c.index ++ (',' :: (field "key" ++ (text c.key ++
    (',' :: (field "url" ++ (url c.url ++ (',' :: (field "checksum" ++ (checksum c.checksum ++
      (',' :: (field "size" ++ (digits c.size ++ (',' :: (field "destinations" ++
        (array location c.destinations ++ ['}'])))))))))))))))))

/-- **One chunk is not how another one begins.** -/
theorem chunk_code : PrefixCode chunk := by
  have hlocations : PrefixCode (array location) :=
    array_code (location_code.before fun _ => True) (fun l => ⟨_, _, rfl, by decide⟩) (fun _ => trivial) fun _ => trivial
  intro a b r s heq
  unfold chunk at heq
  simp only [List.cons_append, List.append_assoc, List.nil_append, List.cons.injEq, true_and] at heq
  obtain ⟨hindex, h₁⟩ := digits_read (List.append_cancel_left heq) (by decide) (by decide)
  obtain ⟨hkey, h₂⟩ := text_code _ _ _ _ (List.append_cancel_left (List.cons.inj h₁).2)
  obtain ⟨hurl, h₃⟩ := url_code _ _ _ _ (List.append_cancel_left (List.cons.inj h₂).2)
  obtain ⟨hchecksum, h₄⟩ := checksum_code _ _ _ _ (List.append_cancel_left (List.cons.inj h₃).2)
  obtain ⟨hsize, h₅⟩ := digits_read (List.append_cancel_left (List.cons.inj h₄).2) (by decide) (by decide)
  obtain ⟨hdestinations, h₆⟩ := hlocations _ _ _ _ (List.append_cancel_left (List.cons.inj h₅).2)
  refine ⟨?_, (List.cons.inj h₆).2⟩
  cases a
  cases b
  simp_all

/-! ## One line -/

theorem control_line : ∀ n < 32, '\n' ∉ control n := by
  decide

theorem escape_line (c : Char) : '\n' ∉ escape c := by
  unfold escape
  by_cases hcontrol : c.toNat < 32
  · rw [if_pos hcontrol]
    simp [control_line c.toNat hcontrol]
  rw [if_neg hcontrol]
  have hc : '\n' ≠ c := by
    intro hc
    rw [← hc] at hcontrol
    exact hcontrol (by decide)
  by_cases hquote : c = '"' ∨ c = '\\'
  · rw [if_pos hquote]
    simp [hc]
  · rw [if_neg hquote]
    simp [hc]

theorem text_line (s : String) : '\n' ∉ text s := by
  unfold text body
  simp [escape_line]

theorem path_line (p : PathBuf) : '\n' ∉ path p := by
  have hpart : ∀ s, '\n' ∉ part s := by
    intro s
    have hescape : ∀ c, '\n' ∉ escapePart c := by
      intro c
      unfold escapePart
      split
      · decide
      · exact escape_line c
    unfold part
    simp [hescape]
  unfold path
  simp [hpart]

theorem digits_line (n : Nat) : '\n' ∉ digits n := by
  intro h
  have hdigit := digits_isDigit h
  cases hdigit

theorem array_line {α : Type} {f : α → List Char} (h : ∀ a, '\n' ∉ f a) (l : List α) : '\n' ∉ array f l := by
  unfold array PrefixCode.joined
  cases l with
  | nil => simp
  | cons a l => simp [h]

theorem chunk_line (c : Chunk) : '\n' ∉ chunk c := by
  have hfield : ∀ name, '\n' ∉ field name := by
    intro name
    unfold field
    simp [text_line]
  have hurl : ∀ u, '\n' ∉ url u := by
    intro u
    cases u with
    | none => decide
    | some u => exact text_line u
  have hbytes : ∀ {n : Nat} (digest : Vector UInt8 n), '\n' ∉ bytes digest := fun digest => array_line digits_line _
  have hchecksum : ∀ d, '\n' ∉ checksum d := by
    intro d
    cases d <;> simp [checksum, hfield, hbytes]
  have hlocation : ∀ l, '\n' ∉ location l := by
    intro l
    unfold location
    simp [hfield, path_line, digits_line]
  unfold chunk
  simp [hfield, digits_line, text_line, hurl, hchecksum, array_line hlocation]

theorem chunk_last (c : Chunk) : ∃ front, chunk c = front ++ ['}'] := by
  have hlast : (chunk c).getLast? = some '}' := by
    unfold chunk
    simp [List.getLast?_append, List.getLast?_cons]
  exact List.getLast?_eq_some_iff.mp hlast

/-! ## In UTF-8 -/

theorem utf8_code : PrefixCode String.utf8EncodeChar := by
  intro a b r s heq
  have hbytes := congrArg List.toByteArray heq
  rw [List.toByteArray_append, List.toByteArray_append] at hbytes
  have hread := ByteArray.utf8DecodeChar?_utf8EncodeChar_append (b := r.toByteArray) (c := a)
  rw [hbytes, ByteArray.utf8DecodeChar?_utf8EncodeChar_append] at hread
  have hab := Option.some.inj hread
  subst hab
  exact ⟨rfl, List.append_cancel_left heq⟩

theorem high_byte {n : Nat} (hlow : 128 ≤ n) (hhigh : n < 256) : UInt8.ofNat n ≠ 10 := by
  intro h
  have htoNat := congrArg UInt8.toNat h
  rw [UInt8.toNat_ofNat', Nat.mod_eq_of_lt hhigh] at htoNat
  have hten : (10 : UInt8).toNat = 10 := rfl
  omega

/-- Only a line feed has the byte of a line feed in it. -/
theorem utf8_line {c : Char} (h : 10 ∈ String.utf8EncodeChar c) : c = '\n' := by
  unfold String.utf8EncodeChar at h
  simp only at h
  split at h
  · rename_i hsmall
    have hbyte := List.mem_singleton.mp h
    have htoNat := congrArg UInt8.toNat hbyte
    rw [UInt8.toNat_ofNat', Nat.mod_eq_of_lt (by omega)] at htoNat
    have hten : (10 : UInt8).toNat = '\n'.toNat := rfl
    exact Char.toNat_inj.mp (htoNat.symm.trans hten)
  · split at h
    · simp only [List.mem_cons, List.not_mem_nil, or_false] at h
      obtain h | h := h
      · exact absurd h.symm (high_byte (by omega) (by omega))
      · exact absurd h.symm (high_byte (by omega) (by omega))
    · split at h
      · simp only [List.mem_cons, List.not_mem_nil, or_false] at h
        obtain h | h | h := h
        · exact absurd h.symm (high_byte (by omega) (by omega))
        · exact absurd h.symm (high_byte (by omega) (by omega))
        · exact absurd h.symm (high_byte (by omega) (by omega))
      · simp only [List.mem_cons, List.not_mem_nil, or_false] at h
        obtain h | h | h | h := h
        · exact absurd h.symm (high_byte (by omega) (by omega))
        · exact absurd h.symm (high_byte (by omega) (by omega))
        · exact absurd h.symm (high_byte (by omega) (by omega))
        · exact absurd h.symm (high_byte (by omega) (by omega))

/-- The line of a chunk. -/
def chunkLine (c : Chunk) : List UInt8 := (chunk c).flatMap String.utf8EncodeChar

theorem chunkLine_code : PrefixCode chunkLine := chunk_code.flatMap utf8_code

theorem chunkLine_line (c : Chunk) : 10 ∉ chunkLine c := by
  intro h
  obtain ⟨d, hd, hten⟩ := List.mem_flatMap.mp h
  rw [utf8_line hten] at hd
  exact chunk_line c hd

/-- A chunk begins with a brace and a quote. -/
theorem chunkLine_length (c : Chunk) : 1 < (chunkLine c).length := by
  have hhead : ∃ rest, chunk c = '{' :: '"' :: rest := ⟨_, rfl⟩
  obtain ⟨rest, hrest⟩ := hhead
  have hlength : (chunkLine c).length = 1 + (1 + (rest.flatMap String.utf8EncodeChar).length) := by
    unfold chunkLine
    rw [hrest, List.flatMap_cons, List.flatMap_cons, List.length_append, List.length_append]
    rfl
  omega

theorem chunkLine_return (c : Chunk) : (chunkLine c).getLast? ≠ some 13 := by
  obtain ⟨front, hfront⟩ := chunk_last c
  have hline : chunkLine c = front.flatMap String.utf8EncodeChar ++ [125] := by
    unfold chunkLine
    rw [hfront, List.flatMap_append]
    rfl
  rw [hline, List.getLast?_concat]
  decide

end Json

/-- Chunks as lines of JSON. -/
noncomputable def jsonCodec : LineCodec Chunk :=
  LineLog.ofPrefixCode Json.chunkLine Json.chunkLine_code Json.chunkLine_line Json.chunkLine_return

end Blockvisor
