/-
A parameter that a plugin puts in a shell command. `sanitize_sh_param` puts it
in double quotes, lets through what is harmless there and refuses the rest.

What it returns is always one word, without an expansion and closed where it
ends (`sanitize_word`). But a line feed is written as a backslash and an `n`,
which double quotes do not read as an escape: the word has those two
characters. The word is the parameter exactly if there is no line feed in it.
-/
import Blockvisor.Lib.Shell

namespace Blockvisor
namespace ShParam

/-- What `char::is_alphanumeric` holds of. The letters and numbers of Unicode
depend on its version, those of ASCII do not. -/
structure Alphanumeric where
  isAlphanumeric : Char → Bool
  ascii : ∀ c, c.toNat < 128 → isAlphanumeric c = c.isAlphanum

variable (u : Alphanumeric)

/-- The special characters that need no escape. -/
def special : List Char := ['/', ':', '{', '}', ',', '-', '_', '.', ' ']

def escapeShChar (c : Char) : Except String String :=
  -- the quote that `render_config` has around its parameters
  if c = '\'' then .error s!"Very unsafe subsitution >:( {c}"
  else if u.isAlphanumeric c then .ok (String.singleton c)
  else if c = '"' then .ok "\\\""
  else if c = '\n' then .ok "\\n"
  else if c ∈ special then .ok (String.singleton c)
  else .error s!"Shell unsafe character detected: {c}"

def sanitizeShParam (param : String) : Except String String := do
  let escaped ← param.toList.mapM (escapeShChar u)
  return "\"" ++ String.join escaped ++ "\""

/-- The characters that a parameter may have. -/
def Allowed (c : Char) : Prop := u.isAlphanumeric c = true ∨ c = '"' ∨ c = '\n' ∨ c ∈ special

instance (c : Char) : Decidable (Allowed u c) := inferInstanceAs (Decidable (_ ∨ _ ∨ _ ∨ _))

/-- The letters and numbers of ASCII only. -/
def asciiOnly : Alphanumeric := ⟨Char.isAlphanum, fun _ _ => rfl⟩

variable {u}

/-! ## What is accepted -/

theorem ascii_not_alphanumeric {c : Char} (hascii : c.toNat < 128) (h : c.isAlphanum = false) :
    u.isAlphanumeric c = false := by
  rw [u.ascii c hascii, h]

theorem alphanumeric_inert {c : Char} (h : u.isAlphanumeric c = true) : Shell.escapable c = false := by
  by_cases hc : Shell.escapable c = true
  · have hno : u.isAlphanumeric c = false := by
      simp only [Shell.escapable, Bool.or_eq_true, decide_eq_true_eq] at hc
      obtain ((hc | hc) | hc) | hc := hc <;> subst hc <;> exact ascii_not_alphanumeric (by decide) (by decide)
    rw [h] at hno
    cases hno
  · simpa using hc

theorem special_inert : ∀ c ∈ special, Shell.escapable c = false := by
  have hall : (special.all fun c => !Shell.escapable c) = true := by decide
  intro c hc
  simpa using List.all_eq_true.mp hall c hc

theorem quote_not_allowed : ¬ Allowed u '\'' := by
  have h : u.isAlphanumeric '\'' = false := ascii_not_alphanumeric (by decide) (by decide)
  unfold Allowed
  rw [h]
  decide

/-- What a character is written as. -/
def written (c : Char) : List Char := if c = '"' then ['\\', '"'] else if c = '\n' then ['\\', 'n'] else [c]

/-- What the shell reads there. -/
def reading (c : Char) : List Char := if c = '\n' then ['\\', 'n'] else [c]

theorem escapeShChar_eq (c : Char) :
    (Allowed u c → escapeShChar u c = .ok (String.ofList (written c))) ∧
      (¬ Allowed u c → ∃ message, escapeShChar u c = .error message) := by
  unfold escapeShChar
  by_cases hquote : c = '\''
  · subst hquote
    rw [if_pos rfl]
    exact ⟨fun h => absurd h quote_not_allowed, fun _ => ⟨_, rfl⟩⟩
  rw [if_neg hquote]
  by_cases halpha : u.isAlphanumeric c = true
  · rw [if_pos halpha]
    have hd : c ≠ '"' := by
      intro hd
      subst hd
      exact absurd (alphanumeric_inert halpha) (by decide)
    have hn : c ≠ '\n' := by
      intro hn
      subst hn
      rw [ascii_not_alphanumeric (by decide) (by decide)] at halpha
      cases halpha
    refine ⟨fun _ => ?_, fun h => absurd (.inl halpha) h⟩
    unfold written
    rw [if_neg hd, if_neg hn, String.singleton_eq_ofList]
  rw [if_neg halpha]
  by_cases hd : c = '"'
  · subst hd
    exact ⟨fun _ => rfl, fun h => absurd (.inr (.inl rfl)) h⟩
  rw [if_neg hd]
  by_cases hn : c = '\n'
  · subst hn
    exact ⟨fun _ => rfl, fun h => absurd (.inr (.inr (.inl rfl))) h⟩
  rw [if_neg hn]
  by_cases hs : c ∈ special
  · rw [if_pos hs]
    refine ⟨fun _ => ?_, fun h => absurd (.inr (.inr (.inr hs))) h⟩
    unfold written
    rw [if_neg hd, if_neg hn, String.singleton_eq_ofList]
  rw [if_neg hs]
  refine ⟨fun h => ?_, fun _ => ⟨_, rfl⟩⟩
  obtain h | h | h | h := h
  · exact absurd h halpha
  · exact absurd h hd
  · exact absurd h hn
  · exact absurd h hs

theorem mapM_escapeShChar (param : List Char) (out : List String) :
    param.mapM (escapeShChar u) = .ok out ↔
      (∀ c ∈ param, Allowed u c) ∧ out = param.map fun c => String.ofList (written c) := by
  induction param generalizing out with
  | nil =>
    simp only [List.mapM_nil, List.not_mem_nil, false_implies, implies_true, true_and, List.map_nil]
    exact ⟨fun h => (Except.ok.inj h).symm, fun h => by rw [h]; rfl⟩
  | cons c param ih =>
    rw [List.mapM_cons]
    by_cases hc : Allowed u c
    · rw [(escapeShChar_eq c).1 hc]
      cases hrest : param.mapM (escapeShChar u) with
      | error message =>
        have hno : ¬ ∀ d ∈ param, Allowed u d := by
          intro hall
          rw [(ih _).mpr ⟨hall, rfl⟩] at hrest
          cases hrest
        exact ⟨fun h => (by cases h), fun h => absurd (fun d hd => h.1 d (List.mem_cons_of_mem c hd)) hno⟩
      | ok more =>
        obtain ⟨hall, hmore⟩ := (ih more).mp hrest
        subst hmore
        constructor
        · intro h
          have hout := Except.ok.inj h
          exact ⟨List.forall_mem_cons.mpr ⟨hc, hall⟩, hout.symm⟩
        · intro h
          rw [h.2]
          rfl
    · obtain ⟨message, hmessage⟩ := (escapeShChar_eq c).2 hc
      rw [hmessage]
      exact ⟨fun h => (by cases h), fun h => absurd (h.1 c (List.mem_cons_self ..)) hc⟩

theorem toList_join (param : List Char) :
    (String.join (param.map fun c => String.ofList (written c))).toList = param.flatMap written := by
  induction param with
  | nil => rfl
  | cons c param ih =>
    rw [List.map_cons, String.join_cons, String.toList_append, ih, List.flatMap_cons, String.toList_ofList]

/-- **A parameter is accepted** exactly if all its characters are allowed, and
is then each of them as it is written, between quotes. -/
theorem sanitizeShParam_ok {param text : String} :
    sanitizeShParam u param = .ok text ↔
      (∀ c ∈ param.toList, Allowed u c) ∧ text.toList = '"' :: (param.toList.flatMap written ++ ['"']) := by
  have htext : ("\"" ++ String.join (param.toList.map fun c => String.ofList (written c)) ++ "\"").toList =
      '"' :: (param.toList.flatMap written ++ ['"']) := by
    rw [String.toList_append, String.toList_append, toList_join]
    rfl
  unfold sanitizeShParam
  cases hescaped : param.toList.mapM (escapeShChar u) with
  | error message =>
    have hno : ¬ ∀ c ∈ param.toList, Allowed u c := by
      intro hall
      rw [(mapM_escapeShChar _ _).mpr ⟨hall, rfl⟩] at hescaped
      cases hescaped
    exact ⟨fun h => (by cases h), fun h => absurd h.1 hno⟩
  | ok escaped =>
    obtain ⟨hall, hwritten⟩ := (mapM_escapeShChar _ _).mp hescaped
    subst hwritten
    constructor
    · intro h
      have hreturned := Except.ok.inj h
      exact ⟨hall, by rw [← hreturned, htext]⟩
    · intro h
      have hsame := String.toList_injective (h.2.trans htext.symm)
      rw [hsame]
      rfl

/-! ## What the shell reads -/

theorem quoted_written {c : Char} (h : Allowed u c) (rest : List Char) :
    Shell.quoted (written c ++ rest) = (Shell.quoted rest).map fun read => (reading c ++ read.1, read.2) := by
  unfold written reading
  by_cases hd : c = '"'
  · subst hd
    exact Shell.quoted_escape (by decide) rest
  rw [if_neg hd]
  by_cases hn : c = '\n'
  · subst hn
    exact Shell.quoted_backslash (by decide) (by decide) rest
  rw [if_neg hn]
  have hinert : Shell.escapable c = false := by
    obtain h | h | h | h := h
    · exact alphanumeric_inert h
    · exact absurd h hd
    · exact absurd h hn
    · exact special_inert c h
  exact Shell.quoted_literal hinert rest

/-- **What is returned is one word**: the shell reads it to its closing quote,
without an expansion, whatever comes behind it. -/
theorem sanitize_word {param text : String} (h : sanitizeShParam u param = .ok text) (rest : List Char) :
    ∃ body, text.toList ++ rest = '"' :: body ∧ Shell.quoted body = some (param.toList.flatMap reading, rest) := by
  obtain ⟨hallowed, htext⟩ := sanitizeShParam_ok.mp h
  refine ⟨param.toList.flatMap written ++ '"' :: rest, by rw [htext]; simp, ?_⟩
  exact Shell.quoted_flatMap (fun c hc => quoted_written (hallowed c hc)) rest

theorem reading_length (c : Char) : (reading c).length = if c = '\n' then 2 else 1 := by
  unfold reading
  split <;> rfl

/-- Each line feed makes what is read longer. -/
theorem flatMap_reading_length (param : List Char) :
    (param.flatMap reading).length = param.length + param.count '\n' := by
  induction param with
  | nil => rfl
  | cons c param ih =>
    rw [List.flatMap_cons, List.length_append, ih, reading_length, List.length_cons, List.count_cons]
    by_cases hc : c = '\n'
    · subst hc
      simp
      omega
    · simp [hc]
      omega

theorem reading_eq_iff (param : List Char) : param.flatMap reading = param ↔ '\n' ∉ param := by
  constructor
  · intro h
    have hlength := flatMap_reading_length param
    rw [h] at hlength
    exact List.count_eq_zero.mp (by omega)
  · intro h
    induction param with
    | nil => rfl
    | cons c param ih =>
      have hc : c ≠ '\n' := fun hc => h (by rw [hc]; exact List.mem_cons_self ..)
      rw [List.flatMap_cons, ih fun hparam => h (List.mem_cons_of_mem c hparam)]
      unfold reading
      rw [if_neg hc, List.singleton_append]

/-- **A parameter comes through**: whenever it is accepted, the shell reads one
word that is the parameter. It does exactly if there is no line feed in it, or
a character that is refused. -/
theorem sanitizeShParam_faithful_iff (u : Alphanumeric) (param : String) :
    (∀ text, sanitizeShParam u param = .ok text → Shell.word text.toList = some param.toList) ↔
      ('\n' ∈ param.toList → ∃ c ∈ param.toList, ¬ Allowed u c) := by
  have hword : ∀ text, sanitizeShParam u param = .ok text →
      Shell.word text.toList = some (param.toList.flatMap reading) := by
    intro text h
    obtain ⟨body, htext, hbody⟩ := sanitize_word h []
    rw [List.append_nil] at htext
    rw [htext]
    exact Shell.word_quoted hbody
  constructor
  · intro hfaithful hline
    by_cases hall : ∀ c ∈ param.toList, Allowed u c
    · have hok := sanitizeShParam_ok.mpr ⟨hall, String.toList_ofList⟩
      have hread := Option.some.inj ((hword _ hok).symm.trans (hfaithful _ hok))
      exact absurd hline ((reading_eq_iff _).mp hread)
    · simpa using hall
  · intro hcond text h
    rw [hword text h]
    congr 1
    refine (reading_eq_iff _).mpr fun hline => ?_
    obtain ⟨c, hc, hrefused⟩ := hcond hline
    exact hrefused ((sanitizeShParam_ok.mp h).1 c hc)

/-- Two lines come out as one, with a backslash and an `n` between them. -/
theorem sanitizeShParam_not_faithful :
    ¬ ∀ (u : Alphanumeric) (param text : String), sanitizeShParam u param = .ok text →
      Shell.word text.toList = some param.toList := by
  intro h
  have hread := h asciiOnly "a\nb" "\"a\\nb\"" (by decide)
  revert hread
  decide

end ShParam
end Blockvisor
