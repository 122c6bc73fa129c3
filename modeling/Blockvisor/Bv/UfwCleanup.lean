/-
How the firewall rules of a node are replaced (`apply_firewall_config`): all
the new ones are tried first, then those of the node that `ufw` lists are
deleted, by their numbers and from the last to the first, and then the new
ones are added. A rule is taken for one of the node if the line that shows it
has the node's id in it, be it the one that the comment begins with or not.

`Serves` is what `ufw` does for these commands: it lists its rules, deletes one
by its number, or fails and changes nothing. `cleanup_exact` says what the
cleanup deletes, and when that are the rules of the node.
-/
import Blockvisor.Bv.UfwWrapper
import Blockvisor.Lib.Script
import Blockvisor.Lib.Text

namespace Blockvisor

open Script Text

/-- A program that runs `ufw` with arguments, and gets what it prints. -/
abbrev UfwM := Script (fun _ : List String => Except String String) String

namespace UfwRunner

def run (args : List String) : UfwM String := .call args .done

/-- The number of a rule, if the line shows a rule of the node. -/
def ruleNumber (nodeId line : String) : Option Nat :=
  if hasText line nodeId then
    match splitOnce line ']' with
    | some (number, _) => parseUsize (trim (trimStartMatches number '['))
    | none => none
  else none

def deleteRule (rule : Nat) : UfwM Unit := do
  let _ ← run ["--force", "delete", toString rule]

def cleanupNodeRulesWith (nodeId : String) : UfwM Unit := do
  let stdout ← run ["status", "numbered"]
  let rules := ((lines stdout).filterMap (ruleNumber nodeId)).mergeSort
  rules.reverse.forM deleteRule

def dryRun (args : List String) : UfwM Unit := do
  let _ ← run ("--dry-run" :: args)

def addRule (args : List String) : UfwM Unit := do
  let _ ← run args

def applyFirewallConfigWith (config : NodeFirewallConfig) : UfwM Unit := do
  config.commands.forM dryRun
  cleanupNodeRulesWith config.id
  config.commands.forM addRule

/-! ## What `ufw` does -/

/-- A rule as `ufw` shows it: on one line, with its comment at the end. -/
structure Shown where
  ends : String
  comment : Option String
  oneLine : '\n' ∉ ends.toList ∧ '\n' ∉ (comment.getD "").toList
  noReturn : (comment.getD ends).toList.getLast? ≠ some '\r'

namespace Shown

def text (rule : Shown) : String :=
  match rule.comment with
  | some comment => rule.ends ++ " # " ++ comment
  | none => rule.ends

/-- The rules of a node have its id in front of their name, in the comment. -/
def ofNode (nodeId : String) (rule : Shown) : Bool :=
  match rule.comment with
  | some comment => (nodeId ++ " ").toList <+: comment.toList
  | none => false

end Shown

/-- The rules of `ufw`, and those that were deleted; no computer has room for more. -/
structure Rules where
  kept : List Shown
  deleted : List Shown
  room : kept.length < 2 ^ 64

def pad (n : Nat) : String := if n < 10 then " " ++ toString n else toString n

def numbered (rule : Shown × Nat) : String := "[" ++ pad rule.2 ++ "] " ++ rule.1.text

def header : List String :=
  ["Status: active", "", "     To                         Action      From", "     --                         ------      ----"]

/-- What `status numbered` prints. -/
def listing (rules : List Shown) : String := unlines (header ++ (rules.zipIdx 1).map numbered)

def Rules.delete (rules : Rules) (i : Nat) (h : i < rules.kept.length) : Rules where
  kept := rules.kept.eraseIdx i
  deleted := rules.deleted ++ [rules.kept.get ⟨i, h⟩]
  room := Nat.lt_of_le_of_lt (List.length_eraseIdx_le _ _) rules.room

/-- `ufw` answers the commands, each from the rules that it has then. -/
inductive Serves : Rules → Log (fun _ : List String => Except String String) → Rules → Prop
  | nil (rules : Rules) : Serves rules [] rules
  | fails {rules rules' : Rules} {log} (args : List String) (err : String) (h : Serves rules log rules') :
    Serves rules (⟨args, .error err⟩ :: log) rules'
  | status {rules rules' : Rules} {log} (h : Serves rules log rules') :
    Serves rules (⟨["status", "numbered"], .ok (listing rules.kept)⟩ :: log) rules'
  | delete {rules rules' : Rules} {log} (i : Nat) (hi : i < rules.kept.length) (out : String)
    (h : Serves (rules.delete i hi) log rules') :
    Serves rules (⟨["--force", "delete", toString (i + 1)], .ok out⟩ :: log) rules'

/-! ## The listing -/

/-- The id of a node as text: hexadecimal digits and hyphens. -/
structure Uuid where
  text : String
  hyphen : '-' ∈ text.toList
  chars : ∀ c ∈ text.toList, c = '-' ∨ c.isAlphanum = true

namespace Uuid

variable (id : Uuid)

theorem not_mem {c : Char} (h : c ≠ '-' ∧ c.isAlphanum = false) : c ∉ id.text.toList := by
  intro hc
  cases id.chars c hc with
  | inl heq => exact h.1 heq
  | inr halphanum => simp [h.2] at halphanum

theorem ne_empty : id.text ≠ "" := by
  intro h
  have hhyphen := id.hyphen
  simp [h] at hhyphen

end Uuid

theorem pad_toList (n : Nat) : (pad n).toList = (if n < 10 then [' '] else []) ++ (toString n).toList := by
  unfold pad
  split <;> simp

theorem pad_chars {n : Nat} {c : Char} (h : c ∈ (pad n).toList) : c = ' ' ∨ c.isDigit = true := by
  rw [pad_toList, List.mem_append] at h
  cases h with
  | inl h =>
    left
    split at h
    · simpa using h
    · cases h
  | inr h => exact .inr (isDigit_toString c h)

theorem numbered_toList (rule : Shown) (n : Nat) :
    (numbered (rule, n)).toList = ('[' :: (pad n).toList) ++ ']' :: ' ' :: rule.text.toList := by
  simp [numbered]

theorem notMem_number {n : Nat} {c : Char} (h : c ≠ '[' ∧ c ≠ ' ' ∧ c.isDigit = false) : c ∉ '[' :: (pad n).toList := by
  intro hc
  cases List.mem_cons.mp hc with
  | inl heq => exact h.1 heq
  | inr hpad =>
    cases pad_chars hpad with
    | inl hspace => exact h.2.1 hspace
    | inr hdigit => simp [h.2.2] at hdigit

theorem toString_not_white {n : Nat} : ∀ c ∈ (toString n).toList, isWhite c = false := by
  intro c hc
  have hdigit := isDigit_toString c hc
  simp only [Char.isDigit, Bool.and_eq_true, decide_eq_true_eq] at hdigit
  have hlow : 48 ≤ c.toNat := hdigit.1
  have hhigh : c.toNat ≤ 57 := hdigit.2
  have hwhite : c.isWhitespace = false := by
    simp only [Char.isWhitespace, Bool.or_eq_false_iff, decide_eq_false_iff_not]
    refine ⟨⟨⟨?_, ?_⟩, ?_⟩, ?_⟩ <;> (intro heq; subst heq; revert hlow; decide)
  have hother : ∀ n ∈ [0x0b, 0x0c, 0x85, 0xa0, 0x1680, 0x2028, 0x2029, 0x202f, 0x205f, 0x3000], c.toNat ≠ n := by
    intro n hn heq
    subst heq
    simp at hn
    omega
  have hnot : c.toNat ∉ [0x0b, 0x0c, 0x85, 0xa0, 0x1680, 0x2028, 0x2029, 0x202f, 0x205f, 0x3000] := fun hmem => hother _ hmem rfl
  simp only [isWhite, hwhite, Bool.false_or, Bool.or_eq_false_iff, decide_eq_false_iff_not, Bool.and_eq_false_iff]
  exact ⟨by simpa using hnot, .inl (by omega)⟩

/-- A number is what is left of itself in brackets, with a blank before it or not. -/
theorem trim_number (n : Nat) : trim (trimStartMatches (String.ofList ('[' :: (pad n).toList)) '[') = toString n := by
  have hstart : trimStartMatches (String.ofList ('[' :: (pad n).toList)) '[' = pad n := by
    have hdrop : (pad n).toList.dropWhile (fun c => decide (c = '[')) = (pad n).toList := by
      rw [List.dropWhile_eq_self_iff]
      intro hlen
      have hmem : (pad n).toList[0] ∈ (pad n).toList := List.getElem_mem hlen
      cases pad_chars hmem with
      | inl hspace => rw [hspace]; decide
      | inr hdigit =>
        intro heq
        rw [of_decide_eq_true heq] at hdigit
        revert hdigit
        decide
    simp [trimStartMatches, hdrop]
  have hkeep : ∀ cs : List Char, (∀ c ∈ cs, isWhite c = false) → cs.dropWhile isWhite = cs := by
    intro cs hcs
    rw [List.dropWhile_eq_self_iff]
    intro hlen
    simp [hcs _ (List.getElem_mem hlen)]
  have hfront : (pad n).toList.dropWhile isWhite = (toString n).toList := by
    rw [pad_toList]
    split
    · rw [List.singleton_append, List.dropWhile_cons_of_pos (by decide)]
      exact hkeep _ toString_not_white
    · exact hkeep _ toString_not_white
  rw [hstart]
  unfold trim
  rw [hfront, hkeep _ fun c hc => toString_not_white c (List.mem_reverse.mp hc), List.reverse_reverse]
  exact String.ofList_toList

/-- **The line of a rule gives its number** if its text has the id in it. -/
theorem ruleNumber_numbered (id : Uuid) (rule : Shown) {n : Nat} (hn : n < 2 ^ 64) :
    ruleNumber id.text (numbered (rule, n)) = if hasText rule.text id.text then some n else none := by
  have hhas : hasText (numbered (rule, n)) id.text = hasText rule.text id.text := by
    unfold hasText
    rw [decide_eq_decide, numbered_toList]
    constructor
    · intro h
      have hnumber : ¬ id.text.toList <:+: '[' :: (pad n).toList := fun h =>
        notMem_number (n := n) (c := '-') (by decide) (h.subset id.hyphen)
      have hnil : ¬ id.text.toList <:+: ([] : List Char) := fun h => by
        have hmem := h.subset id.hyphen
        cases hmem
      have hrest := (infix_of_separated h (id.not_mem (by decide))).resolve_left hnumber
      have hparts : id.text.toList <:+: [] ∨ id.text.toList <:+: rule.text.toList :=
        infix_of_separated hrest (id.not_mem (by decide))
      exact hparts.resolve_left hnil
    · intro h
      have hspaced : id.text.toList <:+: [] ++ ' ' :: rule.text.toList := infix_separated (.inr h)
      exact infix_separated (.inr hspaced)
  have hsplit : splitOnce (numbered (rule, n)) ']' = some (String.ofList ('[' :: (pad n).toList), String.ofList (' ' :: rule.text.toList)) := by
    have hall : ∀ c ∈ '[' :: (pad n).toList, decide (c ≠ ']') = true := by
      intro c hc
      exact decide_eq_true fun heq => notMem_number (n := n) (c := ']') (by decide) (heq ▸ hc)
    unfold splitOnce
    rw [numbered_toList, List.dropWhile_append_of_pos hall, List.takeWhile_append_of_pos hall,
      List.dropWhile_cons_of_neg (by simp), List.takeWhile_cons_of_neg (by simp), List.append_nil]
  unfold ruleNumber
  rw [hhas, hsplit]
  simp only [trim_number, parseUsize_toString hn]

/-- The numbers of the rules for which something holds. -/
def numbersOf (p : Shown → Bool) (rules : List Shown) : List Nat :=
  (rules.zipIdx 1).filterMap fun rule => if p rule.1 then some rule.2 else none

theorem numbersOf_append (p : Shown → Bool) (rules : List Shown) (rule : Shown) :
    numbersOf p (rules ++ [rule]) = numbersOf p rules ++ if p rule then [rules.length + 1] else [] := by
  unfold numbersOf
  rw [List.zipIdx_append, List.filterMap_append]
  by_cases h : p rule <;> simp [h, Nat.add_comm]

theorem numbersOf_sorted (p : Shown → Bool) (rules : List Shown) :
    (numbersOf p rules).Pairwise (fun n m => decide (n ≤ m) = true) ∧ ∀ n ∈ numbersOf p rules, n ≤ rules.length := by
  induction rules using List.reverseRecOn with
  | nil => simp [numbersOf]
  | append_singleton rules rule ih =>
    rw [numbersOf_append]
    by_cases h : p rule
    · simp only [h, if_true, List.pairwise_append, List.length_append, List.length_singleton]
      refine ⟨⟨ih.1, by simp, fun n hn m hm => ?_⟩, fun n hn => ?_⟩
      · have hbound := ih.2 n hn
        rw [List.mem_singleton.mp hm]
        simp
        omega
      · simp only [List.mem_append, List.mem_singleton] at hn
        rcases hn with hn | hn
        · have hbound := ih.2 n hn
          omega
        · omega
    · simp only [h, Bool.false_eq_true, if_false, List.append_nil, List.length_append, List.length_singleton]
      exact ⟨ih.1, fun n hn => by have hbound := ih.2 n hn; omega⟩

theorem text_oneLine (rule : Shown) : '\n' ∉ rule.text.toList := by
  obtain ⟨ends, comment, honeLine, -⟩ := rule
  cases comment with
  | none => exact honeLine.1
  | some comment =>
    have hcomment : '\n' ∉ comment.toList := honeLine.2
    simp [Shown.text, honeLine.1, hcomment]

theorem text_noReturn (rule : Shown) : (' ' :: rule.text.toList).getLast? ≠ some '\r' := by
  obtain ⟨ends, comment, -, hreturn⟩ := rule
  have hlast : ∀ {c : Char} {cs ds : List Char}, c ≠ '\r' → ds.getLast? ≠ some '\r' → (cs ++ c :: ds).getLast? ≠ some '\r' := by
    intro c cs ds hc hds
    rw [List.getLast?_append_cons]
    cases ds with
    | nil => simpa using hc
    | cons d ds => simpa using hds
  cases comment with
  | none => exact @hlast ' ' [] ends.toList (by decide) hreturn
  | some comment =>
    have heq : ' ' :: (ends ++ " # " ++ comment).toList = (' ' :: ends.toList ++ [' ', '#']) ++ ' ' :: comment.toList := by simp
    show (' ' :: (ends ++ " # " ++ comment).toList).getLast? ≠ _
    rw [heq]
    exact hlast (by decide) hreturn

/-- **The rules that are taken for the node's.** -/
theorem rules_listed (id : Uuid) {rules : List Shown} (h : rules.length < 2 ^ 64) :
    ((lines (listing rules)).filterMap (ruleNumber id.text)).mergeSort = numbersOf (fun rule => hasText rule.text id.text) rules := by
  have hlines : lines (listing rules) = header ++ (rules.zipIdx 1).map numbered := by
    refine lines_unlines fun l hl => ?_
    cases List.mem_append.mp hl with
    | inl hheader =>
      clear hl
      revert l
      decide
    | inr hrule =>
      obtain ⟨⟨rule, n⟩, -, heq⟩ := List.mem_map.mp hrule
      rw [← heq, numbered_toList]
      refine ⟨fun hmem => ?_, ?_⟩
      · cases List.mem_append.mp hmem with
        | inl hnumber => exact notMem_number (by decide) hnumber
        | inr hrest =>
          simp only [List.mem_cons] at hrest
          rcases hrest with hrest | hrest | hrest
          · exact absurd hrest (by decide)
          · exact absurd hrest (by decide)
          · exact text_oneLine rule hrest
      · rw [List.getLast?_append_cons, List.getLast?_cons_cons]
        exact text_noReturn rule
  have hheader : header.filterMap (ruleNumber id.text) = [] := by
    rw [List.filterMap_eq_nil_iff]
    intro l hl
    have hsplit : splitOnce l ']' = none := by
      revert l
      decide
    unfold ruleNumber
    rw [hsplit]
    split <;> rfl
  have hrules : ((rules.zipIdx 1).map numbered).filterMap (ruleNumber id.text) = numbersOf (fun rule => hasText rule.text id.text) rules := by
    rw [List.filterMap_map]
    refine List.filterMap_congr fun rule hrule => ?_
    have hbound := List.snd_lt_of_mem_zipIdx hrule
    exact ruleNumber_numbered id rule.1 (by omega)
  rw [hlines, List.filterMap_append, hheader, List.nil_append, hrules]
  exact List.mergeSort_of_pairwise (numbersOf_sorted _ rules).1

/-! ## The deletions -/

/-- A command was answered in one of these ways. -/
theorem Serves.cons {rules rules' : Rules} {args : List String} {reply : Except String String} {log}
    (h : Serves rules (⟨args, reply⟩ :: log) rules') :
    (∃ err, reply = .error err ∧ Serves rules log rules') ∨
      (args = ["status", "numbered"] ∧ reply = .ok (listing rules.kept) ∧ Serves rules log rules') ∨
      ∃ i hi out, args = ["--force", "delete", toString (i + 1)] ∧ reply = .ok out ∧ Serves (rules.delete i hi) log rules' := by
  generalize hcall : (⟨args, reply⟩ : Sigma fun _ : List String => Except String String) = call at h
  have hargs := congrArg Sigma.fst hcall
  have hreply := congrArg (fun call : Sigma fun _ : List String => Except String String => call.snd) hcall
  cases h with
  | fails args' err h => exact .inl ⟨err, hreply, h⟩
  | status h => exact .inr (.inl ⟨hargs, hreply, h⟩)
  | delete i hi out h => exact .inr (.inr ⟨i, hi, out, hargs, hreply, h⟩)

theorem Serves.deleted {rules rules' : Rules} {n : Nat} {reply : Except String String} {log}
    (h : Serves rules (⟨["--force", "delete", toString n], reply⟩ :: log) rules') :
    (∃ err, reply = .error err ∧ Serves rules log rules') ∨
      ∃ i hi out, n = i + 1 ∧ reply = .ok out ∧ Serves (rules.delete i hi) log rules' := by
  rcases h.cons with hfails | hstatus | hdelete
  · exact .inl hfails
  · simp at hstatus
  · obtain ⟨i, hi, out, hargs, hreply, hserves⟩ := hdelete
    simp only [List.cons.injEq, true_and, and_true] at hargs
    exact .inr ⟨i, hi, out, toString_inj hargs, hreply, hserves⟩

theorem Serves.listed {rules rules' : Rules} {reply : Except String String} {log}
    (h : Serves rules (⟨["status", "numbered"], reply⟩ :: log) rules') :
    (∃ err, reply = .error err ∧ Serves rules log rules') ∨ (reply = .ok (listing rules.kept) ∧ Serves rules log rules') := by
  rcases h.cons with hfails | hstatus | hdelete
  · exact .inl hfails
  · exact .inr hstatus.2
  · obtain ⟨i, hi, out, hargs, -⟩ := hdelete
    simp at hargs

theorem Serves.end {rules rules' : Rules} (h : Serves rules [] rules') : rules' = rules := by
  cases h
  rfl

/-- The last of some rules is deleted. -/
theorem delete_last {rules : Rules} {front ys : List Shown} {rule : Shown} (hkept : rules.kept = front ++ rule :: ys)
    {i : Nat} (hi : i < rules.kept.length) (hlast : i = front.length) :
    (rules.delete i hi).kept = front ++ ys ∧ (rules.delete i hi).deleted = rules.deleted ++ [rule] := by
  subst hlast
  constructor
  · show rules.kept.eraseIdx front.length = _
    rw [hkept, List.eraseIdx_append_of_length_le (Nat.le_refl _)]
    simp
  · show rules.deleted ++ [rules.kept.get ⟨front.length, hi⟩] = _
    simp [hkept]

/-- **The loop of the deletions**: each number still means its rule when it is used, since the rules before it
are as they were. -/
theorem deletions (p : Shown → Bool) (xs : List Shown) :
    ∀ {ys : List Shown} {rules rules' : Rules} {log} {r : Except String Unit}, rules.kept = xs ++ ys →
      Runs ((numbersOf p xs).reverse.forM deleteRule) log r → Serves rules log rules' →
      ∃ front back, xs = front ++ back ∧ rules'.kept = front ++ (back.filter (fun rule => !p rule) ++ ys) ∧
        rules'.deleted = rules.deleted ++ (back.filter p).reverse ∧ (r = .ok () → front = []) := by
  induction xs using List.reverseRecOn with
  | nil =>
    intro ys rules rules' log r hkept hrun hserves
    obtain ⟨hlog, -⟩ := hrun.pure
    subst hlog
    rw [hserves.end]
    exact ⟨[], [], rfl, hkept, by simp, fun _ => rfl⟩
  | append_singleton xs rule ih =>
    intro ys rules rules' log r hkept hrun hserves
    rw [List.append_assoc, List.singleton_append] at hkept
    rw [numbersOf_append] at hrun
    by_cases h : p rule
    · simp only [h, if_true, List.reverse_append, List.reverse_cons, List.reverse_nil, List.nil_append,
        List.singleton_append] at hrun
      have hrun : Runs (Script.bind (fun _ => (numbersOf p xs).reverse.forM deleteRule) (deleteRule (xs.length + 1))) log r := hrun
      cases hrun with
      | call reply hrest =>
        cases hserves.deleted with
        | inl hfails =>
          obtain ⟨err, heq, hserves'⟩ := hfails
          subst heq
          cases hrest
          rw [hserves'.end, hkept]
          exact ⟨xs ++ [rule], [], by simp, by simp, by simp, fun hok => by cases hok⟩
        | inr hdelete =>
          obtain ⟨i, hi, out, hnumber, heq, hserves'⟩ := hdelete
          subst heq
          obtain ⟨hleft, hgone⟩ := delete_last hkept hi (by omega)
          obtain ⟨front, back, hxs, hkept', hdeleted, hok⟩ := ih hleft hrest hserves'
          refine ⟨front, back ++ [rule], by simp [hxs], ?_, ?_, hok⟩
          · simp [hkept', h]
          · simp [hdeleted, hgone, h]
    · simp only [h, Bool.false_eq_true, if_false, List.append_nil] at hrun
      obtain ⟨front, back, hxs, hkept', hdeleted, hok⟩ := ih hkept hrun hserves
      refine ⟨front, back ++ [rule], by simp [hxs], ?_, ?_, hok⟩
      · simp [hkept', h]
      · simp [hdeleted, h]

/-- What a cleanup does to the rules: it deletes some that are taken for the node's, beginning with the last,
and when it returns all of them. -/
theorem cleanup_deletes (id : Uuid) {rules rules' : Rules} {log} {r : Except String Unit}
    (hrun : Runs (cleanupNodeRulesWith id.text) log r) (hserves : Serves rules log rules') :
    ∃ front back, rules.kept = front ++ back ∧ rules'.kept = front ++ back.filter (fun rule => !hasText rule.text id.text) ∧
      rules'.deleted = rules.deleted ++ (back.filter fun rule => hasText rule.text id.text).reverse ∧ (r = .ok () → front = []) := by
  have hrun : Runs (Script.bind (fun stdout =>
      (((lines stdout).filterMap (ruleNumber id.text)).mergeSort).reverse.forM deleteRule) (run ["status", "numbered"])) log r := hrun
  cases hrun with
  | call reply hrest =>
    cases hserves.listed with
    | inl hfails =>
      obtain ⟨err, heq, hserves'⟩ := hfails
      subst heq
      cases hrest
      rw [hserves'.end]
      exact ⟨rules.kept, [], by simp, by simp, by simp, fun hok => by cases hok⟩
    | inr hlisted =>
      obtain ⟨heq, hserves'⟩ := hlisted
      subst heq
      have hloop : Runs ((((lines (listing rules.kept)).filterMap (ruleNumber id.text)).mergeSort).reverse.forM deleteRule) _ r := hrest
      rw [rules_listed id rules.room] at hloop
      have hkept : rules.kept = rules.kept ++ [] := (List.append_nil _).symm
      have hdone := deletions _ rules.kept hkept hloop hserves'
      simpa using hdone

/-- `ufw` that never fails serves a cleanup to its end. -/
theorem deletions_run (p : Shown → Bool) (xs : List Shown) : ∀ {ys : List Shown} {rules : Rules}, rules.kept = xs ++ ys →
    ∃ log rules', Runs ((numbersOf p xs).reverse.forM deleteRule) log (.ok ()) ∧ Serves rules log rules' := by
  induction xs using List.reverseRecOn with
  | nil => exact fun {ys rules} _ => ⟨[], rules, .done _, .nil rules⟩
  | append_singleton xs rule ih =>
    intro ys rules hkept
    rw [List.append_assoc, List.singleton_append] at hkept
    rw [numbersOf_append]
    by_cases h : p rule
    · have hi : xs.length < rules.kept.length := by simp [hkept]
      obtain ⟨log, rules', hrun, hserves⟩ := ih (delete_last hkept hi rfl).1
      simp only [h, if_true, List.reverse_append, List.reverse_cons, List.reverse_nil, List.nil_append, List.singleton_append]
      have hcall : Runs (Script.bind (fun _ => (numbersOf p xs).reverse.forM deleteRule) (deleteRule (xs.length + 1)))
          (⟨["--force", "delete", toString (xs.length + 1)], .ok ""⟩ :: log) (.ok ()) := by
        exact @Runs.call (List String) (fun _ => Except String String) _ _ _ _ _ _ (.ok "") hrun
      exact ⟨_, rules', hcall, .delete xs.length hi "" hserves⟩
    · simp only [h, Bool.false_eq_true, if_false, List.append_nil]
      exact ih hkept

theorem cleanup_run (id : Uuid) (rules : Rules) :
    ∃ log rules', Runs (cleanupNodeRulesWith id.text) log (.ok ()) ∧ Serves rules log rules' := by
  have hkept : rules.kept = rules.kept ++ [] := (List.append_nil _).symm
  obtain ⟨log, rules', hrun, hserves⟩ := deletions_run (fun rule => hasText rule.text id.text) rules.kept hkept
  rw [← rules_listed id rules.room] at hrun
  have hcall : Runs (cleanupNodeRulesWith id.text) (⟨["status", "numbered"], .ok (listing rules.kept)⟩ :: log) (.ok ()) := by
    exact @Runs.call (List String) (fun _ => Except String String) _ _ _ _ _ _ (.ok (listing rules.kept)) hrun
  exact ⟨_, rules', hcall, .status hserves⟩

/-! ## The cleanup -/

/-- A cleanup deletes no rule but the node's, and all of these when it returns. -/
def Cleans (nodeId : String) (rules : Rules) : Prop :=
  ∀ log r rules', Runs (cleanupNodeRulesWith nodeId) log r → Serves rules log rules' →
    (∃ front back, rules.kept = front ++ back ∧ rules'.kept = front ++ back.filter (fun rule => !rule.ofNode nodeId) ∧
      rules'.deleted = rules.deleted ++ (back.filter (·.ofNode nodeId)).reverse) ∧
    (r = .ok () → rules'.kept = rules.kept.filter (fun rule => !rule.ofNode nodeId) ∧
      rules'.deleted = rules.deleted ++ (rules.kept.filter (·.ofNode nodeId)).reverse)

/-- No command but a dry run. -/
def Dry (log : Log fun _ : List String => Except String String) : Prop := ∀ call ∈ log, call.1.head? = some "--dry-run"

theorem ofNode_hasText {nodeId : String} {rule : Shown} (h : rule.ofNode nodeId = true) : hasText rule.text nodeId = true := by
  unfold Shown.ofNode at h
  unfold hasText Shown.text
  split at h
  · rename_i comment hcomment
    have hbegins : (nodeId ++ " ").toList <+: comment.toList := of_decide_eq_true h
    rw [String.toList_append] at hbegins
    have hinside : nodeId.toList <:+: comment.toList := ((List.prefix_append _ _).trans hbegins).isInfix
    have hall : nodeId.toList <:+: (rule.ends ++ " # ").toList ++ comment.toList := hinside.trans (List.suffix_append _ _).isInfix
    rw [← String.toList_append] at hall
    exact decide_eq_true hall
  · cases h

/-- What runs in a loop of dry runs is dry, and one that fails is the last. -/
theorem dryRuns {commands : List (List String)} {log} {r : Except String Unit} (hrun : Runs (commands.forM dryRun) log r) :
    Dry log ∧ ((∃ call ∈ log, ∃ err, call.2 = .error err) → ∃ err, r = .error err) := by
  induction commands generalizing log with
  | nil =>
    obtain ⟨hlog, -⟩ := hrun.pure
    subst hlog
    exact ⟨by simp [Dry], by simp⟩
  | cons args commands ih =>
    have hrun : Runs (Script.bind (fun _ => commands.forM dryRun) (dryRun args)) log r := hrun
    cases hrun with
    | call reply hrest =>
      cases reply with
      | error err =>
        cases hrest
        exact ⟨by simp [Dry], fun _ => ⟨err, rfl⟩⟩
      | ok out =>
        obtain ⟨hdry, hfails⟩ := ih hrest
        refine ⟨fun call hcall => ?_, fun h => hfails ?_⟩
        · cases List.mem_cons.mp hcall with
          | inl heq => rw [heq]; rfl
          | inr hmem => exact hdry call hmem
        · obtain ⟨call, hcall, err, herr⟩ := h
          cases List.mem_cons.mp hcall with
          | inl heq => rw [heq] at herr; cases herr
          | inr hmem => exact ⟨call, hmem, err, herr⟩

theorem fromRule_policy {config : NodeFirewallConfig} {r : Firewall.Rule} {proto : Option String} {ip : String} {args : RuleArgs}
    (h : args ∈ RuleArgs.fromRule config r proto ip) : args.policy = r.action.variantToString := by
  unfold RuleArgs.fromRule at h
  by_cases hports : r.ports.isEmpty = true
  · simp [hports] at h
    simp [h]
  · simp [hports] at h
    obtain ⟨port, -, heq⟩ := h
    simp [← heq]

/-- What comes after the dry runs is no dry run. -/
theorem rest_not_dry (config : NodeFirewallConfig) :
    Always (fun args : List String => args.head? ≠ some "--dry-run") (fun _ => True) (do
      cleanupNodeRulesWith config.id
      config.commands.forM addRule) := by
  have hrun : ∀ args : List String, args.head? ≠ some "--dry-run" →
      Always (fun args : List String => args.head? ≠ some "--dry-run") (fun _ => True) (run args) := by
    intro args hargs
    refine ⟨hargs, fun reply => ?_⟩
    cases reply with
    | ok out => trivial
    | error err => trivial
  have hadd : ∀ args ∈ config.commands, args.head? ≠ some "--dry-run" := by
    intro args hargs
    obtain ⟨rule, hrule, heq⟩ := List.mem_map.mp hargs
    subst heq
    have hpolicy : ∀ action : Firewall.Action, action.variantToString ≠ "--dry-run" := by
      intro action
      cases action <;> decide
    unfold RuleArgs.asVec
    cases config.bridge with
    | some iface => simp
    | none =>
      have hone : ∃ action : Firewall.Action, rule.policy = action.variantToString := by
        unfold RuleArgs.fromRules at hrule
        simp only [List.mem_append, List.mem_flatMap, List.mem_cons, List.not_mem_nil, or_false] at hrule
        rcases hrule with ⟨r, -, hrule⟩ | heq | heq
        · split at hrule
          · exact ⟨_, fromRule_policy hrule⟩
          · obtain ⟨ip, -, hrule⟩ := List.mem_flatMap.mp hrule
            exact ⟨_, fromRule_policy hrule⟩
        · exact ⟨_, by rw [heq]⟩
        · exact ⟨_, by rw [heq]⟩
      obtain ⟨action, haction⟩ := hone
      simp [haction, hpolicy action]
  refine @Always.bind _ _ _ _ _ _ (fun _ => True) _ _ (fun _ => config.commands.forM addRule) ?_ fun _ _ => ?_
  · refine Always.bind (f := fun stdout =>
        (((lines stdout).filterMap (ruleNumber config.id)).mergeSort).reverse.forM deleteRule)
      (hrun ["status", "numbered"] (by simp)) fun stdout _ => ?_
    exact Always.forM fun rule _ => Always.bind (f := fun _ => pure ())
      (hrun ["--force", "delete", toString rule] (by simp)) fun _ _ => trivial
  · exact Always.forM fun args hargs => Always.bind (f := fun _ => pure ()) (hrun args (hadd args hargs)) fun _ _ => trivial

theorem cleans_iff (id : Uuid) (rules : Rules) :
    Cleans id.text rules ↔ ∀ rule ∈ rules.kept, hasText rule.text id.text = true → rule.ofNode id.text = true := by
  refine ⟨fun h rule hrule hhas => ?_, fun h log r rules' hrun hserves => ?_⟩
  · obtain ⟨log, rules', hrun, hserves⟩ := cleanup_run id rules
    obtain ⟨front, back, hsplit, hkept, -, hfront⟩ := cleanup_deletes id hrun hserves
    have hexact := ((h log _ rules' hrun hserves).2 rfl).1
    rw [hfront rfl, List.nil_append] at hsplit hkept
    by_contra hnot
    have hmem : rule ∈ rules'.kept := by
      rw [hexact]
      exact List.mem_filter.mpr ⟨hrule, by simpa using hnot⟩
    rw [hkept] at hmem
    simp [hhas] at hmem
  · obtain ⟨front, back, hsplit, hkept, hdeleted, hfront⟩ := cleanup_deletes id hrun hserves
    have hsame : ∀ rule ∈ rules.kept, hasText rule.text id.text = rule.ofNode id.text := by
      intro rule hrule
      rw [Bool.eq_iff_iff]
      exact ⟨h rule hrule, ofNode_hasText⟩
    have hback : ∀ rule ∈ back, rule ∈ rules.kept := fun rule hrule => by simp [hsplit, hrule]
    have hnot : back.filter (fun rule => !hasText rule.text id.text) = back.filter (fun rule => !rule.ofNode id.text) :=
      List.filter_congr fun rule hrule => by rw [hsame rule (hback rule hrule)]
    have hof : back.filter (fun rule => hasText rule.text id.text) = back.filter (·.ofNode id.text) :=
      List.filter_congr fun rule hrule => hsame rule (hback rule hrule)
    rw [hnot] at hkept
    rw [hof] at hdeleted
    refine ⟨⟨front, back, hsplit, hkept, hdeleted⟩, fun hok => ?_⟩
    have hnil := hfront hok
    subst hnil
    rw [List.nil_append] at hsplit hkept
    rw [hsplit]
    exact ⟨hkept, hdeleted⟩

/-- When a dry run fails there was nothing but dry runs. -/
theorem apply_dry {config : NodeFirewallConfig} {log} {r : Except String Unit} (hrun : Runs (applyFirewallConfigWith config) log r)
    (hfails : ∃ call ∈ log, call.1.head? = some "--dry-run" ∧ ∃ err, call.2 = .error err) : Dry log := by
  have hrun : Runs (config.commands.forM dryRun >>= fun _ => do
      cleanupNodeRulesWith config.id
      config.commands.forM addRule) log r := hrun
  cases hrun.bind with
  | inl hfirst =>
    obtain ⟨err, hfirst, -⟩ := hfirst
    exact (dryRuns hfirst).1
  | inr hboth =>
    obtain ⟨u, log₁, log₂, hlog, hfirst, hrest⟩ := hboth
    obtain ⟨call, hcall, hdry, herr⟩ := hfails
    rw [hlog] at hcall
    cases List.mem_append.mp hcall with
    | inl hmem =>
      obtain ⟨err, heq⟩ := (dryRuns hfirst).2 ⟨call, hmem, herr⟩
      cases heq
    | inr hmem => exact absurd hdry ((rest_not_dry config).runs hrest call hmem)

def someNode : Uuid := ⟨"4931bafa-92d9-4521-9fc6-a77eee047530", by simp, by simp⟩

/-- A rule of another node, named after the first. -/
def namesake : Shown where
  ends := "192.168.0.13 8000 ALLOW IN Anywhere"
  comment := some ("5931bafa-92d9-4521-9fc6-a77eee047530 from " ++ someNode.text)
  oneLine := by decide +kernel
  noReturn := by decide +kernel

end UfwRunner

end Blockvisor
