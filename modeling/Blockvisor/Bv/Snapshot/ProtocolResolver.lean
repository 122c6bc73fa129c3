/-
The names of protocols that snapper takes (`protocol_resolver.rs`): what a user
has put in is looked up as it is, then with its blanks, dashes and underscores
changed for each other, and in the end among the known names that are near it.

The distance that is computed is the edit distance
(`levenshteinDistance_isLeast`). Of several known names at the least distance
the first is taken, in the order of a hash map, so that the protocol found
depends on it when they are of different ones (`resolved_by_order`);
`normalize_iff` says when it does not.
-/
import Blockvisor.Lib.EditDistance
import Blockvisor.Lib.Grid
import Blockvisor.Lib.KeySort
import Blockvisor.Lib.Text
import Mathlib.Data.String.Basic

namespace Blockvisor

namespace Snapshot

/-! ## The distance -/

/-- The matrix of the distances of the beginnings of two texts, filled row by row. -/
def distanceMatrix (a b : List Char) : Grid :=
  let matrix := Grid.new (a.length + 1) (b.length + 1)
  let matrix := (List.range (a.length + 1)).foldl (fun m i => m.write i 0 i) matrix
  let matrix := (List.range (b.length + 1)).foldl (fun m j => m.write 0 j j) matrix
  (List.range' 1 a.length).foldl (fun m i =>
    (List.range' 1 b.length).foldl (fun m j =>
      let cost := if a[i - 1]? = b[j - 1]? then 0 else 1
      m.write i j (min (min (m.get (i - 1) j + 1) (m.get i (j - 1) + 1)) (m.get (i - 1) (j - 1) + cost))) m) matrix

def levenshteinDistance (a b : String) : Nat :=
  let aLen := a.toList.length
  let bLen := b.toList.length
  if aLen = 0 then bLen
  else if bLen = 0 then aLen
  else (distanceMatrix a.toList b.toList).get aLen bLen

/-! ## The resolver -/

/-- What is known: what is put in, and the name it stands for. -/
def knownProtocols : List (String × String) :=
  ["arbitrum one", "arbitrum-one", "arbitrumone", "arbitrum_one"].map ((·, "arbitrum-one")) ++
    ["polygon", "polygon pos", "polygon-pos", "polygonpos"].map ((·, "polygon")) ++
    ["ethereum", "bitcoin", "solana", "avalanche"].map fun protocol => (protocol, protocol)

def displayNames : List String := ["arbitrum-one", "polygon", "ethereum", "bitcoin", "solana", "avalanche"]

/-- The two hash maps, as their entries come in some order. -/
structure ProtocolResolver where
  known : List (String × String)
  display : List String
  known_perm : known.Perm knownProtocols
  display_perm : display.Perm displayNames

/-- The entry of a key. -/
def lookup (known : List (String × String)) (key : String) : Option String := (known.find? (·.1 = key)).map (·.2)

/-- `replace`, of a character by another one. -/
def replaceChar (c d : Char) (text : String) : String := String.ofList (text.toList.map fun e => if e = c then d else e)

/-- `dedup`. -/
def dedup : List String → List String
  | first :: second :: rest => if first = second then dedup (second :: rest) else first :: dedup (second :: rest)
  | rest => rest

def availableProtocols (resolver : ProtocolResolver) : List String := dedup (KeySort.sortByKey id resolver.display)

/-- The best match so far, and its distance; `usize::MAX`, which is more than any distance, is none. -/
structure BestMatch where
  name : Option String
  distance : Option Nat

def BestMatch.isBeaten (best : BestMatch) (distance : Nat) : Bool :=
  match best.distance with
  | none => true
  | some bestDistance => distance < bestDistance

/-- A distance that is small beside the length of the text, in bytes. -/
def Near (input : String) (entry : String × String) : Prop := levenshteinDistance input entry.1 ≤ input.utf8ByteSize / 3

instance (input : String) (entry : String × String) : Decidable (Near input entry) := inferInstanceAs (Decidable (_ ≤ _))

def BestMatch.consider (known : List (String × String)) (input : String) (best : BestMatch) (entry : String × String) : BestMatch :=
  let distance := levenshteinDistance input entry.1
  if Near input entry ∧ best.isBeaten distance = true then ⟨lookup known entry.1, some distance⟩ else best

def findClosestMatch (known : List (String × String)) (input : String) : Option String :=
  (known.foldl (BestMatch.consider known input) ⟨none, none⟩).name

/-- The texts that are looked up as they are. -/
def spellings (inputClean : String) : List String :=
  [inputClean, replaceChar ' ' '-' inputClean, replaceChar '-' ' ' inputClean, replaceChar '_' '-' inputClean]

def normalizeProtocol (toLowercase : String → String) (resolver : ProtocolResolver) (input : String) : Except String String :=
  let inputClean := toLowercase (Text.trim input)
  match (spellings inputClean).findSome? (lookup resolver.known) with
  | some normalized => .ok normalized
  | none =>
    match findClosestMatch resolver.known inputClean with
    | some normalized => .ok normalized
    | none =>
      let protocols := ", ".intercalate (availableProtocols resolver)
      .error s!"Unknown protocol: '{input}'. Available protocols: {protocols}"

/-! ## The matrix -/

section Matrix

open EditDistance

variable {a b : List Char} {i j k l : Nat} {m : Grid}

/-- The distance of two beginnings, from their ends on. -/
def beginnings (a b : List Char) (i j : Nat) : Nat := distance (a.take i).reverse (b.take j).reverse

theorem beginnings_zero_left (hj : j ≤ b.length) : beginnings a b 0 j = j := by
  unfold beginnings
  rw [List.take_zero, List.reverse_nil, distance_nil_left, List.length_reverse, List.length_take]
  omega

theorem beginnings_zero_right (hi : i ≤ a.length) : beginnings a b i 0 = i := by
  unfold beginnings
  rw [List.take_zero, List.reverse_nil, distance_nil_right, List.length_reverse, List.length_take]
  omega

theorem reverse_take_succ (hi : i < a.length) : (a.take (i + 1)).reverse = a[i] :: (a.take i).reverse := by
  rw [← List.take_append_getElem hi, List.reverse_append, List.reverse_singleton, List.singleton_append]

theorem beginnings_succ (hi : i < a.length) (hj : j < b.length) : beginnings a b (i + 1) (j + 1) =
    min (min (beginnings a b i (j + 1) + 1) (beginnings a b (i + 1) j + 1))
      (beginnings a b i j + if a[i]? = b[j]? then 0 else 1) := by
  have hcost : (if a[i]? = b[j]? then 0 else 1) = if a[i] = b[j] then 0 else 1 := by
    rw [List.getElem?_eq_getElem hi, List.getElem?_eq_getElem hj]
    exact if_congr (Option.some_inj) rfl rfl
  rw [hcost]
  unfold beginnings
  rw [reverse_take_succ hi, reverse_take_succ hj, distance_cons_cons]

/-- The rows up to one are filled, the first column, and so many cells more. -/
def Filled (a b : List Char) (k l : Nat) (m : Grid) : Prop :=
  Grid.Shape (a.length + 1) (b.length + 1) m ∧
    ∀ i ≤ a.length, ∀ j ≤ b.length, (i ≤ k ∨ j = 0 ∨ (i = k + 1 ∧ j ≤ l)) → m.get i j = beginnings a b i j

theorem Filled.cell (h : Filled a b k l m) (hk : k < a.length) (hl : l < b.length) :
    Filled a b k (l + 1) (m.write (k + 1) (l + 1)
      (min (min (m.get k (l + 1) + 1) (m.get (k + 1) l + 1)) (m.get k l + if a[k]? = b[l]? then 0 else 1))) := by
  obtain ⟨hshape, hcells⟩ := h
  refine ⟨hshape.write (by omega) _ _, fun i hi j hj hfilled => ?_⟩
  rw [Grid.get_write hshape (by omega) (by omega)]
  by_cases hcell : i = k + 1 ∧ j = l + 1
  · rw [if_pos hcell, hcell.1, hcell.2, beginnings_succ hk hl, hcells k (by omega) (l + 1) (by omega) (by omega),
      hcells (k + 1) (by omega) l (by omega) (by omega), hcells k (by omega) l (by omega) (by omega)]
  · rw [if_neg hcell]
    exact hcells i hi j hj (by omega)

theorem Filled.row (h : Filled a b k b.length m) : Filled a b (k + 1) 0 m := by
  refine ⟨h.1, fun i hi j hj hfilled => h.2 i hi j hj ?_⟩
  omega

/-- The first column, up to an index. -/
def Column (a b : List Char) (k : Nat) (m : Grid) : Prop :=
  Grid.Shape (a.length + 1) (b.length + 1) m ∧ ∀ i < k, m.get i 0 = i

theorem column_filled (a b : List Char) :
    Column a b (a.length + 1)
      ((List.range (a.length + 1)).foldl (fun m i => m.write i 0 i) (Grid.new (a.length + 1) (b.length + 1))) := by
  refine Grid.range_induction ⟨Grid.shape_new _ _, fun i hi => absurd hi (Nat.not_lt_zero i)⟩ _ fun k hk m hm => ?_
  refine ⟨hm.1.write hk _ _, fun i hi => ?_⟩
  rw [Grid.get_write hm.1 hk (by omega)]
  split
  · rename_i heq
    exact heq.1.symm
  · exact hm.2 i (by omega)

theorem border_filled {m : Grid} (h : Column a b (a.length + 1) m) :
    Filled a b 0 0 ((List.range (b.length + 1)).foldl (fun m j => m.write 0 j j) m) := by
  have hrow := Grid.range_induction (f := fun m j => Grid.write m 0 j j)
    (P := fun k m => Column a b (a.length + 1) m ∧ ∀ j < k, m.get 0 j = j)
    ⟨h, fun j hj => absurd hj (Nat.not_lt_zero j)⟩ (b.length + 1) fun k hk m hm => by
    refine ⟨⟨hm.1.1.write (by omega) _ _, fun i hi => ?_⟩, fun j hj => ?_⟩
    · rw [Grid.get_write hm.1.1 (by omega) hk]
      split
      · omega
      · exact hm.1.2 i hi
    · rw [Grid.get_write hm.1.1 (by omega) hk]
      split
      · omega
      · exact hm.2 j (by omega)
  refine ⟨hrow.1.1, fun i hi j hj hfilled => ?_⟩
  by_cases hzero : j = 0
  · rw [hzero, hrow.1.2 i (by omega), beginnings_zero_right hi]
  · have hfirst : i = 0 := by omega
    rw [hfirst, hrow.2 j (by omega), beginnings_zero_left hj]

theorem distanceMatrix_filled (a b : List Char) : Filled a b a.length 0 (distanceMatrix a b) := by
  unfold distanceMatrix
  refine Grid.range'_induction (P := fun k => Filled a b k 0) (border_filled (column_filled a b)) _ fun k hk m hm => ?_
  refine Filled.row (Grid.range'_induction (P := fun l => Filled a b k l) hm _ fun l hl m hm => ?_)
  exact hm.cell hk hl

/-- **The distance is computed.** -/
theorem levenshteinDistance_eq (a b : String) : levenshteinDistance a b = distance a.toList b.toList := by
  unfold levenshteinDistance
  simp only
  split
  · rename_i hnil
    rw [List.eq_nil_of_length_eq_zero hnil, distance_nil_left]
  · split
    · rename_i hnil
      rw [List.eq_nil_of_length_eq_zero hnil, distance_nil_right]
    · rw [(distanceMatrix_filled a.toList b.toList).2 _ le_rfl _ le_rfl (.inl le_rfl)]
      unfold beginnings
      rw [List.take_length, List.take_length, distance_reverse]

theorem levenshteinDistance_isLeast (a b : String) : IsLeast {n | Edits n a.toList b.toList} (levenshteinDistance a b) := by
  rw [levenshteinDistance_eq]
  exact distance_isLeast _ _

end Matrix

/-! ## The closest match -/

section Closest

variable {known entries : List (String × String)} {input key name : String} {entry : String × String} {best : BestMatch}

theorem lookup_eq_some_iff (h : (known.map (·.1)).Nodup) : lookup known key = some name ↔ (key, name) ∈ known := by
  unfold lookup
  induction known with
  | nil => simp
  | cons first rest ih =>
    obtain ⟨hfirst, hrest⟩ := List.nodup_cons.mp h
    by_cases hkey : first.1 = key
    · rw [List.find?_cons_of_pos (by simpa using hkey), Option.map_some, List.mem_cons]
      constructor
      · intro hname
        left
        rw [← hkey, ← Option.some.inj hname]
      · intro hmem
        cases hmem with
        | inl heq => rw [← heq]
        | inr hmem => exact absurd (List.mem_map.mpr ⟨(key, name), hmem, hkey.symm⟩) hfirst
    · rw [List.find?_cons_of_neg (by simpa using hkey), ih hrest, List.mem_cons]
      exact ⟨.inr, fun hmem => hmem.resolve_left fun heq => hkey (heq ▸ rfl)⟩

theorem nodup_knownProtocols : (knownProtocols.map (·.1)).Nodup := by decide

/-- The order does not matter to a look-up. -/
theorem lookup_perm (h : known.Perm knownProtocols) (key : String) : lookup known key = lookup knownProtocols key := by
  have hkeys : (known.map (·.1)).Nodup := (h.map _).nodup_iff.mpr nodup_knownProtocols
  refine Option.ext fun name => ?_
  rw [lookup_eq_some_iff hkeys, lookup_eq_some_iff nodup_knownProtocols, h.mem_iff]

theorem lookup_entry (h : known.Perm knownProtocols) (hentry : entry ∈ known) : lookup known entry.1 = some entry.2 := by
  rw [lookup_perm h, lookup_eq_some_iff nodup_knownProtocols]
  exact h.mem_iff.mp hentry

/-- The entry is near, and no other is nearer. -/
structure Closest (input : String) (entry : String × String) : Prop where
  known : entry ∈ knownProtocols
  near : Near input entry
  least : ∀ other ∈ knownProtocols, levenshteinDistance input entry.1 ≤ levenshteinDistance input other.1

/-- The best match of some entries: none of them is near, or it is one that is nearest. -/
inductive BestOf (known : List (String × String)) (input : String) (entries : List (String × String)) : BestMatch → Prop
  | none (h : ∀ entry ∈ entries, ¬ Near input entry) : BestOf known input entries ⟨none, none⟩
  | some (entry : String × String) (hmem : entry ∈ entries) (hnear : Near input entry)
      (hleast : ∀ other ∈ entries, Near input other → levenshteinDistance input entry.1 ≤ levenshteinDistance input other.1) :
      BestOf known input entries ⟨lookup known entry.1, some (levenshteinDistance input entry.1)⟩

theorem BestOf.consider (h : BestOf known input entries best) (entry : String × String) :
    BestOf known input (entries ++ [entry]) (best.consider known input entry) := by
  have hcons : ∀ {other}, other ∈ entries ++ [entry] → other ∈ entries ∨ other = entry := fun hmem => by
    simpa using hmem
  unfold BestMatch.consider
  simp only
  by_cases hnear : Near input entry
  · cases h with
    | none hnone =>
      rw [if_pos ⟨hnear, rfl⟩]
      refine .some entry (by simp) hnear fun other hother hothernear => ?_
      cases hcons hother with
      | inl hmem => exact absurd hothernear (hnone other hmem)
      | inr heq => rw [heq]
    | some first hmem hfirst hleast =>
      by_cases hbeaten : levenshteinDistance input entry.1 < levenshteinDistance input first.1
      · rw [if_pos ⟨hnear, decide_eq_true hbeaten⟩]
        refine .some entry (by simp) hnear fun other hother hothernear => ?_
        cases hcons hother with
        | inl hmem => exact hbeaten.le.trans (hleast other hmem hothernear)
        | inr heq => rw [heq]
      · rw [if_neg fun hboth => hbeaten (of_decide_eq_true hboth.2)]
        refine .some first (List.mem_append_left _ hmem) hfirst fun other hother hothernear => ?_
        cases hcons hother with
        | inl hmem => exact hleast other hmem hothernear
        | inr heq => rw [heq]; exact Nat.not_lt.mp hbeaten
  · rw [if_neg fun hboth => hnear hboth.1]
    cases h with
    | none hnone =>
      refine .none fun other hother => ?_
      cases hcons hother with
      | inl hmem => exact hnone other hmem
      | inr heq => rw [heq]; exact hnear
    | some first hmem hfirst hleast =>
      refine .some first (List.mem_append_left _ hmem) hfirst fun other hother hothernear => ?_
      cases hcons hother with
      | inl hmem => exact hleast other hmem hothernear
      | inr heq => exact absurd (heq ▸ hothernear) hnear

theorem bestOf_foldl (known : List (String × String)) (input : String) (entries : List (String × String)) :
    BestOf known input entries (entries.foldl (BestMatch.consider known input) ⟨none, none⟩) := by
  induction entries using List.reverseRecOn with
  | nil => exact .none fun entry hentry => absurd hentry List.not_mem_nil
  | append_singleton entries entry ih =>
    rw [List.foldl_append, List.foldl_cons, List.foldl_nil]
    exact ih.consider entry

/-- What is found is a closest entry; nothing is found if none is near. -/
theorem findClosestMatch_spec (h : known.Perm knownProtocols) (input : String) :
    (findClosestMatch known input = none ∧ ∀ entry ∈ knownProtocols, ¬ Near input entry) ∨
      ∃ entry, Closest input entry ∧ findClosestMatch known input = some entry.2 := by
  have hbest := bestOf_foldl known input known
  unfold findClosestMatch
  generalize known.foldl (BestMatch.consider known input) ⟨none, none⟩ = best at hbest
  cases hbest with
  | none hnone => exact .inl ⟨rfl, fun entry hentry => hnone entry (h.mem_iff.mpr hentry)⟩
  | some entry hmem hnear hleast =>
    refine .inr ⟨entry, ⟨h.mem_iff.mp hmem, hnear, fun other hother => ?_⟩, lookup_entry h hmem⟩
    by_cases hothernear : Near input other
    · exact hleast other (h.mem_iff.mpr hother) hothernear
    · exact (Nat.le_trans hnear (Nat.not_le.mp hothernear).le)

/-- Of several closest entries the first one is found. -/
theorem findClosestMatch_first {rest : List (String × String)} (h : (entry :: rest).Perm knownProtocols) (hclosest : Closest input entry) :
    findClosestMatch (entry :: rest) input = some entry.2 := by
  have hstays : ∀ entries : List (String × String), entries ⊆ knownProtocols →
      entries.foldl (BestMatch.consider (entry :: rest) input) ⟨some entry.2, some (levenshteinDistance input entry.1)⟩ =
        ⟨some entry.2, some (levenshteinDistance input entry.1)⟩ := by
    intro entries hsub
    induction entries with
    | nil => rfl
    | cons other entries ih =>
      have hleast := hclosest.least other (hsub List.mem_cons_self)
      have hkept : BestMatch.consider (entry :: rest) input ⟨some entry.2, some (levenshteinDistance input entry.1)⟩ other =
          ⟨some entry.2, some (levenshteinDistance input entry.1)⟩ :=
        if_neg fun hboth => Nat.not_lt.mpr hleast (of_decide_eq_true hboth.2)
      rw [List.foldl_cons, hkept]
      exact ih fun e he => hsub (List.mem_cons_of_mem _ he)
  have hfirst : BestMatch.consider (entry :: rest) input ⟨none, none⟩ entry =
      ⟨some entry.2, some (levenshteinDistance input entry.1)⟩ := by
    rw [← lookup_entry h List.mem_cons_self]
    exact if_pos ⟨hclosest.near, rfl⟩
  unfold findClosestMatch
  rw [List.foldl_cons, hfirst, hstays rest fun e he => h.subset (List.mem_cons_of_mem _ he)]

end Closest

/-! ## Names -/

section Names

variable {toLowercase : String → String} {resolver : ProtocolResolver} {input name : String}

/-- What an input is looked up to, in one of its spellings. -/
def lookedUp (inputClean : String) : Option String := (spellings inputClean).findSome? (lookup knownProtocols)

theorem normalizeProtocol_eq (toLowercase : String → String) (resolver : ProtocolResolver) (input : String) :
    normalizeProtocol toLowercase resolver input =
      match lookedUp (toLowercase (Text.trim input)) with
      | some normalized => .ok normalized
      | none =>
        match findClosestMatch resolver.known (toLowercase (Text.trim input)) with
        | some normalized => .ok normalized
        | none =>
          let protocols := ", ".intercalate (dedup (KeySort.sortByKey id displayNames))
          .error s!"Unknown protocol: '{input}'. Available protocols: {protocols}" := by
  have hlookup : lookup resolver.known = lookup knownProtocols := funext (lookup_perm resolver.known_perm)
  have hdisplay : availableProtocols resolver = dedup (KeySort.sortByKey id displayNames) := by
    have hsorted : KeySort.sortByKey id resolver.display = KeySort.sortByKey id displayNames :=
      KeySort.sortByKey_eq_of_perm resolver.display_perm fun a _ b _ heq => heq
    unfold availableProtocols
    rw [hsorted]
  unfold normalizeProtocol lookedUp
  simp only [hlookup, hdisplay]

/-- What is not looked up is resolved to the name of a closest entry, or not at all. -/
theorem resolved_spec (hlookup : lookedUp (toLowercase (Text.trim input)) = none)
    (h : normalizeProtocol toLowercase resolver input = .ok name) :
    ∃ entry, Closest (toLowercase (Text.trim input)) entry ∧ entry.2 = name := by
  rw [normalizeProtocol_eq, hlookup] at h
  obtain ⟨hnone, -⟩ | ⟨entry, hclosest, hfound⟩ := findClosestMatch_spec resolver.known_perm (toLowercase (Text.trim input))
  · rw [hnone] at h
    cases h
  · rw [hfound] at h
    cases h
    exact ⟨entry, hclosest, rfl⟩

/-- The hash map with an entry as its first. -/
def firstly (entry : String × String) (h : entry ∈ knownProtocols) : ProtocolResolver where
  known := entry :: knownProtocols.erase entry
  display := displayNames
  known_perm := (List.perm_cons_erase h).symm
  display_perm := .refl _

theorem resolved_firstly (hlookup : lookedUp (toLowercase (Text.trim input)) = none) {entry : String × String}
    (hclosest : Closest (toLowercase (Text.trim input)) entry) :
    normalizeProtocol toLowercase (firstly entry hclosest.known) input = .ok entry.2 := by
  have hfound : findClosestMatch (firstly entry hclosest.known).known (toLowercase (Text.trim input)) = some entry.2 :=
    findClosestMatch_first (firstly entry hclosest.known).known_perm hclosest
  rw [normalizeProtocol_eq, hlookup]
  simp only [hfound]

/-- The closest entries are of one protocol. -/
def OneProtocol (inputClean : String) : Prop := ∀ entry other, Closest inputClean entry → Closest inputClean other → entry.2 = other.2

/-- The order of the hash maps does not matter, and what is not looked up is not resolved to one of several protocols. -/
def WellDefined (toLowercase : String → String) (input : String) : Prop :=
  (∀ resolver other : ProtocolResolver,
    normalizeProtocol toLowercase resolver input = normalizeProtocol toLowercase other input) ∧
  ∀ resolver name, lookedUp (toLowercase (Text.trim input)) = none → normalizeProtocol toLowercase resolver input = .ok name →
    ∀ entry, Closest (toLowercase (Text.trim input)) entry → entry.2 = name

theorem wellDefined_iff (toLowercase : String → String) (input : String) :
    WellDefined toLowercase input ↔
      lookedUp (toLowercase (Text.trim input)) ≠ none ∨ OneProtocol (toLowercase (Text.trim input)) := by
  cases hlookup : lookedUp (toLowercase (Text.trim input)) with
  | some normalized =>
    refine iff_of_true ⟨fun resolver other => ?_, fun resolver name hnone => ?_⟩ (.inl nofun)
    · rw [normalizeProtocol_eq, normalizeProtocol_eq, hlookup]
    · rw [hlookup] at hnone
      cases hnone
  | none =>
    constructor
    · intro h
      refine .inr fun entry other hentry hother => ?_
      exact h.2 _ other.2 hlookup (resolved_firstly hlookup hother) entry hentry
    · intro h
      have hone := h.resolve_left fun hne => hne rfl
      refine ⟨fun resolver other => ?_, fun resolver name _ hname entry hentry => ?_⟩
      · rw [normalizeProtocol_eq, normalizeProtocol_eq, hlookup]
        simp only
        obtain ⟨hnone, hfar⟩ | ⟨entry, hclosest, hfound⟩ := findClosestMatch_spec resolver.known_perm (toLowercase (Text.trim input))
        · obtain ⟨hnone', -⟩ | ⟨entry', hclosest', -⟩ := findClosestMatch_spec other.known_perm (toLowercase (Text.trim input))
          · rw [hnone, hnone']
          · exact absurd hclosest'.near (hfar entry' hclosest'.known)
        · obtain ⟨-, hfar⟩ | ⟨entry', hclosest', hfound'⟩ := findClosestMatch_spec other.known_perm (toLowercase (Text.trim input))
          · exact absurd hclosest.near (hfar entry hclosest.known)
          · rw [hfound, hfound', hone entry entry' hclosest hclosest']
      · obtain ⟨found, hfound, hsame⟩ := resolved_spec hlookup hname
        rw [← hsame]
        exact hone entry found hentry hfound

/-- **Resolution**: the distance is the least number of edits, what is not looked up is resolved to the name of a closest entry, and
this is well defined exactly if the input is looked up or its closest entries are of one protocol. -/
theorem normalize_iff (toLowercase : String → String) :
    (∀ a b : String, IsLeast {n | EditDistance.Edits n a.toList b.toList} (levenshteinDistance a b)) ∧
    (∀ resolver input name, normalizeProtocol toLowercase resolver input = .ok name →
      lookedUp (toLowercase (Text.trim input)) = some name ∨ ∃ entry, Closest (toLowercase (Text.trim input)) entry ∧ entry.2 = name) ∧
    ∀ input, WellDefined toLowercase input ↔
      lookedUp (toLowercase (Text.trim input)) ≠ none ∨ OneProtocol (toLowercase (Text.trim input)) := by
  refine ⟨levenshteinDistance_isLeast, fun resolver input name h => ?_, wellDefined_iff toLowercase⟩
  cases hlookup : lookedUp (toLowercase (Text.trim input)) with
  | some normalized =>
    rw [normalizeProtocol_eq, hlookup] at h
    cases h
    exact .inl rfl
  | none => exact .inr (resolved_spec hlookup h)

/-- `to_lowercase`, of ASCII texts. -/
def asciiLowercase (text : String) : String := String.ofList (text.toList.map Char.toLower)

/-- A text as near to one protocol as to another. -/
def solaygona : String := "solaygona"

theorem solaygona_closest (entry : String × String) (h : entry ∈ knownProtocols) (hdistance : levenshteinDistance solaygona entry.1 = 3) :
    Closest solaygona entry := by
  have hleast : ∀ other ∈ knownProtocols, 3 ≤ levenshteinDistance solaygona other.1 := by decide +kernel
  refine ⟨h, ?_, fun other hother => ?_⟩
  · unfold Near
    rw [hdistance]
    decide
  · rw [hdistance]
    exact hleast other hother

/-- It is resolved to the one that comes first in the hash map. -/
theorem resolved_by_order :
    (∃ resolver, normalizeProtocol asciiLowercase resolver solaygona = .ok "polygon") ∧
      ∃ resolver, normalizeProtocol asciiLowercase resolver solaygona = .ok "solana" := by
  have hclean : asciiLowercase (Text.trim solaygona) = solaygona := by decide
  have hlookup : lookedUp (asciiLowercase (Text.trim solaygona)) = none := by
    rw [hclean]
    decide
  have hpolygon := solaygona_closest ("polygon", "polygon") (by decide) (by decide +kernel)
  have hsolana := solaygona_closest ("solana", "solana") (by decide) (by decide +kernel)
  rw [← hclean] at hpolygon hsolana
  exact ⟨⟨_, resolved_firstly hlookup hpolygon⟩, ⟨_, resolved_firstly hlookup hsolana⟩⟩

end Names

end Snapshot

end Blockvisor
