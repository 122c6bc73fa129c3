/-
The properties of an image as they are sent to the API (`add_properties`): a
switch gives two of them, an enumeration one for each of its variants, with the
key of the property and the value joined by a `-`.

`addProperties_iff` says when what is sent is well formed. The keys and values
may hold a `-` themselves, the default may be none of the values, and megabytes
and gigabytes are multiplied without a check: `validate` stops none of it.
-/
import Blockvisor.Babel.ChunkJson
import Blockvisor.Bv.ImageVariant
import Mathlib.Data.List.Nodup
import Mathlib.Data.List.Pairwise

namespace Blockvisor

namespace Pb

inductive UiType where
  | switch
  | text
  | enum
  /-- A number that is none of these. -/
  | other (number : Int)
  deriving DecidableEq

structure AddImageProperty where
  key : String
  displayName : Option String
  keyGroup : Option String
  displayGroup : Option String
  description : Option String
  newArchive : Bool
  defaultValue : String
  dynamicValue : Bool
  uiType : UiType
  addCpuCores : Option Int
  addMemoryBytes : Option Int
  addDiskBytes : Option Int
  isGroupDefault : Option Bool
  variants : Option String
  deriving DecidableEq

end Pb

namespace Nib

/-- A product of signed numbers of 64 bits, which wraps around. -/
def wrappingMul (a b : Int) : Int := (a * b).bmod (2 ^ 64)

/-- `serde_json::to_string`, of texts. -/
def variantsText (variants : List String) : String := String.ofList (Json.array Json.text variants)

/-- An entry of the impact; the fields that the entries of a property share are the property's. -/
def ImageProperty.entry (property : ImageProperty) (key : String) (displayName keyGroup displayGroup : Option String)
    (isGroupDefault : Option Bool) (defaultValue : String) (uiType : Pb.UiType) (impact : Option ImageImpact) :
    Pb.AddImageProperty where
  key := key
  displayName := displayName
  keyGroup := keyGroup
  displayGroup := displayGroup
  description := property.description
  newArchive := (impact.map (·.newArchive)).getD false
  defaultValue := defaultValue
  dynamicValue := property.dynamicValue
  uiType := uiType
  addCpuCores := impact.bind (·.addCpu)
  addMemoryBytes := impact.bind fun impact => impact.addMemoryMb.map (wrappingMul · 1000000)
  addDiskBytes := impact.bind fun impact => impact.addDiskGb.map (wrappingMul · 1000000000)
  isGroupDefault := isGroupDefault
  variants := property.variants.map variantsText

/-- The entries of one property. -/
def ImageProperty.entries (property : ImageProperty) : List Pb.AddImageProperty :=
  match property.uiType with
  | .text impact | .password impact =>
    [property.entry property.key (some property.name) none none none property.defaultValue .text impact]
  | .switch on off =>
    [property.entry s!"{property.key}-on" none (some property.key) (some property.name)
      (some (property.defaultValue == "on")) "on" .switch on,
     property.entry s!"{property.key}-off" none (some property.key) (some property.name)
      (some (property.defaultValue == "off")) "off" .switch off]
  | .enum variants =>
    variants.map fun variant =>
      property.entry s!"{property.key}-{variant.value}" (some variant.name) (some property.key) (some property.name)
        (some (property.defaultValue == variant.value)) variant.value .enum variant.impact

def addProperties (imageProperties : List ImageProperty) : List Pb.AddImageProperty := imageProperties.flatMap (·.entries)

/-! ## What an entry is made of -/

/-- The choices of a property: the value and the impact of each, without a value for a text. -/
def ImageProperty.choices (property : ImageProperty) : List (Option String × Option ImageImpact) :=
  match property.uiType with
  | .text impact | .password impact => [(none, impact)]
  | .switch on off => [(some "on", on), (some "off", off)]
  | .enum variants => variants.map fun variant => (some variant.value, variant.impact)

/-- What is joined to the key for a choice. -/
def suffixOf : Option String → List Char
  | none => []
  | some value => '-' :: value.toList

def ImageProperty.suffixes (property : ImageProperty) : List (List Char) := property.choices.map fun choice => suffixOf choice.1

/-- The entry is the choice's: its key, its group and whether it is the default there. -/
structure EntryOf (property : ImageProperty) (choice : Option String × Option ImageImpact) (entry : Pb.AddImageProperty) : Prop where
  key : entry.key.toList = property.key.toList ++ suffixOf choice.1
  group : entry.keyGroup = choice.1.map fun _ => property.key
  isDefault : entry.isGroupDefault = choice.1.map (property.defaultValue == ·)
  memory : entry.addMemoryBytes = choice.2.bind fun impact => impact.addMemoryMb.map (wrappingMul · 1000000)
  disk : entry.addDiskBytes = choice.2.bind fun impact => impact.addDiskGb.map (wrappingMul · 1000000000)

theorem toList_joined (key value : String) : s!"{key}-{value}".toList = key.toList ++ suffixOf (some value) := by
  rw [String.toList_append, String.toList_append, List.append_assoc]
  rfl

theorem entries_choices (property : ImageProperty) :
    List.Forall₂ (EntryOf property) property.choices property.entries := by
  have hjoined : ∀ tail : String, s!"{property.key}{tail}".toList = property.key.toList ++ tail.toList := by
    intro tail
    rw [String.toList_append]
    rfl
  unfold ImageProperty.choices ImageProperty.entries
  cases property.uiType with
  | switch on off => exact .cons ⟨hjoined "-on", rfl, rfl, rfl, rfl⟩ (.cons ⟨hjoined "-off", rfl, rfl, rfl, rfl⟩ .nil)
  | text impact => exact .cons ⟨(List.append_nil _).symm, rfl, rfl, rfl, rfl⟩ .nil
  | password impact => exact .cons ⟨(List.append_nil _).symm, rfl, rfl, rfl, rfl⟩ .nil
  | enum variants =>
    rw [List.forall₂_map_left_iff, List.forall₂_map_right_iff, List.forall₂_same]
    exact fun variant _ => ⟨toList_joined property.key variant.value, rfl, rfl, rfl, rfl⟩

theorem map_eq_of_forall₂ {α β γ : Type} {R : α → β → Prop} {f : α → γ} {g : β → γ} {l : List α} {l' : List β}
    (h : List.Forall₂ R l l') (hfg : ∀ a b, R a b → g b = f a) : l'.map g = l.map f := by
  induction h with
  | nil => rfl
  | cons hab _ ih => rw [List.map_cons, List.map_cons, ih, hfg _ _ hab]

theorem exists_of_forall₂ {α β : Type} {R : α → β → Prop} {l : List α} {l' : List β} {a : α} (h : List.Forall₂ R l l')
    (ha : a ∈ l) : ∃ b ∈ l', R a b := by
  induction h with
  | nil => cases ha
  | cons hab _ ih =>
    cases List.mem_cons.mp ha with
    | inl heq => exact ⟨_, List.mem_cons_self, heq ▸ hab⟩
    | inr hrest =>
      obtain ⟨b, hb, hab⟩ := ih hrest
      exact ⟨b, List.mem_cons_of_mem _ hb, hab⟩

/-! ## Keys -/

section Keys

variable {properties : List ImageProperty}

/-- The values that a choice of the property is made by. -/
def ImageProperty.values (property : ImageProperty) : List String := property.choices.filterMap (·.1)

/-- No key goes on from another one in such a way that an entry of the two has the same key. -/
def Apart (properties : List ImageProperty) : Prop :=
  ∀ property ∈ properties, ∀ longer ∈ properties, ∀ more, more ≠ [] → longer.key.toList = property.key.toList ++ more →
    ∀ suffix ∈ longer.suffixes, more ++ suffix ∉ property.suffixes

theorem suffixOf_injective : Function.Injective suffixOf := by
  intro a b h
  cases a with
  | none =>
    cases b with
    | none => rfl
    | some value => cases h
  | some value =>
    cases b with
    | none => cases h
    | some other => rw [String.toList_inj.mp (List.cons.inj h).2]

theorem nodup_choices {property : ImageProperty} (h : property.values.Nodup) : (property.choices.map (·.1)).Nodup := by
  unfold ImageProperty.values at h
  unfold ImageProperty.choices at h ⊢
  cases htype : property.uiType with
  | switch on off => simp
  | text impact => exact List.nodup_singleton _
  | password impact => exact List.nodup_singleton _
  | enum variants =>
    simp only [htype, List.filterMap_map, Function.comp_def, List.filterMap_eq_map'] at h
    simpa [Function.comp_def] using h.map (Option.some_injective String)

theorem nodup_suffixes {property : ImageProperty} (h : property.values.Nodup) : property.suffixes.Nodup := by
  have hsuffixes := (nodup_choices h).map suffixOf_injective
  rwa [List.map_map] at hsuffixes

theorem keys_entries (property : ImageProperty) :
    property.entries.map (·.key.toList) = property.suffixes.map (property.key.toList ++ ·) := by
  unfold ImageProperty.suffixes
  rw [List.map_map]
  exact map_eq_of_forall₂ (entries_choices property) fun _ _ h => h.key

theorem keys_addProperties (properties : List ImageProperty) :
    (addProperties properties).map (·.key.toList) =
      properties.flatMap fun property => property.suffixes.map (property.key.toList ++ ·) := by
  unfold addProperties
  rw [List.map_flatMap]
  exact congrArg (properties.flatMap ·) (funext keys_entries)

/-- Two keys with a suffix each are the same when one goes on from the other. -/
theorem disjoint_iff {property other : ImageProperty} (h : property.key ≠ other.key) :
    (property.suffixes.map (property.key.toList ++ ·)).Disjoint (other.suffixes.map (other.key.toList ++ ·)) ↔
      (∀ more, more ≠ [] → other.key.toList = property.key.toList ++ more →
        ∀ suffix ∈ other.suffixes, more ++ suffix ∉ property.suffixes) ∧
      (∀ more, more ≠ [] → property.key.toList = other.key.toList ++ more →
        ∀ suffix ∈ property.suffixes, more ++ suffix ∉ other.suffixes) := by
  constructor
  · intro hdisjoint
    refine ⟨fun more _ hkey suffix hsuffix hmem => ?_, fun more _ hkey suffix hsuffix hmem => ?_⟩
    · refine hdisjoint (List.mem_map.mpr ⟨_, hmem, rfl⟩) (List.mem_map.mpr ⟨suffix, hsuffix, ?_⟩)
      rw [hkey, List.append_assoc]
    · refine hdisjoint (List.mem_map.mpr ⟨suffix, hsuffix, ?_⟩) (List.mem_map.mpr ⟨_, hmem, rfl⟩)
      rw [hkey, List.append_assoc]
  · intro hapart key hkey hother
    obtain ⟨suffix, hsuffix, hjoined⟩ := List.mem_map.mp hkey
    obtain ⟨suffix', hsuffix', hjoined'⟩ := List.mem_map.mp hother
    have hnonempty : ∀ {a b : String} {more : List Char}, a ≠ b → b.toList = a.toList ++ more → more ≠ [] := by
      intro a b more hne heq hnil
      rw [hnil, List.append_nil] at heq
      exact hne (String.toList_inj.mp heq).symm
    cases List.append_eq_append_iff.mp (hjoined.trans hjoined'.symm) with
    | inl hlonger =>
      obtain ⟨more, hmore, hrest⟩ := hlonger
      exact hapart.1 more (hnonempty h hmore) hmore suffix' hsuffix' (hrest ▸ hsuffix)
    | inr hshorter =>
      obtain ⟨more, hmore, hrest⟩ := hshorter
      exact hapart.2 more (hnonempty h.symm hmore) hmore suffix hsuffix (hrest ▸ hsuffix')

theorem nodup_keys_iff (hkeys : (properties.map (·.key)).Nodup) (hvalues : ∀ property ∈ properties, property.values.Nodup) :
    ((addProperties properties).map (·.key)).Nodup ↔ Apart properties := by
  have htexts : ((addProperties properties).map (·.key)).Nodup ↔ ((addProperties properties).map (·.key.toList)).Nodup := by
    rw [show (fun entry : Pb.AddImageProperty => entry.key.toList) = String.toList ∘ (·.key) from rfl, ← List.map_map]
    exact (List.nodup_map_iff fun _ _ h => String.toList_inj.mp h).symm
  have hne : ∀ property ∈ properties, ∀ other ∈ properties, property ≠ other → property.key ≠ other.key :=
    fun property hproperty other hother hne heq => hne (List.inj_on_of_nodup_map hkeys hproperty hother heq)
  rw [htexts, keys_addProperties, List.nodup_flatMap]
  constructor
  · intro h property hproperty longer hlonger more hmore hkey
    have hpair : property ≠ longer := by
      intro heq
      rw [heq] at hkey
      exact hmore (List.self_eq_append_right.mp hkey)
    have hsymm : Std.Symm (Function.onFun List.Disjoint fun property : ImageProperty =>
        property.suffixes.map (property.key.toList ++ ·)) := ⟨fun _ _ h _ hleft hright => h hright hleft⟩
    have hdisjoint := h.2.forall hproperty hlonger hpair
    exact ((disjoint_iff (hne _ hproperty _ hlonger hpair)).mp hdisjoint).1 more hmore hkey
  · intro h
    refine ⟨fun property hproperty => (nodup_suffixes (hvalues property hproperty)).map (List.append_right_injective _), ?_⟩
    have hnodup : properties.Nodup := hkeys.of_map _
    refine hnodup.imp_of_mem fun hproperty hother hpair => ?_
    exact (disjoint_iff (hne _ hproperty _ hother hpair)).mpr ⟨h _ hproperty _ hother, h _ hother _ hproperty⟩

end Keys

/-! ## Defaults -/

section Defaults

variable {properties : List ImageProperty} {property : ImageProperty}

def isDefaultOf (group : String) (entry : Pb.AddImageProperty) : Bool :=
  entry.keyGroup = some group && entry.isGroupDefault = some true

/-- Each group of the entries has one default. -/
def OneDefault (entries : List Pb.AddImageProperty) : Prop :=
  ∀ entry ∈ entries, ∀ group, entry.keyGroup = some group → entries.countP (isDefaultOf group) = 1

/-- The default of a property is one of its values, where it has values. -/
def DefaultsNamed (properties : List ImageProperty) : Prop :=
  ∀ property ∈ properties, property.values ≠ [] → property.defaultValue ∈ property.values

theorem mem_values {value : String} : value ∈ property.values ↔ some value ∈ property.choices.map (·.1) := by
  unfold ImageProperty.values
  rw [List.mem_filterMap, List.mem_map]

theorem group_entry {entry : Pb.AddImageProperty} (h : entry ∈ property.entries) :
    ∃ choice ∈ property.choices, EntryOf property choice entry :=
  exists_of_forall₂ (entries_choices property).flip h

theorem entry_choice {choice : Option String × Option ImageImpact} (h : choice ∈ property.choices) :
    ∃ entry ∈ property.entries, EntryOf property choice entry :=
  exists_of_forall₂ (entries_choices property) h

/-- The defaults among the entries of a property are the choices of its default value. -/
theorem countP_entries (hvalues : property.values.Nodup) :
    property.entries.countP (isDefaultOf property.key) = if property.defaultValue ∈ property.values then 1 else 0 := by
  have hpairs : property.entries.map (fun entry => (entry.keyGroup, entry.isGroupDefault)) =
      property.choices.map fun choice => (choice.1.map fun _ => property.key, choice.1.map (property.defaultValue == ·)) :=
    map_eq_of_forall₂ (entries_choices property) fun _ _ h => by rw [h.group, h.isDefault]
  have hcount : property.entries.countP (isDefaultOf property.key) =
      (property.choices.map (·.1)).count (some property.defaultValue) := by
    have hentries : property.entries.countP (isDefaultOf property.key) =
        (property.entries.map fun entry => (entry.keyGroup, entry.isGroupDefault)).countP
          fun pair => pair.1 = some property.key && pair.2 = some true := by
      rw [List.countP_map]
      rfl
    rw [hentries, hpairs, List.countP_map, List.count, List.countP_map]
    refine List.countP_congr fun choice _ => ?_
    cases hvalue : choice.1 with
    | none => simp [hvalue]
    | some value => simpa [hvalue] using eq_comm
  rw [hcount, List.Nodup.count (nodup_choices hvalues)]
  exact if_congr mem_values.symm rfl rfl

theorem countP_other {group : String} (h : group ≠ property.key) : property.entries.countP (isDefaultOf group) = 0 := by
  rw [List.countP_eq_zero]
  intro entry hentry hdefault
  obtain ⟨choice, -, hof⟩ := group_entry hentry
  have hgroup : entry.keyGroup = some group := of_decide_eq_true (Bool.and_eq_true_iff.mp hdefault).1
  rw [hof.group] at hgroup
  obtain ⟨_, _, hkey⟩ := Option.map_eq_some_iff.mp hgroup
  exact h hkey.symm

/-- The defaults of the group of a property are among its own entries. -/
theorem countP_addProperties (hkeys : (properties.map (·.key)).Nodup) (hproperty : property ∈ properties) :
    (addProperties properties).countP (isDefaultOf property.key) = property.entries.countP (isDefaultOf property.key) := by
  obtain ⟨front, back, rfl⟩ := List.append_of_mem hproperty
  have hnone : ∀ others : List ImageProperty, (∀ other ∈ others, property.key ≠ other.key) →
      (others.flatMap (·.entries)).countP (isDefaultOf property.key) = 0 := by
    intro others hother
    rw [List.countP_eq_zero]
    intro entry hentry
    obtain ⟨other, hmem, hentry⟩ := List.mem_flatMap.mp hentry
    exact List.countP_eq_zero.mp (countP_other (hother other hmem)) entry hentry
  rw [List.map_append, List.map_cons, List.nodup_append] at hkeys
  have hfront : ∀ other ∈ front, property.key ≠ other.key := fun other hmem =>
    (hkeys.2.2 _ (List.mem_map_of_mem hmem) _ List.mem_cons_self).symm
  have hback : ∀ other ∈ back, property.key ≠ other.key := fun other hmem heq =>
    (List.nodup_cons.mp hkeys.2.1).1 (heq ▸ List.mem_map_of_mem hmem)
  unfold addProperties
  rw [List.flatMap_append, List.flatMap_cons, List.countP_append, List.countP_append, hnone front hfront, hnone back hback]
  omega

theorem oneDefault_iff (hkeys : (properties.map (·.key)).Nodup) (hvalues : ∀ property ∈ properties, property.values.Nodup) :
    OneDefault (addProperties properties) ↔ DefaultsNamed properties := by
  have hcount : ∀ property ∈ properties, (addProperties properties).countP (isDefaultOf property.key) =
      if property.defaultValue ∈ property.values then 1 else 0 := fun property hproperty => by
    rw [countP_addProperties hkeys hproperty, countP_entries (hvalues property hproperty)]
  constructor
  · intro h property hproperty hsome
    obtain ⟨value, hvalue⟩ := List.exists_mem_of_ne_nil _ hsome
    obtain ⟨choice, hchoice, hchosen⟩ := List.mem_map.mp (mem_values.mp hvalue)
    obtain ⟨entry, hentry, hof⟩ := entry_choice hchoice
    have hgroup : entry.keyGroup = some property.key := by rw [hof.group, hchosen, Option.map_some]
    have hone := h entry (List.mem_flatMap.mpr ⟨property, hproperty, hentry⟩) property.key hgroup
    rw [hcount property hproperty] at hone
    by_cases hnamed : property.defaultValue ∈ property.values
    · exact hnamed
    · rw [if_neg hnamed] at hone
      cases hone
  · intro h entry hentry group hgroup
    obtain ⟨property, hproperty, hentry⟩ := List.mem_flatMap.mp hentry
    obtain ⟨choice, hchoice, hof⟩ := group_entry hentry
    rw [hof.group] at hgroup
    obtain ⟨value, hvalue, hkey⟩ := Option.map_eq_some_iff.mp hgroup
    have hmem : value ∈ property.values := mem_values.mpr (hvalue ▸ List.mem_map_of_mem hchoice)
    rw [← hkey, hcount property hproperty, if_pos (h property hproperty (List.ne_nil_of_mem hmem))]

end Defaults

/-! ## Impacts -/

section Impacts

variable {properties : List ImageProperty}

/-- The entry has the bytes of the impact. -/
def HasBytes (impact : Option ImageImpact) (entry : Pb.AddImageProperty) : Prop :=
  entry.addMemoryBytes = impact.bind (fun impact => impact.addMemoryMb.map (· * 1000000)) ∧
    entry.addDiskBytes = impact.bind (fun impact => impact.addDiskGb.map (· * 1000000000))

/-- The bytes of the impact are numbers of 64 bits. -/
def InRange (impact : ImageImpact) : Prop :=
  (∀ mb ∈ impact.addMemoryMb, -9223372036854 ≤ mb ∧ mb ≤ 9223372036854) ∧
    ∀ gb ∈ impact.addDiskGb, -9223372036 ≤ gb ∧ gb ≤ 9223372036

theorem wrappingMul_eq_iff (a b : Int) : wrappingMul a b = a * b ↔ -2 ^ 63 ≤ a * b ∧ a * b < 2 ^ 63 := by
  unfold wrappingMul
  generalize a * b = c
  rw [Int.bmod_def]
  norm_num
  omega

theorem hasBytes_iff {property : ImageProperty} {choice : Option String × Option ImageImpact} {entry : Pb.AddImageProperty}
    (h : EntryOf property choice entry) : HasBytes choice.2 entry ↔ ∀ impact ∈ choice.2, InRange impact := by
  have hmap : ∀ (amount : Option Int) (unit : Int),
      amount.map (wrappingMul · unit) = amount.map (· * unit) ↔ ∀ a ∈ amount, -2 ^ 63 ≤ a * unit ∧ a * unit < 2 ^ 63 := by
    intro amount unit
    cases amount with
    | none => simp
    | some a => simpa using wrappingMul_eq_iff a unit
  unfold HasBytes
  rw [h.memory, h.disk]
  cases choice.2 with
  | none => simp
  | some impact =>
    simp only [Option.bind_some, Option.mem_some_iff, forall_eq', hmap, InRange]
    refine and_congr ?_ ?_
    · exact forall₂_congr fun mb _ => by omega
    · exact forall₂_congr fun gb _ => by omega

/-- Every entry has the bytes of its choice. -/
def BytesKept (properties : List ImageProperty) : Prop :=
  ∀ property ∈ properties, List.Forall₂ (fun choice entry => HasBytes choice.2 entry) property.choices property.entries

theorem bytesKept_iff :
    BytesKept properties ↔ ∀ property ∈ properties, ∀ choice ∈ property.choices, ∀ impact ∈ choice.2, InRange impact := by
  refine forall₂_congr fun property _ => ?_
  have hpairs := entries_choices property
  generalize property.choices = choices, property.entries = entries at hpairs
  induction hpairs with
  | nil => simp
  | cons hof _ ih =>
    rw [List.forall₂_cons, List.forall_mem_cons, hasBytes_iff hof]
    exact and_congr Iff.rfl ih

/-- **Well-formed entries**: of different keys, with one default in each group, and without an overflow. -/
theorem addProperties_iff (hkeys : (properties.map (·.key)).Nodup) (hvalues : ∀ property ∈ properties, property.values.Nodup) :
    ((addProperties properties).map (·.key)).Nodup ∧ OneDefault (addProperties properties) ∧ BytesKept properties ↔
      Apart properties ∧ DefaultsNamed properties ∧
        ∀ property ∈ properties, ∀ choice ∈ property.choices, ∀ impact ∈ choice.2, InRange impact := by
  rw [nodup_keys_iff hkeys hvalues, oneDefault_iff hkeys hvalues, bytesKept_iff]

end Impacts

/-! ## Properties that are accepted -/

section Accepted

def numbers (memory disk : Int) : ImageImpact := ⟨false, none, some memory, some disk⟩

def pruned : ImageProperty := ⟨"pruned", "Pruned", none, false, "on", .switch (some (numbers 500 (-100))) none, none⟩

def client : ImageProperty :=
  ⟨"client", "Client", none, false, "geth", .enum [⟨"geth", "Geth", none⟩, ⟨"reth", "Reth", some (numbers 1000 50)⟩], none⟩

/-- A text whose key is that of an entry of the switch. -/
def prunedOn : ImageProperty := ⟨"pruned-on", "Pruned?", none, false, "yes", .text none, none⟩

/-- An enumeration without its default, and with a number of gigabytes that has too many bytes. -/
def storage : ImageProperty :=
  ⟨"storage", "Storage", none, false, "none", .enum [⟨"large", "Large", some (numbers 0 10000000000)⟩], none⟩

def imageWith (properties : List ImageProperty) : ImageVariant where
  version := "1.0.0"
  containerUri := "docker://image"
  protocolKey := "eth"
  orgId := none
  description := none
  visibility := .pub
  properties := properties
  firewallConfig := ⟨.deny, .allow, []⟩
  variantKey := "geth-mainnet-full"
  skuCode := "ETH-GTH-MF"
  archivePointers := []
  minCpu := 1
  minMemoryMb := 1000
  minDiskGb := 10
  ramdisks := []
  metadata := []
  dnsScheme := none

def plainParsers : Parsers := ⟨(· = "1.0.0"), (· = "docker://image"), fun _ => false⟩

theorem client_wellFormed :
    ((addProperties [pruned, client]).map (·.key)).Nodup ∧ OneDefault (addProperties [pruned, client]) ∧
      BytesKept [pruned, client] := by
  refine (addProperties_iff (by decide) (by decide)).mpr ⟨?_, ?_, ?_⟩
  · intro property hproperty longer hlonger more hmore hkey
    have hsame : ∀ property ∈ [pruned, client], ∀ longer ∈ [pruned, client],
        property.key.toList <+: longer.key.toList → property.key = longer.key := by decide
    rw [hsame property hproperty longer hlonger ⟨more, hkey.symm⟩] at hkey
    exact absurd (List.self_eq_append_right.mp hkey) hmore
  · unfold DefaultsNamed
    decide
  · unfold InRange
    decide

/-- An image that is accepted, with none of the three. -/
theorem accepted_malformed :
    (imageWith [pruned, prunedOn, storage]).validate plainParsers = .ok () ∧
      ([pruned, prunedOn, storage].map (·.key)).Nodup ∧ (∀ property ∈ [pruned, prunedOn, storage], property.values.Nodup) ∧
      ¬ ((addProperties [pruned, prunedOn, storage]).map (·.key)).Nodup ∧
      ¬ OneDefault (addProperties [pruned, prunedOn, storage]) ∧ ¬ BytesKept [pruned, prunedOn, storage] := by
  refine ⟨by decide, by decide, by decide, by decide, ?_, ?_⟩
  · rw [oneDefault_iff (by decide) (by decide)]
    unfold DefaultsNamed
    decide
  · rw [bytesKept_iff]
    simp [pruned, prunedOn, storage, ImageProperty.choices, numbers, InRange]

end Accepted

end Nib

end Blockvisor
