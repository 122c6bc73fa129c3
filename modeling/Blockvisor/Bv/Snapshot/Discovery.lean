/-
How the snapper finds a snapshot (`api_service.rs`). It lists the store keys of
the bucket and the versions under each, asks the archive service for the
metadata of a store key that has a complete version, sorts what it has got by
protocol, client and network, and looks there for what was asked for.

A listing is read for its first page alone, and a store key is given once,
with the version that the service takes for the latest: an older version is
not found (`old_version_not_found`). `found_iff` says what is.
-/
import Blockvisor.Babel.Engine
import Blockvisor.Lib.Groups
import Blockvisor.Lib.Text
import Mathlib.Data.List.Nodup
import Mathlib.Data.List.Perm.Basic
import Mathlib.Data.List.TakeWhile
import Mathlib.Order.Lattice.Nat

namespace Blockvisor

namespace Snapshot

/-! ## The bucket -/

/-- The text up to the first `/` behind the prefix, as a listing with this delimiter gives it. -/
def commonPrefix (pre object : String) : Option String :=
  if pre.toList <+: object.toList then
    let rest := object.toList.drop pre.length
    if '/' ∈ rest then some (String.ofList (pre.toList ++ rest.takeWhile (· ≠ '/') ++ ['/'])) else none
  else none

/-- The objects of a bucket, and the pages of its listings: each common prefix is on one of them, in any order. -/
structure Bucket where
  objects : List String
  pages : String → List (List String)
  complete : ∀ pre path, path ∈ (pages pre).flatten ↔ ∃ object ∈ objects, commonPrefix pre object = some path
  once : ∀ pre, (pages pre).flatten.Nodup

/-- `list_objects_v2`, without a continuation token. -/
def Bucket.list (bucket : Bucket) (pre : String) : List String := (bucket.pages pre).headD []

/-- `head_object`. -/
def Bucket.head (bucket : Bucket) (key : String) : Bool := key ∈ bucket.objects

/-- `trim_end_matches`, for a character. -/
def trimEnd (text : String) (c : Char) : String := String.ofList (text.toList.reverse.dropWhile (· = c)).reverse

/-- A text without the copies of another one before it, to a number of them that bounds the recursion. -/
def dropCopies (copy : List Char) : Nat → List Char → List Char
  | 0, text => text
  | n + 1, text => if copy ≠ [] ∧ copy <+: text then dropCopies copy n (text.drop copy.length) else text

/-- `trim_start_matches`. -/
def trimStart (text copy : String) : String := String.ofList (dropCopies copy.toList text.length text.toList)

/-- `trim_end_matches`. -/
def trimEndMatches (text copy : String) : String :=
  String.ofList (dropCopies copy.toList.reverse text.length text.toList.reverse).reverse

/-- The version that a path under a store key names. -/
def versionOf (storeKey path : String) : String := trimEnd (trimStart path s!"{storeKey}/") '/'

/-- Both manifests are there. -/
def Bucket.manifests (bucket : Bucket) (storeKey version : String) : Bool :=
  bucket.head s!"{storeKey}/{version}/manifest-header.json" && bucket.head s!"{storeKey}/{version}/manifest-body.json"

/-- The store keys with a version that has its manifests. -/
def Bucket.discoverSnapshotsFromS3 (bucket : Bucket) : List String :=
  ((bucket.list "").map (trimEnd · '/')).filter fun storeKey =>
    (bucket.list s!"{storeKey}/").any fun path => bucket.manifests storeKey (versionOf storeKey path)

/-! ## Metadata -/

structure SnapshotMetadata where
  protocol : String
  client : String
  network : String
  nodeType : String
  version : Nat
  totalSize : Nat
  chunks : Nat
  compression : Option Compression
  archiveUuid : String
  archiveId : String
  fullPath : String
  deriving DecidableEq

structure SnapshotDownloadInfo where
  protocol : String
  client : String
  network : String
  nodeType : String
  version : Nat
  archiveId : String
  fullPath : String
  totalSize : Nat
  chunks : Nat
  compression : Option Compression
  deriving DecidableEq

/-- `parse_archive_id`: the protocol, the client, the network and the node type. -/
def parseArchiveId (archiveId : String) : Except String (String × String × String × String) :=
  if ¬ "-v1".toList <:+ archiveId.toList then .error "Archive ID must end with -v1"
  else
    let parts := ((trimEndMatches archiveId "-v1").toList.splitOn '-').map String.ofList
    if parts.length < 4 then .error "Invalid archive ID format, need at least protocol-client-network-nodetype"
    else
      let known := parts.drop (parts.length - 3)
      .ok ("-".intercalate (parts.take (parts.length - 3)), known.getD 0 "", known.getD 1 "", known.getD 2 "")

abbrev Networks := List (String × List SnapshotMetadata)

abbrev Clients := List (String × Networks)

abbrev ProtocolGroups := List (String × Clients)

/-- The orders in which hash maps give their entries. -/
structure HashOrder where
  order : {α : Type} → List α → List α
  perm : ∀ {α : Type} (l : List α), (order l).Perm l

/-- The archive service: the metadata of a store key, of the version asked for or of the latest. -/
abbrev ArchiveService := String → Option Nat → Except String DownloadMetadata

def snapshotOf (service : ArchiveService) (storeKey : String) : Option SnapshotMetadata :=
  match service storeKey none with
  | .error _ => none
  | .ok metadata =>
    match parseArchiveId storeKey with
    | .error _ => none
    | .ok (protocol, client, network, nodeType) =>
      some ⟨protocol, client, network, nodeType, metadata.dataVersion, metadata.totalSize, metadata.chunks, metadata.compression,
        storeKey, storeKey, s!"{storeKey}/{metadata.dataVersion}"⟩

def addSnapshot (groups : ProtocolGroups) (snapshot : SnapshotMetadata) : ProtocolGroups :=
  Groups.entry snapshot.protocol [] (Groups.entry snapshot.client [] (Groups.entry snapshot.network [] (· ++ [snapshot]))) groups

def discoverSnapshots (hash : HashOrder) (bucket : Bucket) (service : ArchiveService) : ProtocolGroups :=
  let groups := (bucket.discoverSnapshotsFromS3.filterMap (snapshotOf service)).foldl addSnapshot []
  (hash.order groups).mergeSort fun a b => a.1 ≤ b.1

def getDownloadMetadata (service : ArchiveService) (snapshot : SnapshotMetadata) : Except String SnapshotDownloadInfo :=
  (service snapshot.archiveUuid (some snapshot.version)).map fun metadata =>
    ⟨snapshot.protocol, snapshot.client, snapshot.network, snapshot.nodeType, snapshot.version, snapshot.archiveId,
      snapshot.fullPath, metadata.totalSize, metadata.chunks, metadata.compression⟩

/-- The store key and the version of a request. -/
def parseRequest (storeKey : String) : Except String (String × Option Nat) :=
  match Text.splitOnce storeKey '/' with
  | none => .ok (storeKey, none)
  | some (base, version) =>
    match Text.parseUsize version with
    | some version => .ok (base, some version)
    | none => .error s!"Invalid version in store key: {storeKey}"

/-- The lists of snapshots, as the search comes to them: one for each network of a client of a protocol. -/
def visited (hash : HashOrder) (groups : ProtocolGroups) : List (List SnapshotMetadata) :=
  groups.flatMap fun group => (hash.order group.2).flatMap fun client => (hash.order client.2).map (·.2)

/-- `max_by_key`, which gives the last of the greatest. -/
def latest : List SnapshotMetadata → Option SnapshotMetadata
  | [] => none
  | first :: rest => some (rest.foldl (fun a b => if b.version < a.version then a else b) first)

def getDownloadMetadataByStoreKey (hash : HashOrder) (bucket : Bucket) (service : ArchiveService) (storeKey : String) :
    Except String SnapshotDownloadInfo :=
  match parseRequest storeKey with
  | .error msg => .error msg
  | .ok (baseArchiveId, requestedVersion) =>
    let found := ((visited hash (discoverSnapshots hash bucket service)).map fun snapshots =>
      snapshots.filter (·.archiveId = baseArchiveId)).find? (· ≠ [])
    match found with
    | none => .error s!"Archive with store key '{storeKey}' not found"
    | some matching =>
      match requestedVersion with
      | some version =>
        match matching.find? (·.version = version) with
        | some snapshot => getDownloadMetadata service snapshot
        | none => .error s!"Version {version} not found for archive '{baseArchiveId}'"
      | none =>
        match latest matching with
        | some snapshot => getDownloadMetadata service snapshot
        | none => .error s!"No versions found for archive '{baseArchiveId}'"

/-! ## The search -/

section Search

variable {hash : HashOrder}

/-- All snapshots of the groups. -/
def allOf (groups : ProtocolGroups) : List SnapshotMetadata :=
  groups.flatMap fun group => group.2.flatMap fun client => client.2.flatMap fun network => network.2

theorem allOf_addSnapshot (groups : ProtocolGroups) (snapshot : SnapshotMetadata) :
    (allOf (addSnapshot groups snapshot)).Perm (allOf groups ++ [snapshot]) := by
  unfold allOf addSnapshot
  refine Groups.flatMap_entry (fun clients => ?_) rfl groups
  refine Groups.flatMap_entry (fun networks => ?_) rfl clients
  exact Groups.flatMap_entry (g := id) (fun snapshots => .refl _) rfl networks

theorem allOf_foldl (snapshots : List SnapshotMetadata) (groups : ProtocolGroups) :
    (allOf (snapshots.foldl addSnapshot groups)).Perm (allOf groups ++ snapshots) := by
  induction snapshots generalizing groups with
  | nil => simp
  | cons snapshot rest ih =>
    rw [List.foldl_cons]
    refine (ih _).trans ?_
    have hadded := (allOf_addSnapshot groups snapshot).append_right rest
    rwa [List.append_assoc] at hadded

/-- The search comes to each snapshot. -/
theorem flatten_visited (hash : HashOrder) (groups : ProtocolGroups) : (visited hash groups).flatten.Perm (allOf groups) := by
  unfold visited allOf
  rw [List.flatten_eq_flatMap, List.flatMap_assoc]
  refine List.Perm.flatMap_left _ fun group _ => ?_
  rw [List.flatMap_assoc]
  refine List.Perm.flatMap (hash.perm group.2) fun client _ => ?_
  rw [List.flatMap_map]
  exact (hash.perm client.2).flatMap_right _

/-- The first list with something in it, where the lists have one thing in all. -/
theorem find?_of_flatten {α : Type} [DecidableEq α] {lists : List (List α)} {a : α} (h : lists.flatten = [a]) :
    lists.find? (· ≠ []) = some [a] := by
  induction lists with
  | nil => cases h
  | cons l rest ih =>
    rw [List.flatten_cons] at h
    cases l with
    | nil =>
      rw [List.find?_cons_of_neg (by simp)]
      exact ih h
    | cons b l =>
      obtain ⟨rfl, hrest⟩ := List.cons.inj h
      obtain ⟨rfl, _⟩ := List.append_eq_nil_iff.mp hrest
      exact List.find?_cons_of_pos (by simp)

theorem find?_of_flatten_nil {α : Type} [DecidableEq α] {lists : List (List α)} (h : lists.flatten = []) :
    lists.find? (· ≠ []) = none := by
  rw [List.find?_eq_none]
  intro l hl
  simpa using List.flatten_eq_nil_iff.mp h l hl

/-- The search comes to the snapshots that were discovered. -/
theorem flatten_discovered (hash : HashOrder) (bucket : Bucket) (service : ArchiveService) :
    (visited hash (discoverSnapshots hash bucket service)).flatten.Perm
      (bucket.discoverSnapshotsFromS3.filterMap (snapshotOf service)) := by
  refine (flatten_visited hash _).trans ?_
  unfold discoverSnapshots
  have hsorted : ∀ groups : ProtocolGroups, (allOf ((hash.order groups).mergeSort fun a b => a.1 ≤ b.1)).Perm (allOf groups) :=
    fun groups => ((List.mergeSort_perm _ _).trans (hash.perm groups)).flatMap_right _
  refine (hsorted _).trans ?_
  simpa [allOf] using allOf_foldl (bucket.discoverSnapshotsFromS3.filterMap (snapshotOf service)) []

end Search

/-! ## The discovered store keys -/

section Keys

variable {bucket : Bucket} {storeKey path : String}

/-- The listings know of the store key: its prefix is on the first page of the bucket, and on the first page of its versions
there is one that has its manifests. -/
def Listed (bucket : Bucket) (storeKey : String) : Prop :=
  s!"{storeKey}/" ∈ bucket.list "" ∧
    ∃ path ∈ bucket.list s!"{storeKey}/", bucket.manifests storeKey (versionOf storeKey path) = true

theorem list_subset (bucket : Bucket) (pre : String) : bucket.list pre ⊆ (bucket.pages pre).flatten := by
  unfold Bucket.list
  cases bucket.pages pre with
  | nil => exact List.nil_subset _
  | cons first rest => exact List.subset_append_left ..

theorem nodup_list (bucket : Bucket) (pre : String) : (bucket.list pre).Nodup := by
  have honce := bucket.once pre
  unfold Bucket.list
  cases hpages : bucket.pages pre with
  | nil => exact List.nodup_nil
  | cons first rest =>
    rw [hpages, List.flatten_cons] at honce
    exact (List.nodup_append.mp honce).1

theorem trimEnd_slash {text : List Char} (h : '/' ∉ text) : trimEnd (String.ofList (text ++ ['/'])) '/' = String.ofList text := by
  have hkept : text.reverse.dropWhile (· = '/') = text.reverse := by
    rw [List.dropWhile_eq_self_iff]
    intro hpos hslash
    have heq : text.reverse[0] = '/' := by simpa using hslash
    exact h (List.mem_reverse.mp (heq ▸ List.getElem_mem hpos))
  unfold trimEnd
  rw [String.toList_ofList, List.reverse_append, List.reverse_singleton, List.singleton_append,
    List.dropWhile_cons_of_pos (by simp), hkept, List.reverse_reverse]

theorem key_slash (storeKey : String) : s!"{storeKey}/" = String.ofList (storeKey.toList ++ ['/']) := by
  refine String.toList_inj.mp ?_
  rw [String.toList_ofList, String.toList_append]
  rfl

theorem trimEnd_key (h : '/' ∉ storeKey.toList) : trimEnd s!"{storeKey}/" '/' = storeKey := by
  rw [key_slash, trimEnd_slash h, String.ofList_toList]

/-- A prefix of the bucket is a store key with a `/`. -/
theorem list_key (h : path ∈ bucket.list "") (hkey : trimEnd path '/' = storeKey) :
    path = s!"{storeKey}/" ∧ '/' ∉ storeKey.toList := by
  obtain ⟨object, _, hprefix⟩ := (bucket.complete "" path).mp (list_subset bucket "" h)
  have hslash : '/' ∉ object.toList.takeWhile (· ≠ '/') := fun hmem => by simpa using List.mem_takeWhile_imp hmem
  have hpath : path = String.ofList (object.toList.takeWhile (· ≠ '/') ++ ['/']) := by
    simp only [commonPrefix] at hprefix
    split at hprefix
    · split at hprefix
      · exact (Option.some.inj hprefix).symm
      · cases hprefix
    · cases hprefix
  have htrim : trimEnd path '/' = String.ofList (object.toList.takeWhile (· ≠ '/')) := by rw [hpath, trimEnd_slash hslash]
  rw [← hkey, htrim, key_slash, String.toList_ofList]
  exact ⟨hpath, hslash⟩

theorem discovered_iff (h : '/' ∉ storeKey.toList) : storeKey ∈ bucket.discoverSnapshotsFromS3 ↔ Listed bucket storeKey := by
  unfold Bucket.discoverSnapshotsFromS3 Listed
  rw [List.mem_filter, List.any_eq_true, List.mem_map]
  refine and_congr ⟨fun hmem => ?_, fun hmem => ?_⟩ Iff.rfl
  · obtain ⟨path, hpath, hkey⟩ := hmem
    rwa [← (list_key hpath hkey).1]
  · exact ⟨_, hmem, trimEnd_key h⟩

theorem nodup_discovered (bucket : Bucket) : bucket.discoverSnapshotsFromS3.Nodup := by
  refine List.Nodup.filter _ ?_
  refine List.Nodup.map_on (fun path hpath other hother heq => ?_) (nodup_list bucket "")
  exact (list_key hpath rfl).1.trans (list_key hother heq.symm).1.symm

end Keys

/-! ## What is found -/

section Found

variable {hash : HashOrder} {bucket : Bucket} {service : ArchiveService} {storeKey : String} {v : Nat}

/-- The version has both its manifests. -/
def Exists (bucket : Bucket) (storeKey : String) (v : Nat) : Prop :=
  v < 2 ^ 64 ∧ bucket.manifests storeKey (toString v) = true

def Greatest (bucket : Bucket) (storeKey : String) (v : Nat) : Prop :=
  Exists bucket storeKey v ∧ ∀ w, Exists bucket storeKey w → w ≤ v

/-- The service answers with the version asked for, or else with the latest. -/
structure Answers (bucket : Bucket) (service : ArchiveService) : Prop where
  requested : ∀ {storeKey v}, Exists bucket storeKey v →
    ∃ metadata, service storeKey (some v) = .ok metadata ∧ metadata.dataVersion = v
  latest : ∀ {storeKey v}, Greatest bucket storeKey v →
    ∃ metadata, service storeKey none = .ok metadata ∧ metadata.dataVersion = v

/-- What was asked for is answered with the metadata of this version. -/
def Finds (service : ArchiveService) (storeKey : String) (v : Nat) (answer : Except String SnapshotDownloadInfo) : Prop :=
  ∃ metadata info, service storeKey (some v) = .ok metadata ∧ answer = .ok info ∧ info.archiveId = storeKey ∧ info.version = v ∧
    info.totalSize = metadata.totalSize ∧ info.chunks = metadata.chunks ∧ info.compression = metadata.compression

/-- A store key without a `/`, of at least four parts before its `-v1`. -/
def WellFormed (storeKey : String) : Prop :=
  '/' ∉ storeKey.toList ∧ ∃ parts, parseArchiveId storeKey = .ok parts

theorem exists_greatest (h : Exists bucket storeKey v) : ∃ w, Greatest bucket storeKey w := by
  have hbound : BddAbove {w | Exists bucket storeKey w} := ⟨2 ^ 64, fun w hw => hw.1.le⟩
  exact ⟨_, Nat.sSup_mem ⟨v, h⟩ hbound, fun w hw => le_csSup hbound hw⟩

theorem snapshotOf_archiveId {snapshot : SnapshotMetadata} (h : snapshotOf service storeKey = some snapshot) :
    snapshot.archiveId = storeKey := by
  unfold snapshotOf at h
  split at h
  · cases h
  · split at h
    · cases h
    · cases h
      rfl

theorem snapshotOf_greatest (hservice : Answers bucket service) (hkey : WellFormed storeKey) (hv : Greatest bucket storeKey v) :
    ∃ snapshot, snapshotOf service storeKey = some snapshot ∧ snapshot.version = v ∧ snapshot.archiveUuid = storeKey := by
  obtain ⟨metadata, hmetadata, hversion⟩ := hservice.latest hv
  obtain ⟨⟨protocol, client, network, nodeType⟩, hparsed⟩ := hkey.2
  refine ⟨_, by unfold snapshotOf; rw [hmetadata]; simp only; rw [hparsed], hversion, rfl⟩

/-- What is kept of a key's images is the image of this key. -/
theorem filter_filterMap {l : List String} {f : String → Option SnapshotMetadata} (hl : l.Nodup)
    (hf : ∀ {a b}, f a = some b → b.archiveId = a) (key : String) :
    (l.filterMap f).filter (·.archiveId = key) = if key ∈ l then (f key).toList else [] := by
  have hnone : ∀ {l : List String}, key ∉ l → (l.filterMap f).filter (·.archiveId = key) = [] := by
    intro l hmem
    refine List.filter_eq_nil_iff.mpr fun b hb heq => hmem ?_
    obtain ⟨a, ha, hab⟩ := List.mem_filterMap.mp hb
    have hkey : b.archiveId = key := by simpa using heq
    rwa [← hkey, hf hab]
  split
  · rename_i hmem
    obtain ⟨front, back, rfl⟩ := List.append_of_mem hmem
    obtain ⟨hfront, hback⟩ : key ∉ front ∧ key ∉ back := by
      have hsplit := List.nodup_append.mp hl
      exact ⟨fun h => hsplit.2.2 key h key (by simp) rfl, (List.nodup_cons.mp hsplit.2.1).1⟩
    rw [List.filterMap_append, List.filter_append, hnone hfront, List.nil_append, List.filterMap_cons]
    cases hkey : f key with
    | none => exact hnone hback
    | some b => rw [List.filter_cons_of_pos (by simp [hf hkey]), hnone hback, Option.toList_some]
  · rename_i hmem
    exact hnone hmem

/-- The snapshot that a search for the store key comes to. -/
def discovered (bucket : Bucket) (service : ArchiveService) (storeKey : String) : Option SnapshotMetadata :=
  if storeKey ∈ bucket.discoverSnapshotsFromS3 then snapshotOf service storeKey else none

/-- The search finds the one snapshot of a listed store key. -/
theorem found_of_key (hash : HashOrder) (bucket : Bucket) (service : ArchiveService) (storeKey : String) :
    ((visited hash (discoverSnapshots hash bucket service)).map fun snapshots =>
        snapshots.filter (·.archiveId = storeKey)).flatten = (discovered bucket service storeKey).toList := by
  have hperm := (flatten_discovered hash bucket service).filter (·.archiveId = storeKey)
  rw [filter_filterMap (nodup_discovered bucket) snapshotOf_archiveId, List.filter_flatten] at hperm
  unfold discovered
  split
  · rename_i hmem
    rw [if_pos hmem] at hperm
    cases hsnapshot : snapshotOf service storeKey with
    | none =>
      rw [hsnapshot] at hperm
      exact hperm.eq_nil
    | some snapshot =>
      rw [hsnapshot] at hperm
      exact List.perm_singleton.mp hperm
  · rename_i hmem
    rw [if_neg hmem] at hperm
    exact hperm.eq_nil

theorem splitOnce_key (h : '/' ∉ storeKey.toList) (rest : String) :
    Text.splitOnce s!"{storeKey}/{rest}" '/' = some (storeKey, rest) := by
  have hall : ∀ c ∈ storeKey.toList, (decide (c ≠ '/')) = true := fun c hc => by
    simp only [decide_eq_true_eq]
    exact fun hslash => h (hslash ▸ hc)
  have htext : s!"{storeKey}/{rest}".toList = storeKey.toList ++ '/' :: rest.toList := by
    rw [String.toList_append, String.toList_append, List.append_assoc]
    rfl
  unfold Text.splitOnce
  rw [htext, List.dropWhile_append_of_pos hall, List.takeWhile_append_of_pos hall]
  simp

theorem parseRequest_key (h : '/' ∉ storeKey.toList) : parseRequest storeKey = .ok (storeKey, none) := by
  have hall : storeKey.toList.dropWhile (fun c => decide (c ≠ '/')) = [] := by
    rw [List.dropWhile_eq_nil_iff]
    intro c hc
    simp only [decide_eq_true_eq]
    exact fun hslash => h (hslash ▸ hc)
  unfold parseRequest Text.splitOnce
  rw [hall]

theorem parseRequest_version (h : '/' ∉ storeKey.toList) (hv : v < 2 ^ 64) :
    parseRequest s!"{storeKey}/{v}" = .ok (storeKey, some v) := by
  have hsplit := splitOnce_key h (toString v)
  unfold parseRequest
  show (match Text.splitOnce s!"{storeKey}/{toString v}" '/' with | none => _ | some (base, version) => _) = _
  rw [hsplit]
  simp only [Text.parseUsize_toString hv]

/-- The metadata of the version that the snapshot names. -/
theorem finds_snapshot (hservice : Answers bucket service) (hv : Exists bucket storeKey v) {snapshot : SnapshotMetadata}
    (hid : snapshot.archiveId = storeKey) (hversion : snapshot.version = v) (huuid : snapshot.archiveUuid = storeKey) :
    Finds service storeKey v (getDownloadMetadata service snapshot) := by
  obtain ⟨metadata, hmetadata, -⟩ := hservice.requested hv
  have hanswer : getDownloadMetadata service snapshot = .ok ⟨snapshot.protocol, snapshot.client, snapshot.network,
      snapshot.nodeType, snapshot.version, snapshot.archiveId, snapshot.fullPath, metadata.totalSize, metadata.chunks,
      metadata.compression⟩ := by
    unfold getDownloadMetadata
    rw [huuid, hversion, hmetadata]
    rfl
  exact ⟨metadata, _, hmetadata, hanswer, hid, hversion, rfl, rfl, rfl⟩

/-- What is answered for a version. -/
theorem answer_version (hash : HashOrder) (hkey : '/' ∉ storeKey.toList) (hv : v < 2 ^ 64) :
    getDownloadMetadataByStoreKey hash bucket service s!"{storeKey}/{v}" =
      match discovered bucket service storeKey with
      | none => .error s!"Archive with store key '{storeKey}/{v}' not found"
      | some snapshot =>
        if snapshot.version = v then getDownloadMetadata service snapshot
        else .error s!"Version {v} not found for archive '{storeKey}'" := by
  have hfound := found_of_key hash bucket service storeKey
  unfold getDownloadMetadataByStoreKey
  rw [parseRequest_version hkey hv]
  cases hsnapshot : discovered bucket service storeKey with
  | none =>
    rw [hsnapshot] at hfound
    simp only [find?_of_flatten_nil hfound]
    show Except.error ("Archive with store key '" ++ (storeKey ++ "/" ++ toString v) ++ "' not found") =
      .error ("Archive with store key '" ++ storeKey ++ "/" ++ toString v ++ "' not found")
    simp only [String.append_assoc]
  | some snapshot =>
    rw [hsnapshot] at hfound
    simp only [find?_of_flatten hfound]
    by_cases hsame : snapshot.version = v
    · rw [List.find?_cons_of_pos (by simpa using hsame), if_pos hsame]
    · rw [List.find?_cons_of_neg (by simpa using hsame), List.find?_nil, if_neg hsame]

/-- What is answered without one. -/
theorem answer_latest (hash : HashOrder) (hkey : '/' ∉ storeKey.toList) :
    getDownloadMetadataByStoreKey hash bucket service storeKey =
      match discovered bucket service storeKey with
      | none => .error s!"Archive with store key '{storeKey}' not found"
      | some snapshot => getDownloadMetadata service snapshot := by
  have hfound := found_of_key hash bucket service storeKey
  unfold getDownloadMetadataByStoreKey
  rw [parseRequest_key hkey]
  cases hsnapshot : discovered bucket service storeKey with
  | none =>
    rw [hsnapshot] at hfound
    simp only [find?_of_flatten_nil hfound]
  | some snapshot =>
    rw [hsnapshot] at hfound
    simp only [find?_of_flatten hfound]
    rfl

/-- **What is found**: the greatest version alone, of a store key that the first pages list. -/
theorem found_iff (hash : HashOrder) (hservice : Answers bucket service) (hkey : WellFormed storeKey)
    (hv : Exists bucket storeKey v) :
    (Finds service storeKey v (getDownloadMetadataByStoreKey hash bucket service s!"{storeKey}/{v}") ↔
      Listed bucket storeKey ∧ Greatest bucket storeKey v) ∧
    (Greatest bucket storeKey v →
      (Finds service storeKey v (getDownloadMetadataByStoreKey hash bucket service storeKey) ↔ Listed bucket storeKey)) := by
  obtain ⟨w, hw⟩ := exists_greatest hv
  obtain ⟨snapshot, hsnapshot, hversion, huuid⟩ := snapshotOf_greatest hservice hkey hw
  have hid := snapshotOf_archiveId hsnapshot
  have hnothing : ∀ {answer : String}, ¬ Finds service storeKey v (.error answer) := by
    intro answer hfinds
    obtain ⟨_, _, _, herror, _⟩ := hfinds
    cases herror
  rw [answer_version hash hkey.1 hv.1, answer_latest hash hkey.1]
  by_cases hlisted : Listed bucket storeKey
  · have hdiscovered : discovered bucket service storeKey = some snapshot := by
      rw [discovered, if_pos ((discovered_iff hkey.1).mpr hlisted), hsnapshot]
    simp only [hdiscovered]
    refine ⟨?_, fun hgreatest => iff_of_true ?_ hlisted⟩
    · by_cases hsame : snapshot.version = v
      · rw [if_pos hsame]
        have hvw : v = w := hsame.symm.trans hversion
        exact iff_of_true (finds_snapshot hservice hv hid hsame huuid) ⟨hlisted, hvw ▸ hw⟩
      · rw [if_neg hsame]
        refine iff_of_false hnothing fun h => hsame ?_
        rw [hversion]
        exact Nat.le_antisymm (h.2.2 w hw.1) (hw.2 v hv)
    · have hvw : w = v := Nat.le_antisymm (hgreatest.2 w hw.1) (hw.2 v hv)
      exact finds_snapshot hservice hv hid (hversion.trans hvw) huuid
  · have hdiscovered : discovered bucket service storeKey = none := by
      rw [discovered, if_neg fun hmem => hlisted ((discovered_iff hkey.1).mp hmem)]
    simp only [hdiscovered]
    exact ⟨iff_of_false hnothing fun h => hlisted h.1, fun _ => iff_of_false hnothing hlisted⟩

/-! ## What is listed -/

theorem dash_mem (h : WellFormed storeKey) : '-' ∈ storeKey.toList := by
  obtain ⟨parts, hparsed⟩ := h.2
  unfold parseArchiveId at hparsed
  split at hparsed
  · cases hparsed
  · rename_i hsuffix
    have hsuffix : "-v1".toList <:+ storeKey.toList := by simpa using hsuffix
    exact hsuffix.subset (by simp)

theorem slash_toString (v : Nat) : '/' ∉ (toString v).toList := fun h => by
  have hdigit := Text.isDigit_toString _ h
  exact absurd hdigit (by decide)

/-- The version in a path is the version that the path is of. -/
theorem versionOf_path (h : WellFormed storeKey) (v : Nat) : versionOf storeKey s!"{storeKey}/{v}/" = toString v := by
  have hother : ¬ s!"{storeKey}/".toList <+: (toString v).toList ++ ['/'] := by
    intro hprefix
    have hdash : '-' ∈ (toString v).toList ++ ['/'] := hprefix.subset (by
      rw [key_slash, String.toList_ofList]
      exact List.mem_append_left _ (dash_mem h))
    cases List.mem_append.mp hdash with
    | inl hv => exact absurd (Text.isDigit_toString _ hv) (by decide)
    | inr hslash => exact absurd hslash (by decide)
  have hrest : ∀ n, dropCopies s!"{storeKey}/".toList n ((toString v).toList ++ ['/']) = (toString v).toList ++ ['/'] := by
    intro n
    cases n with
    | zero => rfl
    | succ n => exact if_neg fun hcopy => hother hcopy.2
  have htext : s!"{storeKey}/{v}/".toList = s!"{storeKey}/".toList ++ ((toString v).toList ++ ['/']) := by
    rw [key_slash, String.toList_append, String.toList_append, List.append_assoc]
    rfl
  have hlength : s!"{storeKey}/{v}/".length = (s!"{storeKey}/{v}/".length - 1) + 1 := by
    have hlength := congrArg List.length htext
    rw [List.length_append, List.length_append, String.length_toList, List.length_singleton] at hlength
    omega
  have hcopy : s!"{storeKey}/".toList ≠ [] := by
    rw [key_slash, String.toList_ofList]
    simp
  unfold versionOf trimStart
  rw [hlength, dropCopies, htext, if_pos ⟨hcopy, List.prefix_append ..⟩, List.drop_left, hrest, trimEnd_slash (slash_toString v),
    String.ofList_toList]

/-- A store key is listed if the first pages have it and one of its versions. -/
theorem listed_of_first (hkey : WellFormed storeKey) (hv : Exists bucket storeKey v) (hbucket : s!"{storeKey}/" ∈ bucket.list "")
    (hversions : s!"{storeKey}/{v}/" ∈ bucket.list s!"{storeKey}/") : Listed bucket storeKey :=
  ⟨hbucket, _, hversions, by rw [versionOf_path hkey]; exact hv.2⟩

theorem toList_object (storeKey version : String) {file : String} {name : List Char} (h : file.toList = '/' :: name) :
    s!"{storeKey}/{version}{file}".toList = storeKey.toList ++ '/' :: (version.toList ++ '/' :: name) := by
  rw [String.toList_append, String.toList_append, String.toList_append, List.append_assoc, List.append_assoc]
  show storeKey.toList ++ ('/' :: (version.toList ++ file.toList)) = _
  rw [h]

/-- What a delimited listing gives for an object below the prefix. -/
theorem commonPrefix_object {pre : String} {object : String} {part rest : List Char} (hpart : '/' ∉ part)
    (h : object.toList = pre.toList ++ (part ++ '/' :: rest)) :
    commonPrefix pre object = some (String.ofList (pre.toList ++ part ++ ['/'])) := by
  have hdrop : object.toList.drop pre.length = part ++ '/' :: rest := by
    rw [h, ← String.length_toList, List.drop_left]
  have hall : ∀ c ∈ part, decide (c ≠ '/') = true := fun c hc => by
    simp only [decide_eq_true_eq]
    exact fun hslash => hpart (hslash ▸ hc)
  have htake : (part ++ '/' :: rest).takeWhile (fun c => decide (c ≠ '/')) = part := by
    rw [List.takeWhile_append_of_pos hall]
    simp
  have hprefix : pre.toList <+: object.toList := by
    rw [h]
    exact List.prefix_append ..
  have hslash : '/' ∈ part ++ '/' :: rest := by simp
  simp only [commonPrefix, hdrop, htake]
  rw [if_pos hprefix, if_pos hslash]

def headerFile : String := "/manifest-header.json"

def bodyFile : String := "/manifest-body.json"

theorem header_toList : headerFile.toList = '/' :: "manifest-header.json".toList := by decide

theorem body_toList : bodyFile.toList = '/' :: "manifest-body.json".toList := by decide

theorem manifest_mem (hv : Exists bucket storeKey v) :
    s!"{storeKey}/{toString v}{headerFile}" ∈ bucket.objects := by
  have hmanifests := hv.2
  unfold Bucket.manifests Bucket.head at hmanifests
  exact of_decide_eq_true (Bool.and_eq_true_iff.mp hmanifests).1

/-- A store key is listed if the listings have one page each. -/
theorem listed_of_one_page (hkey : WellFormed storeKey) (hv : Exists bucket storeKey v)
    (hpage : ∀ pre, bucket.list pre = (bucket.pages pre).flatten) : Listed bucket storeKey := by
  have hobject := toList_object storeKey (toString v) header_toList
  refine listed_of_first hkey hv ?_ ?_
  · rw [hpage, bucket.complete]
    refine ⟨_, manifest_mem hv, ?_⟩
    rw [commonPrefix_object hkey.1 hobject, key_slash]
    rfl
  · rw [hpage, bucket.complete]
    refine ⟨_, manifest_mem hv, ?_⟩
    have hbelow : ∀ rest : List Char, storeKey.toList ++ '/' :: rest = s!"{storeKey}/".toList ++ rest := by
      intro rest
      rw [key_slash, String.toList_ofList, List.append_assoc]
      rfl
    rw [commonPrefix_object (slash_toString v) (hobject.trans (hbelow _))]
    refine congrArg some (String.toList_inj.mp ?_)
    simp only [String.toList_ofList, String.toList_append]
    rfl

end Found

/-! ## An old version -/

section OldVersion

/-- The bucket of these objects whose listings have one page each. -/
def Bucket.whole (objects : List String) : Bucket where
  objects := objects
  pages pre := [(objects.filterMap (commonPrefix pre)).dedup]
  complete pre path := by simp
  once pre := by simpa using List.nodup_dedup _

/-- The manifests of these versions. -/
def manifestsOf (storeKey : String) (versions : List Nat) : List String :=
  versions.flatMap fun v => [s!"{storeKey}/{v}/manifest-header.json", s!"{storeKey}/{v}/manifest-body.json"]

theorem exists_manifestsOf {storeKey key : String} {versions : List Nat} {v : Nat}
    (h : Exists (.whole (manifestsOf storeKey versions)) key v) : key = storeKey ∧ v ∈ versions := by
  obtain ⟨w, hw, hobject⟩ := List.mem_flatMap.mp (manifest_mem h)
  have hsame : ∀ {file : String} {name : List Char}, file.toList = '/' :: name → '/' ∉ name →
      s!"{key}/{toString v}{headerFile}" = s!"{storeKey}/{toString w}{file}" → key = storeKey ∧ v = w := by
    intro file name hfile hname heq
    have hlists := congrArg String.toList heq
    rw [toList_object key (toString v) header_toList, toList_object storeKey (toString w) hfile, ← List.cons_append,
      ← List.append_assoc, ← List.cons_append, ← List.append_assoc] at hlists
    obtain ⟨hfront, -⟩ := Text.append_separated_inj (by decide) hname hlists
    obtain ⟨hkey, hversion⟩ := Text.append_separated_inj (slash_toString v) (slash_toString w) hfront
    exact ⟨String.toList_inj.mp hkey, Text.toString_inj (String.toList_inj.mp hversion)⟩
  have hpair : key = storeKey ∧ v = w := by
    cases List.mem_cons.mp hobject with
    | inl heq => exact hsame header_toList (by decide) heq
    | inr hmem => exact hsame body_toList (by decide) (List.mem_singleton.mp hmem)
  exact ⟨hpair.1, hpair.2 ▸ hw⟩

/-- A store key and its versions 1 and 2. -/
def ethKey : String := "ethereum-geth-mainnet-full-v1"

def ethBucket : Bucket := .whole (manifestsOf ethKey [1, 2])

def ethService : ArchiveService := fun storeKey version =>
  let version := version.getD 2
  if storeKey = ethKey ∧ version ∈ [1, 2] then .ok ⟨100 * version, none, version, version⟩ else .error "not found"

theorem eth_exists {v : Nat} (h : v ∈ [1, 2]) : Exists ethBucket ethKey v := by
  have hv : v < 2 ^ 64 := by
    simp only [List.mem_cons, List.not_mem_nil, or_false] at h
    omega
  have hobject : ∀ file ∈ ["/manifest-header.json", "/manifest-body.json"],
      s!"{ethKey}/{toString v}{file}" ∈ manifestsOf ethKey [1, 2] := by
    intro file hfile
    refine List.mem_flatMap.mpr ⟨v, h, ?_⟩
    simp only [List.mem_cons, List.not_mem_nil, or_false] at hfile ⊢
    cases hfile with
    | inl heq => exact .inl (heq ▸ rfl)
    | inr heq => exact .inr (heq ▸ rfl)
  refine ⟨hv, ?_⟩
  unfold Bucket.manifests Bucket.head
  rw [Bool.and_eq_true_iff]
  exact ⟨decide_eq_true (hobject "/manifest-header.json" (by simp)), decide_eq_true (hobject "/manifest-body.json" (by simp))⟩

theorem ethService_known {version : Option Nat} (h : version.getD 2 ∈ [1, 2]) :
    ethService ethKey version = .ok ⟨100 * version.getD 2, none, version.getD 2, version.getD 2⟩ := by
  unfold ethService
  exact if_pos ⟨rfl, h⟩

theorem eth_answers : Answers ethBucket ethService where
  requested {storeKey v} h := by
    obtain ⟨hkey, hv⟩ := exists_manifestsOf h
    subst hkey
    exact ⟨_, ethService_known hv, rfl⟩
  latest {storeKey v} h := by
    obtain ⟨hkey, hv⟩ := exists_manifestsOf h.1
    subst hkey
    have hnewer : 2 ≤ v := h.2 2 (eth_exists (by simp))
    have htwo : v = 2 := by
      simp only [List.mem_cons, List.not_mem_nil, or_false] at hv
      omega
    have hknown : (none : Option Nat).getD 2 ∈ [1, 2] := by simp
    exact ⟨_, ethService_known hknown, htwo.symm⟩

theorem eth_wellFormed : WellFormed ethKey := ⟨by decide, ("ethereum", "geth", "mainnet", "full"), by decide⟩

theorem eth_listed : Listed ethBucket ethKey :=
  listed_of_one_page eth_wellFormed (eth_exists (v := 2) (by simp)) fun _ => by simp [Bucket.list, ethBucket, Bucket.whole]

theorem eth_greatest : Greatest ethBucket ethKey 2 := by
  refine ⟨eth_exists (by simp), fun w hw => ?_⟩
  have hmem := (exists_manifestsOf hw).2
  simp only [List.mem_cons, List.not_mem_nil, or_false] at hmem
  omega

def asListed : HashOrder := ⟨id, fun l => .refl l⟩

theorem found_greatest :
    Finds ethService ethKey 2 (getDownloadMetadataByStoreKey asListed ethBucket ethService s!"{ethKey}/{2}") ∧
      Finds ethService ethKey 2 (getDownloadMetadataByStoreKey asListed ethBucket ethService ethKey) :=
  have hfound := found_iff asListed eth_answers eth_wellFormed (eth_exists (v := 2) (by simp))
  ⟨hfound.1.mpr ⟨eth_listed, eth_greatest⟩, (hfound.2 eth_greatest).mpr eth_listed⟩

/-- Version 1 has both its manifests, and is not found. -/
theorem old_version_not_found :
    Answers ethBucket ethService ∧ WellFormed ethKey ∧ Exists ethBucket ethKey 1 ∧
      getDownloadMetadataByStoreKey asListed ethBucket ethService s!"{ethKey}/{1}" =
        .error s!"Version {1} not found for archive '{ethKey}'" ∧
      ¬ Finds ethService ethKey 1 (getDownloadMetadataByStoreKey asListed ethBucket ethService s!"{ethKey}/{1}") := by
  obtain ⟨snapshot, hsnapshot, hversion, -⟩ := snapshotOf_greatest eth_answers eth_wellFormed eth_greatest
  have hdiscovered : discovered ethBucket ethService ethKey = some snapshot := by
    rw [discovered, if_pos ((discovered_iff eth_wellFormed.1).mpr eth_listed), hsnapshot]
  have hanswer : getDownloadMetadataByStoreKey asListed ethBucket ethService s!"{ethKey}/{1}" = _ :=
    answer_version asListed eth_wellFormed.1 (by omega)
  rw [hdiscovered] at hanswer
  simp only [hversion] at hanswer
  rw [if_neg (by decide)] at hanswer
  refine ⟨eth_answers, eth_wellFormed, eth_exists (by simp), hanswer, fun hfinds => ?_⟩
  obtain ⟨_, _, _, hfound, _⟩ := hfinds
  cases hfound.symm.trans hanswer

end OldVersion

end Snapshot

end Blockvisor
