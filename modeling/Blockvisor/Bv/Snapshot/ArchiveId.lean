/-
The identity of an archive (`SnapshotMetadata::build_archive_id`,
`parse_archive_id`): the protocol, the client, the network and the node type,
joined by a `-`, and `-v1` behind them.

Parsing takes off every `-v1` at the end, where building has put one. So what is
parsed is built again exactly if it has one, and what is built is parsed again
exactly if the node type is not `v1` (`archiveId_iff`).
-/
import Blockvisor.Bv.Snapshot.Discovery

namespace Blockvisor

namespace Snapshot

def buildArchiveId (protocol client network nodeType : String) : String := s!"{protocol}-{client}-{network}-{nodeType}-v1"

section ArchiveId

variable {archiveId protocol client network nodeType : String} {copy text : List Char} {u : List Char}

/-! ## Copies at an end -/

theorem dropCopies_of_not {n : Nat} (h : ¬ copy <+: text) : dropCopies copy n text = text := by
  cases n with
  | zero => rfl
  | succ n => exact if_neg fun hcopy => h hcopy.2

theorem length_dropCopies_le (copy : List Char) : ∀ (n : Nat) (text : List Char), (dropCopies copy n text).length ≤ text.length
  | 0, _ => Nat.le_refl _
  | n + 1, text => by
    unfold dropCopies
    split
    · have hle := length_dropCopies_le copy n (text.drop copy.length)
      rw [List.length_drop] at hle
      omega
    · exact Nat.le_refl _

def versionSuffix : List Char := ['-', 'v', '1']

theorem toList_versionSuffix : "-v1".toList = versionSuffix := by decide

/-- One suffix is taken off exactly if there is no other one before it. -/
theorem trim_iff (h : archiveId.toList = u ++ versionSuffix) :
    (trimEndMatches archiveId "-v1").toList = u ↔ ¬ versionSuffix <:+ u := by
  have hlength : archiveId.length = (u.length + 2) + 1 := by
    rw [← String.length_toList, h, List.length_append]
    rfl
  have hdrop : dropCopies versionSuffix.reverse archiveId.length archiveId.toList.reverse =
      dropCopies versionSuffix.reverse (u.length + 2) u.reverse := by
    rw [hlength, h, List.reverse_append]
    exact if_pos ⟨by decide, List.prefix_append ..⟩
  have htrim : (trimEndMatches archiveId "-v1").toList = (dropCopies versionSuffix.reverse (u.length + 2) u.reverse).reverse := by
    unfold trimEndMatches
    rw [toList_versionSuffix, hdrop, String.toList_ofList]
  rw [htrim]
  constructor
  · intro hkept hsuffix
    have hcopy : versionSuffix.reverse <+: u.reverse := List.reverse_prefix.mpr hsuffix
    have hless : (dropCopies versionSuffix.reverse (u.length + 2) u.reverse).length < u.length := by
      have hstep : dropCopies versionSuffix.reverse (u.length + 2) u.reverse =
          dropCopies versionSuffix.reverse (u.length + 1) (u.reverse.drop 3) := if_pos ⟨by decide, hcopy⟩
      have hle := length_dropCopies_le versionSuffix.reverse (u.length + 1) (u.reverse.drop 3)
      have hthree := hcopy.length_le
      rw [hstep]
      rw [List.length_drop, List.length_reverse] at hle
      simp only [List.length_reverse] at hthree
      have hsize : versionSuffix.length = 3 := rfl
      omega
    have heq := congrArg List.length hkept
    rw [List.length_reverse] at heq
    omega
  · intro hsuffix
    rw [dropCopies_of_not fun hcopy => hsuffix (List.reverse_prefix.mp hcopy), List.reverse_reverse]

/-! ## Parts -/

/-- The parts of an identity. -/
def joined (protocol client network nodeType : String) : List Char :=
  protocol.toList ++ '-' :: (client.toList ++ '-' :: (network.toList ++ '-' :: nodeType.toList))

theorem toList_buildArchiveId : (buildArchiveId protocol client network nodeType).toList =
    joined protocol client network nodeType ++ versionSuffix := by
  unfold buildArchiveId joined
  simp only [String.toList_append, List.append_assoc, List.cons_append]
  show protocol.toList ++ ('-' :: (client.toList ++ '-' :: (network.toList ++ '-' :: (nodeType.toList ++ "-v1".toList)))) = _
  rw [toList_versionSuffix]

/-- No `-` is in the last three parts. -/
structure Plain (client network nodeType : String) : Prop where
  client : '-' ∉ client.toList
  network : '-' ∉ network.toList
  nodeType : '-' ∉ nodeType.toList

theorem splitOn_joined (h : Plain client network nodeType) :
    (joined protocol client network nodeType).splitOn '-' =
      protocol.toList.splitOn '-' ++ [client.toList, network.toList, nodeType.toList] := by
  unfold joined
  rw [List.splitOn_append_cons_self, List.splitOn_append_cons_self_of_not_mem h.client,
    List.splitOn_append_cons_self_of_not_mem h.network, List.splitOn_eq_singleton h.nodeType]

theorem intercalate_splitOn_map (text : String) : "-".intercalate ((text.toList.splitOn '-').map String.ofList) = text := by
  refine String.toList_inj.mp ?_
  have hback : ((text.toList.splitOn '-').map String.ofList).map (·.toList) = text.toList.splitOn '-' := by
    simp [Function.comp_def]
  rw [String.toList_intercalate, hback]
  exact List.intercalate_splitOn '-'

theorem three_parts {parts : List (List Char)} (h : 4 ≤ parts.length) :
    ∃ front c n t, front ≠ [] ∧ parts = front ++ [c, n, t] := by
  have hsplit := List.take_append_drop (parts.length - 3) parts
  obtain ⟨c, n, t, hlast⟩ := List.length_eq_three.mp (show (parts.drop (parts.length - 3)).length = 3 by
    rw [List.length_drop]
    omega)
  refine ⟨parts.take (parts.length - 3), c, n, t, ?_, by rw [← hlast, hsplit]⟩
  intro hnil
  have hlength := congrArg List.length hnil
  rw [List.length_take, List.length_nil] at hlength
  omega

section Known

variable {front : List (List Char)} {c n t : List Char}

theorem knownParts_take : ((front ++ [c, n, t]).map String.ofList).take (((front ++ [c, n, t]).map String.ofList).length - 3) =
    front.map String.ofList := by
  simp

theorem knownParts_drop : ((front ++ [c, n, t]).map String.ofList).drop (((front ++ [c, n, t]).map String.ofList).length - 3) =
    [String.ofList c, String.ofList n, String.ofList t] := by
  simp

theorem intercalate_three (h : front ≠ []) :
    ['-'].intercalate (front ++ [c, n, t]) = ['-'].intercalate front ++ '-' :: (c ++ '-' :: (n ++ '-' :: t)) := by
  induction front with
  | nil => exact absurd rfl h
  | cons first rest ih =>
    cases rest with
    | nil => simp
    | cons second rest =>
      rw [List.cons_append, List.cons_append, List.intercalate_cons_cons, ← List.cons_append, ih (List.cons_ne_nil _ _),
        List.intercalate_cons_cons]
      simp only [List.append_assoc]

end Known

/-- **What is parsed** to these parts: what has the suffix, and is the parts without it. -/
theorem parseArchiveId_iff : parseArchiveId archiveId = .ok (protocol, client, network, nodeType) ↔
    versionSuffix <:+ archiveId.toList ∧ Plain client network nodeType ∧
      (trimEndMatches archiveId "-v1").toList = joined protocol client network nodeType := by
  unfold parseArchiveId
  rw [toList_versionSuffix]
  by_cases hsuffix : versionSuffix <:+ archiveId.toList
  · rw [if_neg (not_not.mpr hsuffix)]
    simp only
    constructor
    · intro h
      split at h
      · cases h
      · rename_i hlength
        obtain ⟨front, c, n, t, hfront, hparts⟩ := three_parts (by simpa using hlength)
        have hmem : ∀ part ∈ [c, n, t], '-' ∉ part := fun part hpart =>
          Text.not_mem_of_mem_splitOn (hparts ▸ List.mem_append_right front hpart)
        have hbase : (trimEndMatches archiveId "-v1").toList =
            ['-'].intercalate ((trimEndMatches archiveId "-v1").toList.splitOn '-') :=
          (List.intercalate_splitOn '-').symm
        rw [hparts] at h hbase
        rw [knownParts_take, knownParts_drop] at h
        simp only [Except.ok.injEq, Prod.mk.injEq, List.getD_cons_zero, List.getD_cons_succ] at h
        obtain ⟨rfl, rfl, rfl, rfl⟩ := h
        refine ⟨hsuffix, ⟨?_, ?_, ?_⟩, ?_⟩
        · rw [String.toList_ofList]
          exact hmem c (by simp)
        · rw [String.toList_ofList]
          exact hmem n (by simp)
        · rw [String.toList_ofList]
          exact hmem t (by simp)
        · rw [hbase, intercalate_three hfront]
          unfold joined
          simp only [String.toList_ofList, String.toList_intercalate, List.map_map, Function.comp_def, List.map_id_fun', id]
          rfl
    · intro h
      have hparts : (joined protocol client network nodeType).splitOn '-' =
          protocol.toList.splitOn '-' ++ [client.toList, network.toList, nodeType.toList] := splitOn_joined h.2.1
      rw [← h.2.2] at hparts
      rw [hparts]
      have hlength : ¬ ((protocol.toList.splitOn '-' ++ [client.toList, network.toList, nodeType.toList]).map String.ofList).length < 4 := by
        have hpos := List.length_pos_of_ne_nil (List.splitOn_ne_nil '-' protocol.toList)
        simp only [List.length_map, List.length_append, List.length_cons, List.length_nil]
        omega
      rw [if_neg hlength, knownParts_take, knownParts_drop, intercalate_splitOn_map]
      simp
  · rw [if_pos hsuffix]
    exact iff_of_false nofun fun h => hsuffix h.1

/-! ## There and back -/

/-- What is parsed is built again exactly if it has one suffix. -/
theorem build_parse_iff (h : parseArchiveId archiveId = .ok (protocol, client, network, nodeType)) :
    buildArchiveId protocol client network nodeType = archiveId ↔ ¬ versionSuffix ++ versionSuffix <:+ archiveId.toList := by
  obtain ⟨⟨u, hu⟩, hplain, htrimmed⟩ := parseArchiveId_iff.mp h
  have htwice : versionSuffix ++ versionSuffix <:+ archiveId.toList ↔ versionSuffix <:+ u := by
    rw [← hu]
    constructor
    · intro hsuffix
      obtain ⟨front, hfront⟩ := hsuffix
      rw [← List.append_assoc] at hfront
      exact ⟨front, List.append_cancel_right hfront⟩
    · intro hsuffix
      obtain ⟨front, rfl⟩ := hsuffix
      exact ⟨front, (List.append_assoc ..).symm⟩
  rw [htwice, ← trim_iff hu.symm, htrimmed, ← String.toList_inj, toList_buildArchiveId, ← hu]
  exact List.append_left_inj versionSuffix

/-- What is built is parsed again exactly if the node type is not the suffix. -/
theorem parse_build_iff (h : Plain client network nodeType) :
    parseArchiveId (buildArchiveId protocol client network nodeType) = .ok (protocol, client, network, nodeType) ↔
      nodeType ≠ "v1" := by
  rw [parseArchiveId_iff, trim_iff toList_buildArchiveId]
  have hlast : versionSuffix <:+ joined protocol client network nodeType ↔ nodeType = "v1" := by
    have hjoined : joined protocol client network nodeType =
        (protocol.toList ++ '-' :: (client.toList ++ '-' :: network.toList)) ++ '-' :: nodeType.toList := by
      simp [joined]
    rw [hjoined]
    constructor
    · intro hsuffix
      obtain ⟨front, hfront⟩ := hsuffix
      obtain ⟨-, hv1⟩ := Text.append_separated_inj (show '-' ∉ "v1".toList by decide) h.nodeType
        (show front ++ '-' :: "v1".toList = _ from hfront)
      exact (String.toList_inj.mp hv1).symm
    · intro hv1
      rw [hv1]
      exact List.suffix_append ..
  rw [hlast]
  refine ⟨fun hparsed => hparsed.2.2, fun hne => ⟨?_, h, hne⟩⟩
  rw [toList_buildArchiveId]
  exact List.suffix_append ..

/-- **There and back**: an accepted identity is built again from its parts exactly if it has one suffix, two different ones that
do have different parts, and parts without a `-` in the last three are parsed again exactly if the node type is not `v1`. -/
theorem archiveId_iff (archiveId protocol client network nodeType : String) :
    (parseArchiveId archiveId = .ok (protocol, client, network, nodeType) →
      (buildArchiveId protocol client network nodeType = archiveId ↔ ¬ versionSuffix ++ versionSuffix <:+ archiveId.toList)) ∧
    (∀ other parts, parseArchiveId archiveId = .ok parts → parseArchiveId other = .ok parts →
      ¬ versionSuffix ++ versionSuffix <:+ archiveId.toList → ¬ versionSuffix ++ versionSuffix <:+ other.toList →
        archiveId = other) ∧
    (Plain client network nodeType →
      (parseArchiveId (buildArchiveId protocol client network nodeType) = .ok (protocol, client, network, nodeType) ↔
        nodeType ≠ "v1")) := by
  refine ⟨build_parse_iff, ?_, parse_build_iff⟩
  intro other parts h hother honce honce'
  obtain ⟨protocol, client, network, nodeType⟩ := parts
  rw [← (build_parse_iff h).mpr honce, (build_parse_iff hother).mpr honce']

/-- Two accepted identities with the same parts, and parts that are not parsed again. -/
theorem archiveId_ambiguous :
    parseArchiveId "eth-geth-main-full-v1" = .ok ("eth", "geth", "main", "full") ∧
      parseArchiveId "eth-geth-main-full-v1-v1" = .ok ("eth", "geth", "main", "full") ∧
      buildArchiveId "eth" "geth" "main" "full" ≠ "eth-geth-main-full-v1-v1" ∧
      parseArchiveId (buildArchiveId "eth" "geth" "main" "v1") ≠ .ok ("eth", "geth", "main", "v1") := by
  decide

end ArchiveId

end Snapshot

end Blockvisor
