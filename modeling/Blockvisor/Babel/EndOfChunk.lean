/-
When a chunk is marked done. `receiveParts` is the body of a chunk as it
arrives, part by part, whatever becomes of it. `endOfChunk_iff` says which
bodies a download ends with `EndOfChunk` for: those that have the checksum and
decode to no more than the destinations hold. That there may be less is what
parts it from the complete chunks (`marked_iff`).
-/
import Blockvisor.Lib.Persist
import Blockvisor.Babel.ChunkWriter

namespace Blockvisor

open Extent

/-- The parts of the body from `pos` on. -/
def receiveParts (cfg : TransferConfig) (server : Server) (chunk : Chunk) (pos : Nat) : Except String (List Bytes) :=
  if _hpos : pos < chunk.size then
    if server.interrupted pos then .error "download interrupted" else
    let bufferSize := min (chunk.size - pos) cfg.maxBufferSize
    match _h : downloadPartWithRetry chunk.url chunk.key (server.answer pos bufferSize) bufferSize
        cfg.maxRetries 0 with
    | .error err => .error err
    | .ok buffer => (receiveParts cfg server chunk (pos + buffer.length)).map (buffer :: ·)
  else .ok []
termination_by chunk.size - pos
decreasing_by
  have hlen := downloadPartWithRetry_length _h
  have hbuf := cfg.maxBufferSize_pos
  omega

/-- All that a decoder makes of a body. -/
def Coder.decodeAll (dec : Coder) (pieces : List Bytes) : Except String Bytes := do
  let (outs, s) ← dec.feedAll dec.new pieces
  let last ← dec.finalize s
  .ok (outs.flatten ++ last)

theorem Coder.decodeAll_ok {dec : Coder} {pieces : List Bytes} {data : Bytes} :
    dec.decodeAll pieces = .ok data ↔
      ∃ outs s last, dec.feedAll dec.new pieces = .ok (outs, s) ∧ dec.finalize s = .ok last ∧ data = outs.flatten ++ last := by
  simp only [decodeAll, bind, Except.bind]
  constructor
  · intro h
    split at h
    · cases h
    · rename_i r hfeed
      split at h
      · cases h
      · rename_i last hfinal
        cases h
        exact ⟨r.1, r.2, last, hfeed, hfinal, rfl⟩
  · intro h
    obtain ⟨outs, s, last, hfeed, hfinal, rfl⟩ := h
    rw [hfeed]
    dsimp only
    rw [hfinal]

/-! ## The loop -/

section

variable {cfg : TransferConfig} {server : Server} {chunk : Chunk}

theorem receiveParts_next {pos : Nat} {buffer : Bytes} (hpos : pos < chunk.size) (hrun : ¬ server.interrupted pos = true)
    (hpart : downloadPartWithRetry chunk.url chunk.key (server.answer pos (min (chunk.size - pos) cfg.maxBufferSize))
      (min (chunk.size - pos) cfg.maxBufferSize) cfg.maxRetries 0 = .ok buffer) :
    receiveParts cfg server chunk pos = (receiveParts cfg server chunk (pos + buffer.length)).map (buffer :: ·) := by
  rw [receiveParts, dif_pos hpos, if_neg hrun]
  dsimp only
  split <;> rename_i hpart' <;> rw [hpart] at hpart' <;> cases hpart'
  rfl

/-- A loop that comes to its end has received the body and sent all that was decoded of it. -/
theorem downloadParts_received (dec : Coder) (pos : Nat) (digest : Bytes) (decoder : dec.State)
    (destination : List FileLocation) : ∀ {messages digest' s rest},
      downloadParts cfg dec server chunk pos digest decoder destination = (messages, .ok (digest', s, rest)) →
      ∃ pieces outs ws, receiveParts cfg server chunk pos = .ok pieces ∧ digest' = digest ++ pieces.flatten ∧
        dec.feedAll decoder pieces = .ok (outs, s) ∧ Splits destination outs.flatten ws rest := by
  fun_induction downloadParts cfg dec server chunk pos digest decoder destination with
  | case5 pos digest decoder destination hlt hrun bufferSize buffer hpart out decoder' hfeed messages destination' reminder
      hsplit hne =>
    rename_i ih
    intro messages' digest' s rest h
    obtain ⟨pieces, outs, vs, hreceived, hdigest, hfed, hsplits'⟩ := ih (Prod.ext rfl (Prod.ext_iff.mp h).2)
    obtain ⟨ws, data, -, hdata, hsplits, -⟩ := splitBuffer_splits destination out
    rw [hsplit] at hdata hsplits
    have hnil : reminder = [] := not_not.mp hne
    rw [hnil, List.append_nil] at hdata
    subst hdata
    refine ⟨buffer :: pieces, data :: outs, ws ++ vs, ?_, ?_, ?_, hsplits.append hsplits'⟩
    · rw [receiveParts_next hlt hrun hpart, hreceived]
      rfl
    · rw [hdigest, List.flatten_cons, List.append_assoc]
    · rw [Coder.feedAll_cons_bind hfeed, hfed]
      rfl
  | case6 pos digest decoder destination hlt =>
    intro messages digest' s rest h
    cases h
    exact ⟨[], [], [], by rw [receiveParts, dif_neg hlt], by simp, rfl, .nil _⟩
  | _ => intro _ _ _ _ h; cases h

/-- A body that arrives and decodes to no more than there is room for brings the loop to its end. -/
theorem downloadParts_of_received (dec : Coder) (pos : Nat) (digest : Bytes) (decoder : dec.State)
    (destination : List FileLocation) : ∀ {pieces outs s},
      receiveParts cfg server chunk pos = .ok pieces → dec.feedAll decoder pieces = .ok (outs, s) →
      outs.flatten.length ≤ total destination →
      ∃ messages ws rest, downloadParts cfg dec server chunk pos digest decoder destination =
          (messages, .ok (digest ++ pieces.flatten, s, rest)) ∧ Splits destination outs.flatten ws rest := by
  fun_induction downloadParts cfg dec server chunk pos digest decoder destination with
  | case1 pos digest decoder destination hlt hrun =>
    intro pieces outs s h
    rw [receiveParts, dif_pos hlt, if_pos hrun] at h
    cases h
  | case2 pos digest decoder destination hlt hrun bufferSize err =>
    rename_i hpart
    intro pieces outs s h
    rw [receiveParts, dif_pos hlt, if_neg hrun] at h
    dsimp only at h
    split at h <;> rename_i hpart' <;> rw [hpart] at hpart' <;> cases hpart'
    cases h
  | case3 pos digest decoder destination hlt hrun bufferSize buffer hpart err =>
    rename_i hfeed
    intro pieces outs s h hfed
    rw [receiveParts_next hlt hrun hpart] at h
    obtain ⟨pieces', -, rfl⟩ := Except.of_map_ok h
    obtain ⟨out, s', outs', hout, -, -⟩ := Coder.feedAll_cons_ok hfed
    rw [hfeed] at hout
    cases hout
  | case4 pos digest decoder destination hlt hrun bufferSize buffer hpart out decoder' hfeed messages destination' reminder
      hsplit =>
    rename_i hne
    intro pieces outs s h hfed hroom
    rw [receiveParts_next hlt hrun hpart] at h
    obtain ⟨pieces', -, rfl⟩ := Except.of_map_ok h
    obtain ⟨out', s', outs', hout, -, rfl⟩ := Coder.feedAll_cons_ok hfed
    rw [hfeed] at hout
    cases hout
    rw [List.flatten_cons, List.length_append] at hroom
    obtain ⟨ws, rest, heq, -⟩ := splitBuffer_ok destination out (by omega)
    rw [hsplit] at heq
    cases heq
    exact absurd rfl hne
  | case5 pos digest decoder destination hlt hrun bufferSize buffer hpart out decoder' hfeed messages destination' reminder
      hsplit hne =>
    rename_i ih
    intro pieces outs s h hfed hroom
    rw [receiveParts_next hlt hrun hpart] at h
    obtain ⟨pieces', hreceived, rfl⟩ := Except.of_map_ok h
    obtain ⟨out', s', outs', hout, hfed', rfl⟩ := Coder.feedAll_cons_ok hfed
    rw [hfeed] at hout
    cases hout
    rw [List.flatten_cons, List.length_append] at hroom
    obtain ⟨ws, mid, heq, hsplits, -⟩ := splitBuffer_ok destination out (by omega)
    rw [hsplit] at heq
    cases heq
    have htotal := hsplits.total
    obtain ⟨rest, vs, last, hloop, hrest⟩ := ih hreceived hfed' (by omega)
    refine ⟨_, ws ++ vs, last, Prod.ext rfl ?_, by rw [List.flatten_cons]; exact hsplits.append hrest⟩
    show (downloadParts cfg dec server chunk _ _ _ _).2 = _
    rw [hloop, List.flatten_cons, List.append_assoc]
  | case6 pos digest decoder destination hlt =>
    intro pieces outs s h hfed hroom
    rw [receiveParts, dif_neg hlt] at h
    cases h
    cases hfed
    exact ⟨[], [], destination, by simp, .nil _⟩

end

/-! ## The end of a chunk -/

section

variable (hashes : Hashes) (codecs : Codecs) (cfg : TransferConfig) (server : Server) (chunk : Chunk)

/-- The body arrives, has the checksum, and decodes to `data`. -/
def Received (data : Bytes) : Prop :=
  ∃ pieces, receiveParts cfg server chunk 0 = .ok pieces ∧ chunk.checksum.verifies hashes pieces.flatten = true ∧
    (codecs.decoder cfg.compression).decodeAll pieces = .ok data

theorem Received.unique {data data' : Bytes} (h : Received hashes codecs cfg server chunk data)
    (h' : Received hashes codecs cfg server chunk data') : data = data' := by
  obtain ⟨pieces, hpieces, -, hdata⟩ := h
  obtain ⟨pieces', hpieces', -, hdata'⟩ := h'
  rw [hpieces] at hpieces'
  cases hpieces'
  rw [hdata] at hdata'
  cases hdata'
  rfl

/-- A body that fits the destinations, or leaves some of them, is marked done. -/
theorem downloadChunk_marks {data : Bytes} (hne : chunk.destinations ≠ []) (h : Received hashes codecs cfg server chunk data)
    (hroom : data.length ≤ total chunk.destinations) :
    ∃ messages, downloadChunk hashes codecs cfg server chunk = (messages ++ [.endOfChunk chunk], .ok ()) := by
  obtain ⟨pieces, hpieces, hsum, hdata⟩ := h
  obtain ⟨outs, s, last, hfed, hfinal, rfl⟩ := Coder.decodeAll_ok.mp hdata
  rw [List.length_append] at hroom
  obtain ⟨messages, ws, rest, hloop, hsplits⟩ :=
    downloadParts_of_received _ 0 [] _ chunk.destinations hpieces hfed (by omega)
  have htotal := hsplits.total
  obtain ⟨vs, rest', hlast, -, -⟩ := splitBuffer_ok rest last (by omega)
  refine ⟨messages ++ vs.map filePartOf, ?_⟩
  unfold downloadChunk
  rw [if_neg hne]
  dsimp only
  rw [hloop]
  simp only [List.nil_append, hsum, not_true_eq_false, if_false, hfinal, hlast]
  rw [if_neg (by simp)]

/-- What is marked done has arrived, and fits the destinations. -/
theorem received_of_ok (h : (downloadChunk hashes codecs cfg server chunk).2 = .ok ()) :
    chunk.destinations ≠ [] ∧ ∃ data, Received hashes codecs cfg server chunk data ∧ data.length ≤ total chunk.destinations := by
  unfold downloadChunk at h
  split at h
  · cases h
  · rename_i hne
    refine ⟨hne, ?_⟩
    dsimp only at h
    split at h
    · cases h
    · rename_i messages digest decoder destination hloop
      obtain ⟨pieces, outs, ws, hpieces, hdigest, hfed, hsplits⟩ := downloadParts_received _ 0 [] _ _ hloop
      split at h
      · cases h
      · rename_i hsum
        split at h
        · cases h
        · rename_i last hfinal
          obtain ⟨vs, sent, -, hsent, hend, -⟩ := splitBuffer_splits destination last
          split at h
          · cases h
          · rename_i hnil
            refine ⟨outs.flatten ++ last, ⟨pieces, hpieces, ?_, Coder.decodeAll_ok.mpr ⟨outs, decoder, last, hfed, hfinal, rfl⟩⟩, ?_⟩
            · rw [hdigest, List.nil_append] at hsum
              exact Decidable.not_not.mp hsum
            · have hall := (hsplits.append hend).total
              rw [not_not.mp hnil, List.append_nil] at hsent
              rw [← hsent]
              omega

theorem endOfChunk_iff_ok :
    .endOfChunk chunk ∈ (downloadChunk hashes codecs cfg server chunk).1 ↔
      (downloadChunk hashes codecs cfg server chunk).2 = .ok () := by
  obtain ⟨parts, ⟨ws, rfl⟩, hok | ⟨err, herr⟩⟩ := downloadChunk_endOfChunk hashes codecs cfg server chunk
  · rw [hok]
    simp
  · rw [herr]
    simp [filePartOf]

/-- **Which chunks are marked done.** -/
theorem endOfChunk_iff :
    .endOfChunk chunk ∈ (downloadChunk hashes codecs cfg server chunk).1 ↔
      chunk.destinations ≠ [] ∧ ∃ data, Received hashes codecs cfg server chunk data ∧ data.length ≤ total chunk.destinations := by
  rw [endOfChunk_iff_ok]
  constructor
  · exact received_of_ok hashes codecs cfg server chunk
  · intro h
    obtain ⟨hne, data, hdata, hroom⟩ := h
    obtain ⟨messages, hok⟩ := downloadChunk_marks hashes codecs cfg server chunk hne hdata hroom
    rw [hok]

/-- The body arrives, has the checksum, and decodes to just what the destinations hold. -/
def CompleteBody : Prop := ∃ data, Received hashes codecs cfg server chunk data ∧ data.length = total chunk.destinations

/-- A chunk is marked done just when it is complete, and its download fails when it is not. -/
structure MarkedWhenComplete : Prop where
  marked : .endOfChunk chunk ∈ (downloadChunk hashes codecs cfg server chunk).1 ↔ CompleteBody hashes codecs cfg server chunk
  failed : ¬ CompleteBody hashes codecs cfg server chunk → ∃ err, (downloadChunk hashes codecs cfg server chunk).2 = .error err

/-- **A chunk is marked done just when it is complete** unless its body, of the checksum it should have,
decodes to less than its destinations hold. A chunk without destinations is never marked. -/
theorem marked_iff :
    MarkedWhenComplete hashes codecs cfg server chunk ↔
      ∀ data, Received hashes codecs cfg server chunk data →
        if chunk.destinations = [] then data ≠ [] else total chunk.destinations ≤ data.length := by
  constructor
  · intro h data hdata
    split
    · rename_i hempty
      intro hnil
      subst hnil
      have hmarked := h.marked.mpr ⟨[], hdata, by rw [hempty]; rfl⟩
      exact ((endOfChunk_iff hashes codecs cfg server chunk).mp hmarked).1 hempty
    · rename_i hne
      rcases Nat.le_total data.length (total chunk.destinations) with hle | hge
      · obtain ⟨data', hdata', hlen⟩ := h.marked.mp ((endOfChunk_iff hashes codecs cfg server chunk).mpr ⟨hne, data, hdata, hle⟩)
        rw [hdata.unique _ _ _ _ _ hdata', hlen]
      · exact hge
  · intro h
    have hmarked : .endOfChunk chunk ∈ (downloadChunk hashes codecs cfg server chunk).1 ↔
        CompleteBody hashes codecs cfg server chunk := by
      rw [endOfChunk_iff]
      constructor
      · intro hend
        obtain ⟨hne, data, hdata, hle⟩ := hend
        have hge := h data hdata
        rw [if_neg hne] at hge
        exact ⟨data, hdata, by omega⟩
      · intro hcomplete
        obtain ⟨data, hdata, hlen⟩ := hcomplete
        refine ⟨fun hempty => ?_, data, hdata, by omega⟩
        have hsome := h data hdata
        rw [if_pos hempty] at hsome
        rw [hempty] at hlen
        exact hsome (List.eq_nil_of_length_eq_zero hlen)
    refine ⟨hmarked, fun hnot => ?_⟩
    rw [← hmarked, endOfChunk_iff_ok] at hnot
    cases hr : (downloadChunk hashes codecs cfg server chunk).2 with
    | ok a => exact absurd hr hnot
    | error err => exact ⟨err, rfl⟩

end

/-- A chunk of one byte, for a destination of two. -/
def shortChunk : Chunk := ⟨0, "short", some "get", .sha1 (Vector.replicate 20 0), 1, [⟨["file"], 0, 2⟩]⟩

def shortServer : Server := ⟨fun pos len _ => .ok [(([7] : Bytes).drop pos).take len], fun _ => false⟩

theorem short_received : Received zeroHashes plainCodecs (buildTransferConfig none 8) shortServer shortChunk [7] := by
  refine ⟨[[7]], ?_, by decide, rfl⟩
  have hpart : downloadPartWithRetry shortChunk.url shortChunk.key
      (shortServer.answer 0 (min (shortChunk.size - 0) (buildTransferConfig none 8).maxBufferSize))
      (min (shortChunk.size - 0) (buildTransferConfig none 8).maxBufferSize) (buildTransferConfig none 8).maxRetries 0 =
        .ok [7] := rfl
  rw [receiveParts_next (by decide) (by decide) hpart, receiveParts, dif_neg (by decide)]
  rfl

/-- A body that is too short is marked done. -/
theorem short_marked :
    ¬ ∀ (hashes : Hashes) (codecs : Codecs) (cfg : TransferConfig) (server : Server) (chunk : Chunk),
      MarkedWhenComplete hashes codecs cfg server chunk := by
  intro h
  have hlen := (marked_iff ..).mp (h zeroHashes plainCodecs (buildTransferConfig none 8) shortServer shortChunk) _ short_received
  revert hlen
  decide

end Blockvisor
