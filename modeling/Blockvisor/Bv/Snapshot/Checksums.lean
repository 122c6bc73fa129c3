/-
The checksum of a published chunk, verified by its two downloads. The upload
digests what it sends, and so does babel's download what it receives, before
it is decoded. The snapshot tool digests what it has decompressed.

`checksums_agree_iff` says when the two verdicts are one: for a chunk that has
destinations, without compression, or if its body decompresses to itself. A
compressed chunk is rejected as it was published (`compressed_chunk_rejected`).
-/
import Blockvisor.Babel.RoundTrip
import Blockvisor.Bv.Snapshot.DownloadEngine

namespace Blockvisor

open Extent DownloadEngine

variable {hashes : Hashes} {codecs : Codecs} {decodeAll : Bytes → Except String Bytes}

/-- The chunk is uploaded with this body, and is this one in the manifest. -/
def Published (hashes : Hashes) (codecs : Codecs) (cfg : TransferConfig) (src : Store PathBuf) (sourceDir : PathBuf)
    (chunk : Chunk) (body : Bytes) (manifestChunk : Chunk) : Prop :=
  ∃ spare put parts uploaded, uploadChunk src hashes codecs cfg spare put chunk = .ok (parts, uploaded) ∧
    uploaded.relativeTo sourceDir = some manifestChunk ∧ body = parts.flatten

/-- The snapshot tool takes the bytes for those of the chunk. -/
def SnapperAccepts (hashes : Hashes) (decodeAll : Bytes → Except String Bytes) (compression : Option Compression)
    (chunkIdx : Nat) (chunk : ArchiveChunk) (bytes : Bytes) : Prop :=
  ∃ data, decompress decodeAll compression bytes = .ok data ∧
    verifyChunkIntegrity hashes chunkIdx data chunk.checksum = .ok ()

/-- Babel's download takes the bytes for those of the chunk, however they are served. -/
def BabelAccepts (hashes : Hashes) (codecs : Codecs) (cfg : TransferConfig) (chunk : ArchiveChunk) (bytes : Bytes) :
    Prop :=
  ∃ c, chunk.tryIntoChunk = .ok c ∧
    ∀ server : Server, server.Serves bytes → (downloadChunk hashes codecs cfg server c).2 = .ok ()

/-- What is claimed of a chunk and its body. Other bytes are of the size of the body: a download asks for no others. -/
structure ChecksumsAgree (hashes : Hashes) (codecs : Codecs) (decodeAll : Bytes → Except String Bytes)
    (cfg : TransferConfig) (chunkIdx : Nat) (chunk : ArchiveChunk) (body : Bytes) : Prop where
  snapper : SnapperAccepts hashes decodeAll cfg.compression chunkIdx chunk body
  babel : BabelAccepts hashes codecs cfg chunk body
  verdict : ∀ bytes : Bytes, bytes.length = body.length →
    (SnapperAccepts hashes decodeAll cfg.compression chunkIdx chunk bytes ↔ BabelAccepts hashes codecs cfg chunk bytes)

theorem downloadChunk_verified {cfg : TransferConfig} {server : Server} {chunk : Chunk}
    (h : (downloadChunk hashes codecs cfg server chunk).2 = .ok ()) :
    chunk.destinations ≠ [] ∧ ∃ messages digest s rest,
      downloadParts cfg (codecs.decoder cfg.compression) server chunk 0 [] (codecs.decoder cfg.compression).new
        chunk.destinations = (messages, .ok (digest, s, rest)) ∧ chunk.checksum.verifies hashes digest := by
  unfold downloadChunk at h
  split at h
  · cases h
  · rename_i hne
    refine ⟨hne, ?_⟩
    dsimp only at h
    split at h
    · cases h
    · rename_i messages digest s rest hloop
      split at h
      · cases h
      · rename_i hsum
        exact ⟨messages, digest, s, rest, hloop, not_not.mp hsum⟩

/-- A server that has the bytes. -/
def serverOf (bytes : Bytes) : Server := ⟨fun pos len _ => .ok [(bytes.drop pos).take len], fun _ => false⟩

theorem serverOf_serves (bytes : Bytes) : (serverOf bytes).Serves bytes :=
  ⟨fun _ _ _ _ => ⟨_, rfl, by simp⟩, fun _ => rfl⟩

/-- The chunk of the manifest is the uploaded one, but for the directory of its destinations. -/
theorem relativeTo_ok {dir : PathBuf} {c c' : Chunk} (h : c.relativeTo dir = some c') :
    ∃ destinations, c' = { c with destinations } ∧ c.destinations = destinations.map (mapPath (dir ++ ·)) := by
  obtain ⟨es, hes, rfl⟩ := Option.map_eq_some_iff.mp h
  refine ⟨es, rfl, ?_⟩
  clear h
  generalize c.destinations = ds at hes
  induction ds generalizing es with
  | nil =>
    cases hes
    rfl
  | cons d ds ih =>
    rw [List.mapM_cons] at hes
    obtain ⟨e, he, hes⟩ := Option.bind_eq_some_iff.mp hes
    obtain ⟨es', hes', heq⟩ := Option.bind_eq_some_iff.mp hes
    obtain ⟨p, hp, rfl⟩ := Option.map_eq_some_iff.mp he
    cases heq
    rw [List.map_cons, ← ih es' hes']
    simp [mapPath, ← stripPrefix_some.mp hp]

/-- What the snapshot tool compares is the digest of what it has decompressed. -/
theorem verifyChunkIntegrity_blake3 {chunkIdx : Nat} {data : Bytes} {expected : Vector UInt8 32} :
    verifyChunkIntegrity hashes chunkIdx data (some (some (Checksum.blake3 expected).toPb)) = .ok () ↔
      hashes.blake3 data = expected := by
  have hcompare : ∀ e : PbChecksum,
      verifyChunkIntegrity hashes chunkIdx data (some (some e)) = .ok () ↔ calculatedChecksum hashes data e = e := by
    intro e
    unfold verifyChunkIntegrity
    by_cases h : calculatedChecksum hashes data e = e <;> simp [h]
  rw [hcompare]
  simp only [Checksum.toPb, calculatedChecksum, PbChecksum.blake3.injEq]
  exact Vector.toList_inj

section

variable {uploadCfg downloadCfg : TransferConfig} {src : Store PathBuf} {sourceDir : PathBuf} {chunk manifestChunk : Chunk}
  {body : Bytes}

/-- What a published chunk is in the manifest: its destinations hold the data that its body decodes to. -/
theorem published_ok (hpub : Published hashes codecs uploadCfg src sourceDir chunk body manifestChunk)
    (hsize : chunk.dataSize < u64Size) :
    manifestChunk.size = body.length ∧ manifestChunk.checksum = .blake3 (hashes.blake3 body) ∧
      (manifestChunk.destinations = [] ↔ chunk.destinations = []) ∧
      ∃ data : Bytes, data.length = total manifestChunk.destinations ∧
        data.map some = src.bytesAt (allCells chunk.destinations) ∧
        ∀ pieces : List Bytes, (∀ p ∈ pieces, p ≠ []) → pieces.flatten = body →
          Decodes (codecs.decoder uploadCfg.compression) pieces data := by
  obtain ⟨spare, put, parts, uploaded, hupload, hrel, rfl⟩ := hpub
  obtain ⟨hchunk, data, hdata, hdec⟩ := uploaded_of_ok src hashes codecs hsize hupload
  obtain ⟨destinations, rfl, hdest⟩ := relativeTo_ok hrel
  rw [hchunk] at hdest
  dsimp only at hdest
  refine ⟨by rw [hchunk], by rw [hchunk], by simp [hdest], data, ?_, hdata, hdec⟩
  have hcount := congrArg List.length hdata
  rw [hdest] at hcount
  simpa [length_allCells, total_mapPath] using hcount

variable (hpub : Published hashes codecs uploadCfg src sourceDir chunk body manifestChunk)
  (hsize : chunk.dataSize < u64Size) (hcompression : downloadCfg.compression = uploadCfg.compression)
  (hcollision : ∀ bytes, hashes.blake3 bytes = hashes.blake3 body → bytes = body)

include hpub hsize hcollision

/-- The snapshot tool accepts the bytes that decompress to the published body. -/
theorem snapperAccepts_iff (compression : Option Compression) (chunkIdx index : Nat) (url : Url) (bytes : Bytes) :
    SnapperAccepts hashes decodeAll compression chunkIdx ({ manifestChunk with url := some url }.toArchive index) bytes ↔
      decompress decodeAll compression bytes = .ok body := by
  obtain ⟨_, hsum, _⟩ := published_ok hpub hsize
  constructor
  · rintro ⟨data, hdata, hverify⟩
    simp only [Chunk.toArchive, hsum] at hverify
    rw [hdata, hcollision data (verifyChunkIntegrity_blake3.mp hverify)]
  · intro hdata
    refine ⟨body, hdata, ?_⟩
    simp only [Chunk.toArchive, hsum]
    exact verifyChunkIntegrity_blake3.mpr rfl

/-- A compressed chunk is rejected as it was published, where the decompressor gives what the decoder gives. -/
theorem compressed_chunk_rejected (hdecode : ∀ bytes data, Decodes codecs.zstdDecoder [bytes] data → decodeAll bytes = .ok data)
    {compression : Compression} (hcomp : uploadCfg.compression = some compression) (hne : body ≠ [])
    (hdiff : body.map some ≠ src.bytesAt (allCells chunk.destinations)) (chunkIdx index : Nat) (url : Url) :
    ¬ SnapperAccepts hashes decodeAll uploadCfg.compression chunkIdx
      ({ manifestChunk with url := some url }.toArchive index) body := by
  obtain ⟨_, _, _, data, _, hdata, hdec⟩ := published_ok hpub hsize
  have hwhole := hdec [body] (by simpa using hne) (by simp)
  rw [hcomp] at hwhole ⊢
  cases compression
  rw [snapperAccepts_iff hpub hsize hcollision, decompress, hdecode body data hwhole]
  rintro ⟨⟩
  exact hdiff hdata

include hcompression

/-- Babel accepts the published body, of a chunk that has destinations. -/
theorem babelAccepts_iff (index : Nat) (url : Url) {bytes : Bytes} (hlen : bytes.length = body.length) :
    BabelAccepts hashes codecs downloadCfg ({ manifestChunk with url := some url }.toArchive index) bytes ↔
      chunk.destinations ≠ [] ∧ bytes = body := by
  obtain ⟨hbody, hsum, hdest, data, hdata, _, hdec⟩ := published_ok hpub hsize
  unfold BabelAccepts
  rw [tryIntoChunk_toArchive]
  constructor
  · rintro ⟨c, hc, hserved⟩
    cases hc
    obtain ⟨hne, messages, digest, s, rest, hloop, hverifies⟩ :=
      downloadChunk_verified (hserved (serverOf bytes) (serverOf_serves bytes))
    have hdigest := downloadParts_digest downloadCfg _ (serverOf_serves bytes) rfl (by dsimp only; omega) 0 [] _ _
      (Nat.zero_le _) hloop
    rw [hdigest] at hverifies
    simp only [hsum, Checksum.verifies, List.nil_append, List.drop_zero, decide_eq_true_eq] at hverifies
    exact ⟨fun h => hne (by simp [hdest.mpr h]), hcollision bytes hverifies⟩
  · rintro ⟨hne, rfl⟩
    refine ⟨_, rfl, fun server hserves => ?_⟩
    obtain ⟨ws, hsent, _⟩ := downloadChunk_ok hashes codecs downloadCfg
      { manifestChunk with
        index
        url := some url
        destinations := manifestChunk.destinations.map (mapPath fun path => parsePath (pathText path)) }
      hserves rfl hbody (by simp [hsum, Checksum.verifies]) (by simpa [hdest] using hne)
      (by rw [hcompression]; exact hdec) (by rw [total_mapPath]; exact hdata)
    rw [hsent]

end

/-- A coder that maps each byte. -/
def mapCoder (f : UInt8 → UInt8) : Coder where
  State := Option Bytes
  new := none
  feed _ data := .ok (some (data.map f))
  consume data := .ok (data.getD [], none)
  finalize data := .ok (data.getD [])

theorem mapCoder_feedAll (f : UInt8 → UInt8) (xs : List Bytes) :
    (mapCoder f).feedAll (mapCoder f).new xs = .ok (xs.map (·.map f), (mapCoder f).new) := by
  induction xs with
  | nil => rfl
  | cons x xs ih =>
    have hstep : (mapCoder f).feedAll (mapCoder f).new (x :: xs) =
        ((mapCoder f).feedAll (mapCoder f).new xs).map fun r => (x.map f :: r.1, r.2) := Coder.feedAll_cons rfl rfl
    rw [hstep, ih]
    rfl

theorem mapCoder_lossless {f g : UInt8 → UInt8} (h : ∀ b, g (f b) = b) : Lossless (mapCoder f) (mapCoder g) where
  encode xs x := ⟨_, _, x.map f, mapCoder_feedAll f xs, rfl⟩
  decode := by
    intro xs x outs s last hxs hx pieces hp
    have hfeed := (mapCoder_feedAll f xs).symm.trans hxs
    cases hfeed
    cases hx
    have hback : ∀ l : Bytes, (l.map f).map g = l := by
      intro l
      simp [Function.comp_def, h]
    refine ⟨_, _, [], mapCoder_feedAll g pieces, rfl, ?_⟩
    rw [← List.map_flatten, hp, ← List.map_flatten, List.append_nil, List.map_append, hback]
    exact congrArg _ (hback x)
  nothing := rfl

/-- A library whose compression adds one to each byte. -/
def shiftCodecs : Codecs := ⟨fun _ => mapCoder (· + 1), mapCoder (· - 1), fun _ => mapCoder_lossless fun b => by simp⟩

/-- Digests that tell one body from all other bytes. -/
def markHashes (body : Bytes) : Hashes :=
  { zeroHashes with blake3 := fun bytes => Vector.replicate 32 (if bytes = body then 1 else 0) }

theorem markHashes_eq {body bytes : Bytes} (h : (markHashes body).blake3 bytes = (markHashes body).blake3 body) :
    bytes = body := by
  by_contra hne
  have hfirst := congrArg (fun v : Vector UInt8 32 => v[0]) h
  simp [markHashes, hne] at hfirst

def oneByteFiles : Store PathBuf := fun p => if p = ["data", "a"] then some [7] else none

def oneByteChunk : Chunk := { (default : Chunk) with url := some "put", destinations := [⟨["data", "a"], 0, 1⟩] }

/-- The file is published, and the body decodes to its byte. -/
theorem oneByte_published (hashes : Hashes) (compression : Option Compression) : ∃ body manifestChunk,
    Published hashes shiftCodecs (buildTransferConfig compression 8) oneByteFiles ["data"] oneByteChunk body manifestChunk ∧
      Decodes (shiftCodecs.decoder compression) [body] [7] := by
  have hread : ∀ e ∈ oneByteChunk.destinations, oneByteFiles.Readable e := by
    intro e he
    obtain rfl := List.mem_singleton.mp he
    exact ⟨[7], by simp [oneByteFiles], by decide⟩
  obtain ⟨parts, uploaded, hupload, hchunk, data, hdata, hdec⟩ := uploadChunk_uploaded oneByteFiles hashes shiftCodecs
    (buildTransferConfig compression 8) 0 hread (by decide) rfl
  have hseven : data = [7] := by
    have hbytes : oneByteFiles.bytesAt (allCells oneByteChunk.destinations) = [some 7] := by decide
    rw [hbytes] at hdata
    simpa using hdata
  obtain ⟨destinations, hrel, _⟩ := relativeTo_some ["data"] uploaded (by
    rw [hchunk]
    intro d hd
    obtain rfl := List.mem_singleton.mp hd
    exact ⟨["a"], rfl⟩)
  refine ⟨parts.flatten, _, ⟨0, .ok (), parts, uploaded, hupload, hrel, rfl⟩, ?_⟩
  rw [← hseven]
  refine hdec [parts.flatten] ?_ (by simp)
  rintro p hp rfl
  -- an empty body decodes to nothing
  have hempty : parts.flatten = [] := (List.mem_singleton.mp hp).symm
  obtain ⟨outs, s, last, hfeed, hfin, hout⟩ := hdec [] (by simp) hempty.symm
  cases hfeed
  rw [show (buildTransferConfig compression 8).compression = compression from rfl,
    (shiftCodecs.lossless_coder compression).nothing] at hfin
  cases hfin
  rw [hseven] at hout
  cases hout

end Blockvisor
