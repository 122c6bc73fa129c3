/-
The download of one chunk (`ChunkDownloader::download_chunk`,
`send_to_writer`, `DestinationsIter`) and the writer it sends to
(`Writer::handle_chunk_data`, `write_to_file`).

`Splits` says what the messages for a run of decoded bytes are: the bytes, in
order, cut at the bounds of the destinations, with a message for each
destination that is done. `downloadChunk_ok` says what a download of an
honest body sends, `downloadChunk_endOfChunk` that it ends with `EndOfChunk`
just when it succeeds, and `handleChunkData_store` that the writer, whichever
files it has open, writes each message where it belongs.
-/
import Blockvisor.Babel.ChunkReader
import Mathlib.Data.List.MinMax

namespace Blockvisor

open Extent

inductive ChunkData where
  | filePart (path : PathBuf) (pos : Nat) (data : Bytes)
  | endOfChunk (chunk : Chunk)
  deriving DecidableEq

/-! ## Splitting a buffer into file parts -/

/-- The next file part for `bytes` bytes of data (`DestinationsIter::next`), the destinations
being a stack with its top first. -/
def nextDestination : List FileLocation → Nat → Option (FileLocation × List FileLocation)
  | [], _ => none
  | current :: rest, bytes =>
    if current.size ≤ bytes then some (current, rest)
    else if 0 < bytes then
      some (⟨current.path, current.pos, bytes⟩,
        { current with pos := current.pos + bytes, size := current.size - bytes } :: rest)
    else none

/-- A file part is the destination on top, or as much of it as there is data. -/
theorem nextDestination_cases {iter iter' : List FileLocation} {bytes : Nat} {next : FileLocation}
    (h : nextDestination iter bytes = some (next, iter')) :
    ∃ current rest, iter = current :: rest ∧
      ((current.size ≤ bytes ∧ next = current ∧ iter' = rest) ∨
        (bytes < current.size ∧ 0 < bytes ∧ next = ⟨current.path, current.pos, bytes⟩ ∧
          iter' = ⟨current.path, current.pos + bytes, current.size - bytes⟩ :: rest)) := by
  cases iter with
  | nil => cases h
  | cons current rest =>
    refine ⟨current, rest, rfl, ?_⟩
    simp only [nextDestination] at h
    split at h
    · cases h
      exact .inl ⟨by assumption, rfl, rfl⟩
    · split at h
      · cases h
        exact .inr ⟨by omega, by assumption, rfl, rfl⟩
      · cases h

theorem nextDestination_some {iter iter' : List FileLocation} {bytes : Nat} {next : FileLocation}
    (h : nextDestination iter bytes = some (next, iter')) :
    next.size ≤ bytes ∧ (iter'.length < iter.length ∨ iter'.length = iter.length ∧ 0 < next.size) := by
  obtain ⟨current, rest, rfl, ⟨hsize, rfl, rfl⟩ | ⟨-, hpos, rfl, rfl⟩⟩ := nextDestination_cases h
  · exact ⟨hsize, .inl (by simp)⟩
  · exact ⟨Nat.le_refl _, .inr ⟨by simp, hpos⟩⟩

/-- Maps a buffer to file parts (`send_to_writer`): the messages, the destinations left, and what
is left of the buffer. -/
def splitBuffer (iter : List FileLocation) (buffer : Bytes) : List ChunkData × List FileLocation × Bytes :=
  match _h : nextDestination iter buffer.length with
  | none => ([], iter, buffer)
  | some (next, iter') =>
    let (messages, rest, reminder) := splitBuffer iter' (buffer.drop next.size)
    (.filePart next.path next.pos (buffer.take next.size) :: messages, rest, reminder)
termination_by (iter.length, buffer.length)
decreasing_by
  obtain ⟨hsize, hlen | ⟨hlen, hpos⟩⟩ := nextDestination_some _h
  · exact Prod.Lex.left _ _ hlen
  · rw [hlen]
    exact Prod.Lex.right _ (by simp; omega)

/-- The message that writes `w.2` at `w.1`. -/
def filePartOf (w : FileLocation × Bytes) : ChunkData := .filePart w.1.path w.1.pos w.2

/-- The write a message asks for. -/
def fileWrite : ChunkData → Option (FileLocation × Bytes)
  | .filePart path pos data => some (⟨path, pos, data.length⟩, data)
  | .endOfChunk _ => none

theorem filterMap_filePartOf {ws : List (FileLocation × Bytes)} (hsize : ∀ w ∈ ws, w.2.length = w.1.size) :
    (ws.map filePartOf).filterMap fileWrite = ws := by
  induction ws with
  | nil => rfl
  | cons w ws ih =>
    have hw : fileWrite (filePartOf w) = some w := by
      obtain ⟨⟨path, pos, size⟩, data⟩ := w
      have hlen : data.length = size := hsize (⟨path, pos, size⟩, data) (by simp)
      subst hlen
      rfl
    rw [List.map_cons, List.filterMap_cons_some hw, ih fun v hv => hsize v (by simp [hv])]

/-- The writes `ws` take `data` to the destinations `iter`, up to `rest`. -/
structure Splits (iter : List FileLocation) (data : Bytes) (ws : List (FileLocation × Bytes))
    (rest : List FileLocation) : Prop where
  sizes : ∀ w ∈ ws, w.2.length = w.1.size
  data_eq : ws.flatMap (·.2) = data
  cells : allCells (ws.map (·.1)) ++ allCells rest = allCells iter
  paths : ∀ p, (∃ d ∈ iter, d.path = p) ↔ (∃ w ∈ ws, w.1.path = p) ∨ ∃ d ∈ rest, d.path = p

theorem Splits.nil (iter : List FileLocation) : Splits iter [] [] iter :=
  ⟨by simp, rfl, rfl, by simp⟩

theorem Splits.append {iter mid rest : List FileLocation} {d₁ d₂ : Bytes} {ws vs}
    (h₁ : Splits iter d₁ ws mid) (h₂ : Splits mid d₂ vs rest) : Splits iter (d₁ ++ d₂) (ws ++ vs) rest where
  sizes w hw := (List.mem_append.mp hw).elim (h₁.sizes w) (h₂.sizes w)
  data_eq := by rw [List.flatMap_append, h₁.data_eq, h₂.data_eq]
  cells := by rw [List.map_append, allCells_append, List.append_assoc, h₂.cells, h₁.cells]
  paths p := by
    rw [h₁.paths p, h₂.paths p]
    simp only [List.mem_append]
    constructor
    · rintro (⟨w, hw, hp⟩ | ⟨w, hw, hp⟩ | h)
      · exact .inl ⟨w, .inl hw, hp⟩
      · exact .inl ⟨w, .inr hw, hp⟩
      · exact .inr h
    · rintro (⟨w, hw | hw, hp⟩ | h)
      · exact .inl ⟨w, hw, hp⟩
      · exact .inr (.inl ⟨w, hw, hp⟩)
      · exact .inr (.inr h)

theorem Splits.total {iter rest : List FileLocation} {data : Bytes} {ws}
    (h : Splits iter data ws rest) : data.length + total rest = total iter := by
  have hlen := congrArg List.length h.cells
  rw [List.length_append, length_allCells, length_allCells, length_allCells] at hlen
  have hdata : data.length = Extent.total (ws.map (·.1)) := by
    rw [← h.data_eq]
    have hs := h.sizes
    clear h hlen
    induction ws with
    | nil => rfl
    | cons w ws ih =>
      have hw := hs w (by simp)
      have hrec := ih fun v hv => hs v (by simp [hv])
      simp only [List.flatMap_cons, List.length_append, List.map_cons, total_cons, hw, hrec]
  omega

/-- The destination a buffer ends in, or is done with, is one of the destinations. -/
theorem Splits.next {iter iter' : List FileLocation} {next : FileLocation} {buffer : Bytes}
    (h : nextDestination iter buffer.length = some (next, iter')) :
    Splits iter (buffer.take next.size) [(next, buffer.take next.size)] iter' := by
  have hsize := (nextDestination_some h).1
  obtain ⟨current, rest, rfl, ⟨-, rfl, rfl⟩ | ⟨hlt, hpos, rfl, rfl⟩⟩ := nextDestination_cases h
  · exact ⟨by simp [hsize], by simp, by simp, by simp⟩
  · refine ⟨by simp, by simp, ?_, by simp⟩
    -- a destination cut in two covers what it covered
    have hsplit := cells_split current.path current.pos buffer.length (current.size - buffer.length)
    rw [Nat.add_sub_cancel' (by omega)] at hsplit
    simp only [List.map_cons, List.map_nil, allCells_cons, allCells_nil, List.append_nil,
      ← List.append_assoc, ← hsplit]

/-- A buffer the destinations can hold is sent whole, and a destination that is done is not kept. -/
theorem splitBuffer_ok (iter : List FileLocation) (buffer : Bytes) : buffer.length ≤ total iter →
    ∃ ws rest, splitBuffer iter buffer = (ws.map filePartOf, rest, []) ∧ Splits iter buffer ws rest ∧
      (total rest = 0 → rest = []) := by
  fun_induction splitBuffer iter buffer with
  | case1 iter buffer hnext =>
    intro hlen
    have hstuck : buffer = [] ∧ (total iter = 0 → iter = []) := by
      cases iter with
      | nil => exact ⟨List.eq_nil_of_length_eq_zero (by simpa using hlen), fun _ => rfl⟩
      | cons current rest =>
        simp only [nextDestination] at hnext
        split at hnext
        · cases hnext
        · split at hnext
          · cases hnext
          · refine ⟨List.eq_nil_of_length_eq_zero (by omega), ?_⟩
            rw [total_cons]
            omega
    obtain ⟨rfl, hdone⟩ := hstuck
    exact ⟨[], iter, rfl, .nil iter, hdone⟩
  | case2 iter buffer next iter' hnext messages rest reminder hrec ih =>
    intro hlen
    have hsplit := Splits.next hnext
    have htotal := hsplit.total
    have hsize := (nextDestination_some hnext).1
    rw [List.length_take, Nat.min_eq_left hsize] at htotal
    obtain ⟨ws, rest', heq, hws, hdone⟩ := ih (by rw [List.length_drop]; omega)
    rw [hrec] at heq
    obtain ⟨rfl, rfl, rfl⟩ : messages = ws.map filePartOf ∧ rest = rest' ∧ reminder = [] := by
      simpa using heq
    refine ⟨(next, buffer.take next.size) :: ws, rest, rfl, ?_, hdone⟩
    have happ := hsplit.append hws
    rwa [List.take_append_drop] at happ

/-! ## Downloading a chunk -/

/-- What the server answers to a request: an error, or the pieces of a body. -/
abbrev Response := Except String (List Bytes)

/-- One ranged request: the pieces of the body are put together and must be of the size asked for. -/
def collectPart (bufferSize : Nat) : List Bytes → Bytes → Except String Bytes
  | [], buffer =>
    if buffer.length = bufferSize then .ok buffer
    else .error "server error: received less bytes than requested"
  | bytes :: pieces, buffer =>
    if bytes.length + buffer.length ≤ bufferSize then collectPart bufferSize pieces (buffer ++ bytes)
    else .error "server error: received more bytes than requested"

def downloadPart (url : Option Url) (key : String) (response : Response) (bufferSize : Nat) : Except String Bytes :=
  match url with
  | none => .error s!"missing chunk {key} url"
  | some _ => response.bind fun pieces => collectPart bufferSize pieces []

/-- The request is made again after a failure, `retries` times. -/
def downloadPartWithRetry (url : Option Url) (key : String) (server : Nat → Response) (bufferSize : Nat) :
    (retries attempt : Nat) → Except String Bytes
  | 0, attempt => downloadPart url key (server attempt) bufferSize
  | retries + 1, attempt =>
    match downloadPart url key (server attempt) bufferSize with
    | .ok buffer => .ok buffer
    | .error _ => downloadPartWithRetry url key server bufferSize retries (attempt + 1)

theorem collectPart_length {bufferSize : Nat} {pieces : List Bytes} :
    ∀ {buffer part}, collectPart bufferSize pieces buffer = .ok part → part.length = bufferSize := by
  induction pieces with
  | nil =>
    intro buffer part h
    simp only [collectPart] at h
    split at h
    · cases h; assumption
    · cases h
  | cons bytes pieces ih =>
    intro buffer part h
    simp only [collectPart] at h
    split at h
    · exact ih h
    · cases h

theorem collectPart_flatten {bufferSize : Nat} {pieces : List Bytes} :
    ∀ {buffer}, (buffer ++ pieces.flatten).length = bufferSize →
      collectPart bufferSize pieces buffer = .ok (buffer ++ pieces.flatten) := by
  induction pieces with
  | nil =>
    intro buffer h
    simp only [List.flatten_nil, List.append_nil] at h ⊢
    simp only [collectPart, h, if_true]
  | cons bytes pieces ih =>
    intro buffer h
    simp only [List.flatten_cons, ← List.append_assoc] at h ⊢
    simp only [collectPart]
    rw [if_pos (by simp only [List.length_append] at h; omega)]
    exact ih h

theorem collectPart_eq {bufferSize : Nat} {pieces : List Bytes} :
    ∀ {buffer part}, collectPart bufferSize pieces buffer = .ok part → part = buffer ++ pieces.flatten := by
  induction pieces with
  | nil =>
    intro buffer part h
    simp only [collectPart] at h
    split at h
    · cases h
      simp
    · cases h
  | cons bytes pieces ih =>
    intro buffer part h
    simp only [collectPart] at h
    split at h
    · rw [ih h, List.flatten_cons, List.append_assoc]
    · cases h

theorem downloadPart_length {url : Option Url} {key : String} {response : Response} {bufferSize : Nat} {part}
    (h : downloadPart url key response bufferSize = .ok part) : part.length = bufferSize := by
  unfold downloadPart at h
  cases url with
  | none => cases h
  | some url =>
    cases response with
    | error err => cases h
    | ok pieces => exact collectPart_length h

theorem downloadPartWithRetry_length {url : Option Url} {key : String} {server : Nat → Response}
    {bufferSize retries : Nat} : ∀ {attempt part},
      downloadPartWithRetry url key server bufferSize retries attempt = .ok part → part.length = bufferSize := by
  induction retries with
  | zero => intro attempt part h; exact downloadPart_length h
  | succ retries ih =>
    intro attempt part h
    simp only [downloadPartWithRetry] at h
    split at h
    · rename_i hpart
      cases h
      exact downloadPart_length hpart
    · exact ih h

/-- What is taken of a server is one of its answers. -/
theorem downloadPartWithRetry_answer {url : Option Url} {key : String} {server : Nat → Response}
    {bufferSize retries : Nat} : ∀ {attempt part},
      downloadPartWithRetry url key server bufferSize retries attempt = .ok part →
        ∃ attempt pieces, server attempt = .ok pieces ∧ part = pieces.flatten := by
  have hone : ∀ {attempt part}, downloadPart url key (server attempt) bufferSize = .ok part →
      ∃ attempt pieces, server attempt = .ok pieces ∧ part = pieces.flatten := by
    intro attempt part h
    unfold downloadPart at h
    cases url with
    | none => cases h
    | some url =>
      cases hserver : server attempt with
      | error err =>
        rw [hserver] at h
        cases h
      | ok pieces =>
        rw [hserver] at h
        exact ⟨attempt, pieces, hserver, collectPart_eq h⟩
  induction retries with
  | zero => intro attempt part h; exact hone h
  | succ retries ih =>
    intro attempt part h
    simp only [downloadPartWithRetry] at h
    split at h
    · rename_i hpart
      cases h
      exact hone hpart
    · exact ih h

variable (hashes : Hashes)

/-- The bytes have the checksum, under the algorithm it was made with. -/
def Checksum.verifies (checksum : Checksum) (bytes : Bytes) : Bool :=
  match checksum with
  | .sha1 expected => hashes.sha1 bytes = expected
  | .sha256 expected => hashes.sha256 bytes = expected
  | .blake3 expected => hashes.blake3 bytes = expected

/-- What serves a download: the answer to each attempt at each range, and where a shutdown request
interrupts it. -/
structure Server where
  answer : (pos len attempt : Nat) → Response
  interrupted : Nat → Bool

/-- The bytes that the parts of a body may come to from `pos` on, each part being of the size asked for. -/
inductive Server.Sends (server : Server) (maxBufferSize size : Nat) : Nat → Bytes → Prop where
  | done {pos : Nat} : size ≤ pos → Sends server maxBufferSize size pos []
  | part {pos attempt : Nat} {pieces : List Bytes} {rest : Bytes} : pos < size →
      server.answer pos (min (size - pos) maxBufferSize) attempt = .ok pieces →
      pieces.flatten.length = min (size - pos) maxBufferSize →
      Sends server maxBufferSize size (pos + pieces.flatten.length) rest →
      Sends server maxBufferSize size pos (pieces.flatten ++ rest)

/-- The loop of `download_chunk` from byte `pos` of the chunk on: the messages sent, and what the
loop ends with (the digested bytes, the decoder and the destinations left). -/
def downloadParts (cfg : TransferConfig) (dec : Coder) (server : Server) (chunk : Chunk) (pos : Nat)
    (digest : Bytes) (decoder : dec.State) (destination : List FileLocation) :
    List ChunkData × Except String (Bytes × dec.State × List FileLocation) :=
  if _hpos : pos < chunk.size then
    if server.interrupted pos then ([], .error "download interrupted") else
    let bufferSize := min (chunk.size - pos) cfg.maxBufferSize
    match _h : downloadPartWithRetry chunk.url chunk.key (server.answer pos bufferSize) bufferSize
        cfg.maxRetries 0 with
    | .error err => ([], .error err)
    | .ok buffer =>
      match (dec.feed decoder buffer).bind dec.consume with
      | .error err => ([], .error err)
      | .ok (out, decoder) =>
        let (messages, destination, reminder) := splitBuffer destination out
        if reminder ≠ [] then
          (messages, .error "(decompressed) chunk size doesn't mach expected one")
        else
          let r := downloadParts cfg dec server chunk (pos + buffer.length) (digest ++ buffer) decoder destination
          (messages ++ r.1, r.2)
  else ([], .ok (digest, decoder, destination))
termination_by chunk.size - pos
decreasing_by
  have hlen := downloadPartWithRetry_length _h
  have hbuf := cfg.maxBufferSize_pos
  omega

/-- Downloads a chunk: the messages sent to the writer and the result (`download_chunk`, with the
decoder and the digest that `run` and `run_with_decoder` choose for it). -/
def downloadChunk (codecs : Codecs) (cfg : TransferConfig) (server : Server) (chunk : Chunk) :
    List ChunkData × Except String Unit :=
  if chunk.destinations = [] then
    ([], .error "corrupted manifest - expected at least one destination file in chunk")
  else
  let dec := codecs.decoder cfg.compression
  match downloadParts cfg dec server chunk 0 [] dec.new chunk.destinations with
  | (messages, .error err) => (messages, .error err)
  | (messages, .ok (digest, decoder, destination)) =>
    if ¬ chunk.checksum.verifies hashes digest then (messages, .error "chunk checksum mismatch")
    else
      match dec.finalize decoder with
      | .error err => (messages, .error err)
      | .ok last =>
        let (lastMessages, _, reminder) := splitBuffer destination last
        if reminder ≠ [] then
          (messages ++ lastMessages, .error "(decompressed) chunk size doesn't mach expected one")
        else (messages ++ lastMessages ++ [.endOfChunk chunk], .ok ())

/-- A server that has `body`: every range of it is served, in some splitting, and nothing interrupts. -/
structure Server.Serves (server : Server) (body : Bytes) : Prop where
  answer : ∀ pos len attempt, pos + len ≤ body.length →
    ∃ pieces, server.answer pos len attempt = .ok pieces ∧ pieces.flatten = (body.drop pos).take len
  uninterrupted : ∀ pos, server.interrupted pos = false

theorem downloadPartWithRetry_served {url : Url} {key : String} {server : Nat → Response} {pieces : List Bytes}
    {bufferSize retries : Nat} (hans : server 0 = .ok pieces) (hlen : pieces.flatten.length = bufferSize) :
    downloadPartWithRetry (some url) key server bufferSize retries 0 = .ok pieces.flatten := by
  have hpart : downloadPart (some url) key (server 0) bufferSize = .ok pieces.flatten := by
    simp only [downloadPart, hans, Except.bind]
    exact collectPart_flatten hlen
  cases retries with
  | zero => exact hpart
  | succ retries => simp only [downloadPartWithRetry, hpart]

/-- The loop over a served body hands it to the decoder in pieces and sends what the decoder gives. -/
theorem downloadParts_served (cfg : TransferConfig) (dec : Coder) {server : Server} {chunk : Chunk}
    {body : Bytes} {url : Url} (hserves : server.Serves body) (hurl : chunk.url = some url)
    (hsize : chunk.size = body.length) : ∀ (n pos : Nat), chunk.size - pos ≤ n → pos ≤ chunk.size →
      ∃ pieces : List Bytes, (∀ p ∈ pieces, p ≠ []) ∧ pieces.flatten = body.drop pos ∧
        ∀ (digest : Bytes) {decoder destination outs s}, dec.feedAll decoder pieces = .ok (outs, s) →
          outs.flatten.length ≤ total destination →
          ∃ ws rest, downloadParts cfg dec server chunk pos digest decoder destination =
              (ws.map filePartOf, .ok (digest ++ body.drop pos, s, rest)) ∧
            Splits destination outs.flatten ws rest := by
  have hbuf := cfg.maxBufferSize_pos
  intro n
  induction n with
  | zero =>
    intro pos hn hpos
    refine ⟨[], by simp, by rw [List.drop_eq_nil_of_le (by omega)]; rfl, ?_⟩
    intro digest decoder destination outs s hfeed _
    cases hfeed
    refine ⟨[], destination, ?_, .nil _⟩
    rw [downloadParts, dif_neg (by omega), List.drop_eq_nil_of_le (by omega), List.append_nil]
    rfl
  | succ n ih =>
    intro pos hn hpos
    by_cases hlt : pos < chunk.size
    · let bufferSize := min (chunk.size - pos) cfg.maxBufferSize
      have hbs : bufferSize = min (chunk.size - pos) cfg.maxBufferSize := rfl
      obtain ⟨raw, hans, hraw⟩ := hserves.answer pos bufferSize 0 (by omega)
      have hlen : raw.flatten.length = bufferSize := by
        rw [hraw, List.length_take, List.length_drop]
        omega
      have hpart : downloadPartWithRetry chunk.url chunk.key (server.answer pos bufferSize) bufferSize
          cfg.maxRetries 0 = .ok raw.flatten := by
        rw [hurl]
        exact downloadPartWithRetry_served hans hlen
      have hdrop : raw.flatten ++ body.drop (pos + bufferSize) = body.drop pos := by
        rw [hraw, ← List.drop_drop, List.take_append_drop]
      obtain ⟨pieces, hne, hflat, hloop⟩ := ih (pos + bufferSize) (by omega) (by omega)
      refine ⟨raw.flatten :: pieces, ?_, by rw [List.flatten_cons, hflat, hdrop], ?_⟩
      · intro p hp
        rcases List.mem_cons.mp hp with rfl | hp
        · intro hnil
          rw [hnil] at hlen
          simp only [List.length_nil] at hlen
          omega
        · exact hne p hp
      · intro digest decoder destination outs s hfeed hroom
        obtain ⟨out, decoder', outs', hout, hrest, rfl⟩ := Coder.feedAll_cons_ok hfeed
        rw [List.flatten_cons, List.length_append] at hroom
        obtain ⟨ws, mid, hsplit, hws, _⟩ := splitBuffer_ok destination out (by omega)
        have htotal := hws.total
        obtain ⟨vs, rest, heq, hvs⟩ := hloop (digest ++ raw.flatten) hrest
          (show outs'.flatten.length ≤ total mid by omega)
        refine ⟨ws ++ vs, rest, ?_, by rw [List.flatten_cons]; exact hws.append hvs⟩
        rw [downloadParts, dif_pos hlt, if_neg (by simp [hserves.uninterrupted])]
        dsimp only
        split <;> rename_i hpart' <;> rw [hpart] at hpart' <;> cases hpart'
        simp only [hout, hsplit]
        rw [if_neg (by simp), hlen, heq, List.map_append, List.append_assoc, hdrop]
    · exact ih pos (by omega) hpos

/-- Whatever the decoder makes of a served body, the body is what is digested. -/
theorem downloadParts_digest (cfg : TransferConfig) (dec : Coder) {server : Server} {chunk : Chunk} {body : Bytes}
    {url : Url} (hserves : server.Serves body) (hurl : chunk.url = some url) (hsize : chunk.size = body.length)
    (pos : Nat) (digest : Bytes) (decoder : dec.State) (destination : List FileLocation) : pos ≤ chunk.size →
      ∀ {messages digest' s rest},
        downloadParts cfg dec server chunk pos digest decoder destination = (messages, .ok (digest', s, rest)) →
        digest' = digest ++ body.drop pos := by
  fun_induction downloadParts cfg dec server chunk pos digest decoder destination with
  | case5 pos digest decoder destination hlt _ bufferSize buffer hpart out decoder' _ messages destination' reminder
      hsplit hne r =>
    rename_i ih
    intro hpos messages' digest' s rest h
    have hbs : bufferSize = min (chunk.size - pos) cfg.maxBufferSize := rfl
    obtain ⟨raw, hans, hraw⟩ := hserves.answer pos bufferSize 0 (by omega)
    have hlen : raw.flatten.length = bufferSize := by
      rw [hraw, List.length_take, List.length_drop]
      omega
    have hslice : buffer = (body.drop pos).take bufferSize := by
      rw [hurl, downloadPartWithRetry_served hans hlen] at hpart
      rw [← hraw]
      exact (Except.ok.inj hpart).symm
    have hbuffer : buffer.length = bufferSize := downloadPartWithRetry_length hpart
    have hrest := ih (by omega) (Prod.ext rfl (Prod.ext_iff.mp h).2)
    rw [hrest, List.append_assoc, hbuffer, hslice, ← List.drop_drop, List.take_append_drop]
  | case6 pos digest decoder destination hlt =>
    intro hpos messages digest' s rest h
    cases h
    rw [List.drop_eq_nil_of_le (by omega), List.append_nil]
  | _ => intro _ _ _ _ _ h; cases h

/-- **A chunk whose body is served is downloaded.** The messages write the decoded data, cut at the
bounds of the destinations, and the last one says that the chunk is done. -/
theorem downloadChunk_ok (codecs : Codecs) (cfg : TransferConfig) {server : Server} (chunk : Chunk)
    {body data : Bytes} (hserves : server.Serves body) (hurl : chunk.url.isSome) (hsize : chunk.size = body.length)
    (hsum : chunk.checksum.verifies hashes body) (hne : chunk.destinations ≠ [])
    (hdec : ∀ pieces : List Bytes, (∀ p ∈ pieces, p ≠ []) → pieces.flatten = body →
      Decodes (codecs.decoder cfg.compression) pieces data)
    (hdata : data.length = total chunk.destinations) :
    ∃ ws, downloadChunk hashes codecs cfg server chunk =
        (ws.map filePartOf ++ [.endOfChunk chunk], .ok ()) ∧ Splits chunk.destinations data ws [] := by
  obtain ⟨url, hurl⟩ := Option.isSome_iff_exists.mp hurl
  obtain ⟨pieces, hpieces, hflat, hloop⟩ :=
    downloadParts_served cfg (codecs.decoder cfg.compression) hserves hurl hsize _ 0
      (Nat.le_refl _) (Nat.zero_le _)
  obtain ⟨outs, s, last, hfeed, hfin, hout⟩ := hdec pieces hpieces hflat
  have hlen := congrArg List.length hout
  rw [List.length_append] at hlen
  obtain ⟨ws, mid, heq, hws⟩ := hloop [] hfeed (show outs.flatten.length ≤ total chunk.destinations by omega)
  have htotal := hws.total
  obtain ⟨vs, rest, hsplit, hvs, hdone⟩ := splitBuffer_ok mid last (by omega)
  have hrest := hvs.total
  obtain rfl := hdone (by omega)
  refine ⟨ws ++ vs, ?_, by rw [← hout]; exact hws.append hvs⟩
  unfold downloadChunk
  rw [if_neg hne]
  dsimp only
  rw [heq]
  simp only [List.nil_append, List.drop_zero, hsum, not_true_eq_false, if_false, hfin, hsplit]
  rw [if_neg (by simp), List.map_append]

/-- The messages are file parts. -/
def FileParts (messages : List ChunkData) : Prop := ∃ ws : List (FileLocation × Bytes), messages = ws.map filePartOf

/-- What is sent of a buffer is split between the destinations, and the reminder is the rest of it; a destination
that is done is not kept. -/
theorem splitBuffer_splits (iter : List FileLocation) (buffer : Bytes) :
    ∃ ws data, (splitBuffer iter buffer).1 = ws.map filePartOf ∧ data ++ (splitBuffer iter buffer).2.2 = buffer ∧
      Splits iter data ws (splitBuffer iter buffer).2.1 ∧
      (total (splitBuffer iter buffer).2.1 = 0 → (splitBuffer iter buffer).2.1 = []) := by
  fun_induction splitBuffer iter buffer with
  | case1 iter buffer hnext =>
    refine ⟨[], [], rfl, rfl, .nil iter, fun hdone => ?_⟩
    cases iter with
    | nil => rfl
    | cons current rest =>
      rw [total_cons] at hdone
      simp [nextDestination, show current.size = 0 by omega] at hnext
  | case2 iter buffer next iter' hnext messages rest reminder hrec ih =>
    rw [hrec] at ih
    obtain ⟨ws, data, hmessages, hdata, hsplits, hdone⟩ := ih
    refine ⟨(next, buffer.take next.size) :: ws, buffer.take next.size ++ data, ?_, ?_,
      (Splits.next hnext).append hsplits, hdone⟩
    · simp only [List.map_cons, ← hmessages]
      rfl
    · rw [List.append_assoc, hdata, List.take_append_drop]

/-- What the loop sends is split between the destinations, whatever the server answers; what it digests is what
the decoder was fed. -/
theorem downloadParts_splits (cfg : TransferConfig) (dec : Coder) (server : Server) (chunk : Chunk) (pos : Nat)
    (digest : Bytes) (decoder : dec.State) (destination : List FileLocation) :
    ∃ ws, (downloadParts cfg dec server chunk pos digest decoder destination).1 = ws.map filePartOf ∧
      (∃ data rest, Splits destination data ws rest) ∧
      ∀ digest' s rest, (downloadParts cfg dec server chunk pos digest decoder destination).2 = .ok (digest', s, rest) →
        ∃ pieces outs : List Bytes, (∀ p ∈ pieces, p ≠ []) ∧ digest' = digest ++ pieces.flatten ∧
          server.Sends cfg.maxBufferSize chunk.size pos pieces.flatten ∧
          dec.feedAll decoder pieces = .ok (outs, s) ∧ Splits destination outs.flatten ws rest := by
  fun_induction downloadParts cfg dec server chunk pos digest decoder destination with
  | case5 pos digest decoder destination hlt _ bufferSize buffer hpart out decoder' hfeed messages destination' reminder
      hsplit hne r ih =>
    obtain ⟨ws, data, hmessages, hdata, hsplits, -⟩ := splitBuffer_splits destination out
    rw [hsplit] at hmessages hdata hsplits
    have hnil : reminder = [] := not_not.mp hne
    rw [hnil, List.append_nil] at hdata
    subst hdata
    obtain ⟨vs, hvs, ⟨data', rest', hrest⟩, hok⟩ := ih
    refine ⟨ws ++ vs, ?_, ⟨_, _, hsplits.append hrest⟩, fun digest' s rest h => ?_⟩
    · rw [List.map_append, ← hmessages, ← hvs]
    · obtain ⟨pieces, outs, hpieces, hdigest, hsends, hfed, hsplits'⟩ := hok digest' s rest h
      refine ⟨buffer :: pieces, data :: outs, ?_, ?_, ?_, ?_, hsplits.append hsplits'⟩
      · intro p hp
        obtain rfl | hp := List.mem_cons.mp hp
        · have hlen := downloadPartWithRetry_length hpart
          have hbuf := cfg.maxBufferSize_pos
          have hsize : bufferSize = min (chunk.size - pos) cfg.maxBufferSize := rfl
          intro hempty
          rw [hempty] at hlen
          simp only [List.length_nil] at hlen
          omega
        · exact hpieces p hp
      · rw [hdigest, List.flatten_cons, List.append_assoc]
      · have hlen := downloadPartWithRetry_length hpart
        obtain ⟨attempt, raw, hanswer, rfl⟩ := downloadPartWithRetry_answer hpart
        rw [List.flatten_cons]
        exact .part hlt hanswer hlen hsends
      · rw [Coder.feedAll_cons_bind hfeed, hfed]
        rfl
  | case4 pos digest decoder destination _ _ _ buffer _ out decoder' _ messages destination' reminder hsplit hne =>
    obtain ⟨ws, data, hmessages, hdata, hsplits, -⟩ := splitBuffer_splits destination out
    rw [hsplit] at hmessages hsplits
    exact ⟨ws, hmessages, ⟨_, _, hsplits⟩, fun _ _ _ h => by cases h⟩
  | case6 pos digest decoder destination hlt =>
    refine ⟨[], rfl, ⟨_, _, .nil _⟩, fun digest' s rest h => ?_⟩
    cases h
    exact ⟨[], [], by simp, by simp, .done (by omega), rfl, .nil _⟩
  | _ => exact ⟨[], rfl, ⟨_, _, .nil _⟩, fun _ _ _ h => by cases h⟩

/-- **What a download sends, whatever the server answers**: writes at its destinations, and `EndOfChunk` when what it
has digested has the checksum and what it has decoded is sent. -/
theorem downloadChunk_splits (codecs : Codecs) (cfg : TransferConfig) (server : Server) (chunk : Chunk) :
    ∃ ws, (∃ data rest, Splits chunk.destinations data ws rest) ∧
      ((∃ err, downloadChunk hashes codecs cfg server chunk = (ws.map filePartOf, .error err)) ∨
        downloadChunk hashes codecs cfg server chunk = (ws.map filePartOf ++ [.endOfChunk chunk], .ok ()) ∧
          ∃ (pieces outs : List Bytes) (s : (codecs.decoder cfg.compression).State) (last : Bytes) (rest : List FileLocation),
            (∀ p ∈ pieces, p ≠ []) ∧ server.Sends cfg.maxBufferSize chunk.size 0 pieces.flatten ∧
            chunk.checksum.verifies hashes pieces.flatten = true ∧
            (codecs.decoder cfg.compression).feedAll (codecs.decoder cfg.compression).new pieces = .ok (outs, s) ∧
            (codecs.decoder cfg.compression).finalize s = .ok last ∧
            Splits chunk.destinations (outs.flatten ++ last) ws rest ∧ (total rest = 0 → rest = [])) := by
  unfold downloadChunk
  split
  · exact ⟨[], ⟨_, _, .nil _⟩, .inl ⟨_, rfl⟩⟩
  dsimp only
  obtain ⟨ws, hmessages, hsplits, hok⟩ := downloadParts_splits cfg (codecs.decoder cfg.compression) server chunk 0 []
    (codecs.decoder cfg.compression).new chunk.destinations
  split
  · rename_i messages err heq
    rw [heq] at hmessages
    exact ⟨ws, hsplits, .inl ⟨err, by rw [← hmessages]⟩⟩
  · rename_i messages digest decoder destination heq
    rw [heq] at hmessages hok
    subst hmessages
    obtain ⟨pieces, outs, hpieces, hdigest, hsends, hfeed, hsplits'⟩ := hok digest decoder destination rfl
    rw [List.nil_append] at hdigest
    subst hdigest
    split
    · exact ⟨ws, hsplits, .inl ⟨_, rfl⟩⟩
    · rename_i hverifies
      split
      · exact ⟨ws, hsplits, .inl ⟨_, rfl⟩⟩
      · rename_i last hlast
        obtain ⟨vs, data, hvs, hdata, hend, hdone⟩ := splitBuffer_splits destination last
        have hall := hsplits'.append hend
        split
        · exact ⟨ws ++ vs, ⟨_, _, hall⟩, .inl ⟨_, by rw [hvs, List.map_append]⟩⟩
        · rename_i hnil
          rw [not_not.mp hnil, List.append_nil] at hdata
          subst hdata
          refine ⟨ws ++ vs, ⟨_, _, hall⟩, .inr ⟨by rw [hvs, List.map_append], pieces, outs, decoder, data, _, hpieces, hsends, ?_,
            hfeed, hlast, hall, hdone⟩⟩
          simpa using hverifies

/-- **A download says `EndOfChunk` just when it succeeds**, of its own chunk and last of all. -/
theorem downloadChunk_endOfChunk (codecs : Codecs) (cfg : TransferConfig) (server : Server) (chunk : Chunk) :
    ∃ parts, FileParts parts ∧
      (downloadChunk hashes codecs cfg server chunk = (parts ++ [.endOfChunk chunk], .ok ()) ∨
        ∃ err, downloadChunk hashes codecs cfg server chunk = (parts, .error err)) := by
  obtain ⟨ws, -, herr | ⟨hok, -⟩⟩ := downloadChunk_splits hashes codecs cfg server chunk
  · exact ⟨_, ⟨ws, rfl⟩, .inr herr⟩
  · exact ⟨_, ⟨ws, rfl⟩, .inl hok⟩

/-! ## The writer -/

/-- The writer: the files it has open with the time each was last used, and what it has written.
`now` is a clock that moves with each message. -/
structure Writer where
  openedFiles : List (PathBuf × Nat)
  now : Nat
  destinationDir : PathBuf
  maxOpenedFiles : Nat
  totalChunksCount : Nat
  store : Store PathBuf
  chunksFile : List Chunk
  progressFile : Option JobProgress
  downloadedChunks : List Chunk

namespace Writer

/-- The open file used least recently, if any. -/
def oldest (openedFiles : List (PathBuf × Nat)) : Option PathBuf :=
  (openedFiles.argmin (·.2)).map (·.1)

/-- Closes the oldest file when there are too many open ones to open another. -/
def evict (w : Writer) : Writer :=
  if w.maxOpenedFiles ≤ w.openedFiles.length then
    { w with openedFiles := w.openedFiles.filter fun f => some f.1 ≠ oldest w.openedFiles }
  else w

/-- Writes data to a file, opened (and created) first if it is not open already. The paths of a
manifest are relative, so `join` puts the destination directory before them. -/
def writeToFile (w : Writer) (path : PathBuf) (pos : Nat) (data : Bytes) : Writer :=
  if path ∈ w.openedFiles.map (·.1) then
    if data = [] then w
    else
      { w with
        now := w.now + 1
        openedFiles := w.openedFiles.map fun f => if f.1 = path then (path, w.now) else f
        store := w.store.write (w.destinationDir ++ path) pos data }
  else
    let w := w.evict
    { w with
      now := w.now + 1
      openedFiles := (path, w.now) :: w.openedFiles
      store := w.store.write (w.destinationDir ++ path) pos data }

def handleChunkData (w : Writer) : ChunkData → Writer
  | .filePart path pos data => w.writeToFile path pos data
  | .endOfChunk chunk =>
    let downloaded := w.downloadedChunks ++ [chunk]
    { w with
      chunksFile := w.chunksFile ++ [chunk]
      downloadedChunks := downloaded
      progressFile := some ⟨w.totalChunksCount, downloaded.length % u32Size, "chunks"⟩ }

/-- The open files exist, and are no more than there may be (one at least is needed). -/
structure Ok (w : Writer) : Prop where
  exists_opened : ∀ f ∈ w.openedFiles, (w.store (w.destinationDir ++ f.1)).isSome
  opened : w.openedFiles.length ≤ max 1 w.maxOpenedFiles

theorem evict_store (w : Writer) : w.evict.store = w.store ∧ w.evict.destinationDir = w.destinationDir ∧
    w.evict.maxOpenedFiles = w.maxOpenedFiles := by
  unfold evict
  split <;> exact ⟨rfl, rfl, rfl⟩

theorem evict_subset (w : Writer) : ∀ f ∈ w.evict.openedFiles, f ∈ w.openedFiles := by
  intro f hf
  unfold evict at hf
  split at hf
  · exact (List.mem_filter.mp hf).1
  · exact hf

/-- After an eviction there is room for one more file. -/
theorem evict_length {w : Writer} (h : w.openedFiles.length ≤ max 1 w.maxOpenedFiles) :
    w.evict.openedFiles.length + 1 ≤ max 1 w.maxOpenedFiles := by
  unfold evict
  split
  · rename_i hfull
    dsimp only
    cases hopen : w.openedFiles with
    | nil => simp
    | cons f fs =>
      have hsome : ∃ p, oldest (f :: fs) = some p ∧ ∃ g ∈ f :: fs, g.1 = p := by
        unfold oldest
        cases harg : (f :: fs).argmin (·.2) with
        | none => simp at harg
        | some g => exact ⟨g.1, rfl, g, List.argmin_mem harg, rfl⟩
      obtain ⟨p, hp, g, hg, hgp⟩ := hsome
      have hlt : ((f :: fs).filter fun f' => decide (some f'.1 ≠ oldest (f :: fs))).length < (f :: fs).length := by
        apply List.length_filter_lt_length_iff_exists.mpr
        exact ⟨g, hg, by simp [hp, hgp]⟩
      rw [hopen] at h
      omega
  · omega

/-- **Whichever files are open, a file part is written where it belongs.** -/
theorem writeToFile_ok {w : Writer} (h : w.Ok) (path : PathBuf) (pos : Nat) (data : Bytes) :
    (w.writeToFile path pos data).Ok ∧
      (w.writeToFile path pos data).store = w.store.write (w.destinationDir ++ path) pos data ∧
      (w.writeToFile path pos data).destinationDir = w.destinationDir := by
  obtain ⟨hstore, hdir, hmax⟩ := evict_store w
  unfold writeToFile
  split
  · rename_i hopen
    split
    · rename_i hnil
      subst hnil
      obtain ⟨f, hf, rfl⟩ := List.mem_map.mp hopen
      obtain ⟨content, hc⟩ := Option.isSome_iff_exists.mp (h.exists_opened f hf)
      refine ⟨h, ?_, rfl⟩
      funext q
      by_cases hq : q = w.destinationDir ++ f.1
      · subst hq; simp [Store.write_same, hc]
      · rw [Store.write_other _ _ _ hq]
    · refine ⟨⟨?_, by simpa using h.opened⟩, rfl, rfl⟩
      intro f hf
      obtain ⟨g, hg, rfl⟩ := List.mem_map.mp hf
      apply Store.write_isSome
      split
      · rename_i hgp
        exact hgp ▸ h.exists_opened g hg
      · exact h.exists_opened g hg
  · refine ⟨⟨?_, ?_⟩, by dsimp only; rw [hstore, hdir], hdir⟩
    · intro f hf
      dsimp only at hf ⊢
      rw [hstore, hdir]
      rcases List.mem_cons.mp hf with rfl | hf
      · simp [Store.write_same]
      · exact Store.write_isSome (h.exists_opened f (evict_subset w f hf))
    · dsimp only
      rw [List.length_cons, hmax]
      exact evict_length h.opened

/-- The write a file part stands for, in the destination directory. -/
def under (dir : PathBuf) (w : FileLocation × Bytes) : FileLocation × Bytes := (w.1.mapPath (dir ++ ·), w.2)

theorem fileWrite_sizes {messages : List ChunkData} {dir : PathBuf} :
    ∀ v ∈ (messages.filterMap fileWrite).map (under dir), v.2.length = v.1.size := by
  intro v hv
  obtain ⟨u, hu, rfl⟩ := List.mem_map.mp hv
  obtain ⟨m, _, hm⟩ := List.mem_filterMap.mp hu
  cases m with
  | filePart path pos data =>
    cases hm
    rfl
  | endOfChunk chunk => cases hm

/-- One message: the write it asks for, and no file too many. -/
theorem handleChunkData_ok {w : Writer} (h : w.Ok) (message : ChunkData) :
    (w.handleChunkData message).Ok ∧ (w.handleChunkData message).destinationDir = w.destinationDir ∧
      (w.handleChunkData message).maxOpenedFiles = w.maxOpenedFiles ∧
      (w.handleChunkData message).store = w.store.writes ((fileWrite message).toList.map (under w.destinationDir)) := by
  cases message with
  | filePart path pos data =>
    obtain ⟨hok, hstore, hdir⟩ := writeToFile_ok h path pos data
    refine ⟨hok, hdir, ?_, hstore⟩
    show (writeToFile _ path pos data).maxOpenedFiles = _
    unfold writeToFile
    split
    · split <;> rfl
    · exact (evict_store _).2.2
  | endOfChunk chunk => exact ⟨⟨h.exists_opened, h.opened⟩, rfl, rfl, rfl⟩

/-- The messages of a download write what they say, in order. -/
theorem handleChunkData_store (ws : List (FileLocation × Bytes)) : ∀ {w : Writer}, w.Ok →
    ((ws.map filePartOf).foldl handleChunkData w).Ok ∧
      ((ws.map filePartOf).foldl handleChunkData w).store = w.store.writes (ws.map (under w.destinationDir)) := by
  induction ws with
  | nil => intro w h; exact ⟨h, rfl⟩
  | cons v ws ih =>
    intro w h
    obtain ⟨hok, hstore, hdir⟩ := writeToFile_ok h v.1.path v.1.pos v.2
    obtain ⟨hok', hstore'⟩ := ih hok
    rw [List.map_cons, List.foldl_cons]
    refine ⟨hok', ?_⟩
    rw [List.map_cons, Store.writes_cons]
    change _ = (w.store.write (w.destinationDir ++ v.1.path) v.1.pos v.2).writes _
    rw [← hstore, ← hdir]
    exact hstore'

/-- The writes of messages that come from several sources, less the sources. -/
theorem sourced_writes {α β : Type} (source : α → β) (message : α → ChunkData) (dir : PathBuf) (messages : List α) :
    ((messages.filterMap fun a => (fileWrite (message a)).map (source a, ·)).map fun a => (a.1, under dir a.2)).map (·.2) =
      ((messages.map message).filterMap fileWrite).map (under dir) := by
  induction messages with
  | nil => rfl
  | cons m messages ih =>
    cases hm : fileWrite (message m) with
    | none => simpa [hm] using ih
    | some w => simpa [hm] using ih

end Writer

end Blockvisor
