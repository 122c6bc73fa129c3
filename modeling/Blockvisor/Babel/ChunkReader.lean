/-
The upload of one chunk (`DestinationsReader`, `consume_reader` and
`ChunkUploader::upload_chunk`): the chunk's destinations are read in buffers,
the buffers go through the encoder, and what comes out is the body of a PUT.

`Reads` is the sequence of buffers a reader fills, whatever the encoder:
`exists_reads` says that readable destinations are read to their end and what
the buffers add up to, `Reads.drain` that the parts of the body are the
encoder's output on these buffers and the checksum is the one of that output.
-/
import Blockvisor.Babel.Engine
import Blockvisor.Babel.Compression

namespace Blockvisor

open Extent

/-! ## Reading the destinations -/

inductive NonRecoverableError where
  | dataFileDisappeared (filePath : PathBuf)
  | readDataFileFailed
  | missingUrl (key : String)
  | internalInconsistency (err : String)
  | invalidManifest
  deriving DecidableEq

/-- An opened file and what is still to be read of it. -/
structure FileDescriptor where
  file : PathBuf
  offset : Nat
  bytesRemaining : Nat

/-- What a file descriptor stands for: the rest of a destination. -/
def FileDescriptor.rest (fd : FileDescriptor) : FileLocation := ⟨fd.file, fd.offset, fd.bytesRemaining⟩

variable (src : Store PathBuf)

def openFile (next : FileLocation) : Except NonRecoverableError FileDescriptor :=
  if (src next.path).isSome then .ok ⟨next.path, next.pos, next.size⟩
  else .error (.dataFileDisappeared next.path)

/-- The file to read from: the current one, or the next of the stack when that one is done;
`none` when there is no next one. -/
def nextFile (iter : List FileLocation) (current : FileDescriptor) :
    Except NonRecoverableError (Option (FileDescriptor × List FileLocation)) :=
  if current.bytesRemaining = 0 then
    match iter with
    | [] => .ok none
    | next :: iter => (openFile src next).map fun fd => some (fd, iter)
  else .ok (some (current, iter))

theorem nextFile_some {iter iter' : List FileLocation} {current current' : FileDescriptor}
    (h : nextFile src iter current = .ok (some (current', iter'))) :
    (0 < current.bytesRemaining ∧ current' = current ∧ iter' = iter) ∨
      (current.bytesRemaining = 0 ∧ iter = current'.rest :: iter') := by
  unfold nextFile at h
  split at h
  · rename_i h0
    split at h
    · cases h
    · rename_i next iter
      unfold openFile at h
      split at h
      · simp only [Except.map, Except.ok.injEq, Option.some.injEq, Prod.mk.injEq] at h
        obtain ⟨rfl, rfl⟩ := h
        exact .inr ⟨h0, rfl⟩
      · cases h
  · simp only [Except.ok.injEq, Option.some.injEq, Prod.mk.injEq] at h
    obtain ⟨rfl, rfl⟩ := h
    exact .inl ⟨by omega, rfl, rfl⟩

theorem nextFile_none {iter : List FileLocation} {current : FileDescriptor}
    (h : nextFile src iter current = .ok none) : current.bytesRemaining = 0 ∧ iter = [] := by
  unfold nextFile at h
  split at h
  · rename_i h0
    split at h
    · exact ⟨h0, rfl⟩
    · unfold openFile at h
      split at h <;> cases h
  · cases h

/-- Fills `buffer` from the destinations on the stack `iter` (its top first). `spare` is what the
allocator gives the buffer beyond the capacity it was asked for. -/
def readData (maxBufferSize spare : Nat) (iter : List FileLocation) (current : FileDescriptor)
    (buffer : Bytes) : Except NonRecoverableError (Bytes × FileDescriptor × List FileLocation) :=
  if _hlen : buffer.length < maxBufferSize then
    match _h : nextFile src iter current with
    | .error err => .error err
    | .ok none => .ok (buffer, current, iter)
    | .ok (some (fd, iter')) =>
      let bytesToRead := min fd.bytesRemaining (maxBufferSize + spare - buffer.length)
      match src.read ⟨fd.file, fd.offset, bytesToRead⟩ with
      | none => .error .readDataFileFailed
      | some data =>
        readData maxBufferSize spare iter'
          { fd with bytesRemaining := fd.bytesRemaining - bytesToRead, offset := fd.offset + bytesToRead }
          (buffer ++ data)
  else .ok (buffer, current, iter)
termination_by (iter.length, current.bytesRemaining)
decreasing_by
  rcases nextFile_some src _h with ⟨_, rfl, rfl⟩ | ⟨_, rfl⟩
  · exact Prod.Lex.right _ (by omega)
  · exact Prod.Lex.left _ _ (by simp)

/-- What is still to be read: the rest of the current file and the stack. -/
def pending (iter : List FileLocation) (current : FileDescriptor) : List FileLocation := current.rest :: iter

theorem nextFile_pending {iter iter' : List FileLocation} {current current' : FileDescriptor}
    (h : nextFile src iter current = .ok (some (current', iter'))) :
    allCells (pending iter' current') = allCells (pending iter current) := by
  rcases nextFile_some src h with ⟨_, rfl, rfl⟩ | ⟨h0, rfl⟩
  · rfl
  · simp [pending, cells_of_size_zero (e := current.rest) h0]

/-- The buffer gets the bytes of the destinations in order, and is full unless they are done. -/
theorem readData_ok (maxBufferSize spare : Nat) (iter : List FileLocation) (current : FileDescriptor)
    (buffer : Bytes) : ∀ {buffer' current' iter'},
      readData src maxBufferSize spare iter current buffer = .ok (buffer', current', iter') →
      (∃ data, buffer' = buffer ++ data ∧
        data.map some ++ src.bytesAt (allCells (pending iter' current')) =
          src.bytesAt (allCells (pending iter current))) ∧
      (maxBufferSize ≤ buffer'.length ∨ iter' = [] ∧ current'.bytesRemaining = 0) := by
  fun_induction readData src maxBufferSize spare iter current buffer with
  | case1 => intro _ _ _ h; cases h
  | case2 iter current buffer hlen hnext =>
    intro _ _ _ h
    cases h
    obtain ⟨h0, rfl⟩ := nextFile_none src hnext
    exact ⟨⟨[], by simp, by simp⟩, .inr ⟨rfl, h0⟩⟩
  | case3 => intro _ _ _ h; cases h
  | case4 iter current buffer hlen fd iter₁ hnext n data hread =>
    rename_i ih
    intro buffer' current' iter' h
    obtain ⟨⟨rest, hrest, hcells⟩, hend⟩ := ih h
    refine ⟨⟨data ++ rest, by simp [hrest], ?_⟩, hend⟩
    have hn : n ≤ fd.bytesRemaining := Nat.min_le_left ..
    have hsplit := cells_split fd.file fd.offset n (fd.bytesRemaining - n)
    rw [Nat.add_sub_cancel' hn] at hsplit
    rw [← nextFile_pending src hnext, List.map_append, List.append_assoc, hcells, Store.bytesAt_read hread]
    simp [pending, FileDescriptor.rest, hsplit]
  | case5 iter current buffer hlen =>
    intro _ _ _ h
    cases h
    exact ⟨⟨[], by simp, by simp⟩, .inl (by omega)⟩

/-- Destinations that can be read are read, and what is left of them can be read. -/
theorem readData_readable (maxBufferSize spare : Nat) (iter : List FileLocation) (current : FileDescriptor)
    (buffer : Bytes) : (∀ e ∈ pending iter current, src.Readable e) →
      ∃ buffer' current' iter', readData src maxBufferSize spare iter current buffer =
        .ok (buffer', current', iter') ∧ ∀ e ∈ pending iter' current', src.Readable e := by
  have hopen : ∀ {iter current}, (∀ e ∈ pending iter current, src.Readable e) →
      ∃ r, nextFile src iter current = .ok r ∧
        ∀ fd iter', r = some (fd, iter') → ∀ e ∈ pending iter' fd, src.Readable e := by
    intro iter current hr
    cases h : nextFile src iter current with
    | ok r =>
      refine ⟨r, rfl, fun fd iter' hrs e he => ?_⟩
      subst hrs
      rcases nextFile_some src h with ⟨_, rfl, rfl⟩ | ⟨_, rfl⟩
      · exact hr e he
      · exact hr e (List.mem_cons_of_mem _ he)
    | error err =>
      unfold nextFile at h
      split at h
      · split at h
        · cases h
        · rename_i next iter
          obtain ⟨content, hc, _⟩ := hr next (by simp [pending])
          simp [openFile, hc, Except.map] at h
      · cases h
  fun_induction readData src maxBufferSize spare iter current buffer with
  | case1 iter current buffer _ err hnext =>
    intro hr
    obtain ⟨r, hok, _⟩ := hopen hr
    rw [hnext] at hok
    cases hok
  | case2 iter current buffer => exact fun hr => ⟨_, _, _, rfl, hr⟩
  | case3 iter current buffer _ fd iter₁ hnext n hread =>
    intro hr
    obtain ⟨r, hok, hr'⟩ := hopen hr
    rw [hnext] at hok
    cases hok
    have hfd := hr' fd iter₁ rfl fd.rest (by simp [pending])
    obtain ⟨d, hd⟩ := (hfd.split (n := n) (Nat.min_le_left ..)).1.read
    rw [FileDescriptor.rest] at hd
    rw [hread] at hd
    cases hd
  | case4 iter current buffer _ fd iter₁ hnext n data hread =>
    rename_i ih
    intro hr
    obtain ⟨r, hok, hr'⟩ := hopen hr
    rw [hnext] at hok
    cases hok
    refine ih fun e he => ?_
    rcases List.mem_cons.mp he with rfl | he
    · have hfd := hr' fd iter₁ rfl fd.rest (by simp [pending])
      exact (hfd.split (n := n) (Nat.min_le_left ..)).2
    · exact hr' fd iter₁ rfl e (List.mem_cons_of_mem _ he)
  | case5 iter current buffer => exact fun hr => ⟨_, _, _, rfl, hr⟩

/-! ## The parts of the body -/

/-- The reader of a chunk's destinations. `interim` is the encoder and the bytes digested so far,
while the end is not reached; `checksum` is what was sent to the uploader. -/
structure DestinationsReader (enc : Coder) where
  iter : List FileLocation
  current : FileDescriptor
  bytesRead : Nat
  interim : Option (enc.State × Bytes)
  checksum : Checksum

/-- A BLAKE3 of all bytes a hasher was updated with, and the two other digests of the jobs. -/
structure Hashes where
  sha1 : Bytes → Vector UInt8 20
  sha256 : Bytes → Vector UInt8 32
  blake3 : Bytes → Vector UInt8 32

/-- Digests that are all zero. -/
def zeroHashes : Hashes :=
  ⟨fun _ => Vector.replicate 20 0, fun _ => Vector.replicate 32 0, fun _ => Vector.replicate 32 0⟩

variable {enc : Coder} (hashes : Hashes)

/-- The number of bytes still to be read. -/
def DestinationsReader.left (r : DestinationsReader enc) : Nat := total (pending r.iter r.current)

def DestinationsReader.new (iter : List FileLocation) : Except NonRecoverableError (DestinationsReader enc) :=
  match iter with
  | [] => .error .invalidManifest
  | first :: iter => (openFile src first).map fun current =>
    { iter, current, bytesRead := 0, interim := some (enc.new, []), checksum := .blake3 (hashes.blake3 []) }

theorem new_ok {destinations : List FileLocation} {r : DestinationsReader enc}
    (h : DestinationsReader.new src hashes destinations = .ok r) :
    r.interim = some (enc.new, []) ∧ pending r.iter r.current = destinations := by
  cases destinations with
  | nil => cases h
  | cons first iter =>
    simp only [DestinationsReader.new] at h
    cases hopen : openFile src first with
    | error err =>
      rw [hopen] at h
      cases h
    | ok current =>
      rw [hopen] at h
      cases h
      unfold openFile at hopen
      split at hopen
      · cases hopen
        exact ⟨rfl, rfl⟩
      · cases hopen

theorem readData_left {maxBufferSize spare : Nat} {iter iter' : List FileLocation}
    {current current' : FileDescriptor} {buffer : Bytes}
    (h : readData src maxBufferSize spare iter current [] = .ok (buffer, current', iter')) :
    buffer.length + total (pending iter' current') = total (pending iter current) := by
  obtain ⟨⟨data, hdata, hcells⟩, _⟩ := readData_ok src _ _ _ _ _ h
  have hlen := congrArg List.length hcells
  simp only [List.nil_append] at hdata
  subst hdata
  simpa [length_allCells] using hlen

/-- The next part of the body: data is read and fed to the encoder until it has some output. -/
def DestinationsReader.tryNext (cfg : TransferConfig) (spare : Nat) (r : DestinationsReader enc) :
    Except NonRecoverableError (Option Bytes × DestinationsReader enc) :=
  match r.interim with
  | none => .ok (none, r)
  | some (encoder, digest) =>
    match _h : readData src cfg.maxBufferSize spare r.iter r.current [] with
    | .error err => .error err
    | .ok (buffer, current, iter) =>
      let r' : DestinationsReader enc := { r with iter, current, bytesRead := r.bytesRead + buffer.length }
      if _hend : iter = [] ∧ current.bytesRemaining = 0 then
        -- the end of the chunk: the last data is fed and the encoder finalized
        match enc.finish encoder buffer with
        | .error err => .error (.internalInconsistency err)
        | .ok compressed =>
          .ok (some compressed,
            { r' with interim := none, checksum := .blake3 (hashes.blake3 (digest ++ compressed)) })
      else
        match (enc.feed encoder buffer).bind enc.consume with
        | .error err => .error (.internalInconsistency err)
        | .ok (compressed, encoder) =>
          if compressed ≠ [] then
            .ok (some compressed, { r' with interim := some (encoder, digest ++ compressed) })
          else
            DestinationsReader.tryNext cfg spare { r' with interim := some (encoder, digest) }
termination_by r.left
decreasing_by
  have hleft := readData_left src _h
  have hpos := cfg.maxBufferSize_pos
  rcases (readData_ok src _ _ _ _ _ _h).2 with hfull | hend
  · simp only [DestinationsReader.left]
    omega
  · exact absurd hend _hend

/-- What is still to come of a reader: nothing once the encoder is finalized. -/
def DestinationsReader.todo (r : DestinationsReader enc) : Nat := if r.interim.isSome then r.left + 1 else 0

theorem tryNext_todo (cfg : TransferConfig) (spare : Nat) (r : DestinationsReader enc) :
    ∀ {part r'}, r.tryNext src hashes cfg spare = .ok (some part, r') → r'.todo < r.todo := by
  have hpos := cfg.maxBufferSize_pos
  fun_induction DestinationsReader.tryNext src hashes cfg spare r with
  | case1 r hi => intro _ _ h; cases h
  | case2 r => intro _ _ h; cases h
  | case3 => intro _ _ h; cases h
  | case4 r e d hi =>
    intro _ _ h
    cases h
    simp [DestinationsReader.todo, hi]
  | case5 => intro _ _ h; cases h
  | case6 r e d hi buffer current iter hread r₁ hend compressed e' =>
    intro _ _ h
    cases h
    have hleft := readData_left src hread
    rcases (readData_ok src _ _ _ _ _ hread).2 with hfull | h0
    · simp only [DestinationsReader.todo, DestinationsReader.left, hi, r₁, Option.isSome_some, if_true]
      omega
    · exact absurd h0 hend
  | case7 r e d hi buffer current iter hread r₁ hend compressed e' hout hne =>
    rename_i ih
    intro part r' h
    have hrec := ih h
    have hleft := readData_left src hread
    simp only [DestinationsReader.todo, DestinationsReader.left, hi, r₁, Option.isSome_some, if_true] at hrec ⊢
    omega

/-- The parts a reader yields until it is done, and the checksum it reported. -/
def DestinationsReader.parts (cfg : TransferConfig) (spare : Nat) (r : DestinationsReader enc) :
    Except NonRecoverableError (List Bytes × Checksum) :=
  match _h : r.tryNext src hashes cfg spare with
  | .error err => .error err
  | .ok (none, r') => .ok ([], r'.checksum)
  | .ok (some part, r') => (DestinationsReader.parts cfg spare r').map fun ps => (part :: ps.1, ps.2)
termination_by r.todo
decreasing_by exact tryNext_todo src hashes cfg spare r _h

theorem parts_of_some {cfg : TransferConfig} {spare : Nat} {r r' : DestinationsReader enc} {part : Bytes}
    (h : r.tryNext src hashes cfg spare = .ok (some part, r')) :
    r.parts src hashes cfg spare = (r'.parts src hashes cfg spare).map fun ps => (part :: ps.1, ps.2) := by
  rw [DestinationsReader.parts]
  split <;> rename_i heq <;> rw [h] at heq <;> cases heq
  rfl

theorem parts_of_none {cfg : TransferConfig} {spare : Nat} {r r' : DestinationsReader enc}
    (h : r.tryNext src hashes cfg spare = .ok (none, r')) :
    r.parts src hashes cfg spare = .ok ([], r'.checksum) := by
  rw [DestinationsReader.parts]
  split <;> rename_i heq <;> rw [h] at heq <;> cases heq
  rfl

theorem parts_of_error {cfg : TransferConfig} {spare : Nat} {r : DestinationsReader enc} {err}
    (h : r.tryNext src hashes cfg spare = .error err) : r.parts src hashes cfg spare = .error err := by
  rw [DestinationsReader.parts]
  split <;> rename_i heq <;> rw [h] at heq <;> cases heq
  rfl

theorem parts_congr {cfg : TransferConfig} {spare : Nat} {r r' : DestinationsReader enc}
    (h : r.tryNext src hashes cfg spare = r'.tryNext src hashes cfg spare) :
    r.parts src hashes cfg spare = r'.parts src hashes cfg spare := by
  rcases hr : r'.tryNext src hashes cfg spare with err | ⟨_ | part, r''⟩
  · rw [parts_of_error src hashes hr, parts_of_error src hashes (h.trans hr)]
  · rw [parts_of_none src hashes hr, parts_of_none src hashes (h.trans hr)]
  · rw [parts_of_some src hashes hr, parts_of_some src hashes (h.trans hr)]

/-- Consumes the reader before anything is sent: the parts with data, and their total size. -/
def consumeReader (cfg : TransferConfig) (spare : Nat) (r : DestinationsReader enc) :
    Except NonRecoverableError (List Bytes × Nat × Checksum) :=
  (r.parts src hashes cfg spare).map fun ps =>
    let parts := ps.1.filter (· ≠ [])
    (parts, (parts.map List.length).sum, ps.2)

/-- The buffers a reader fills, whatever its encoder does with them: `xs`, and the last one `x`. -/
inductive Reads (cfg : TransferConfig) (spare : Nat) :
    List FileLocation → FileDescriptor → List Bytes → Bytes → Prop
  | last {iter current x current'} : readData src cfg.maxBufferSize spare iter current [] = .ok (x, current', []) →
      current'.bytesRemaining = 0 → Reads cfg spare iter current [] x
  | more {iter current b current' iter' xs x} :
      readData src cfg.maxBufferSize spare iter current [] = .ok (b, current', iter') →
      ¬ (iter' = [] ∧ current'.bytesRemaining = 0) → Reads cfg spare iter' current' xs x →
      Reads cfg spare iter current (b :: xs) x

/-- Readable destinations are read to the end, and the buffers add up to their bytes. -/
theorem exists_reads (cfg : TransferConfig) (spare : Nat) : ∀ (n : Nat) (iter : List FileLocation)
    (current : FileDescriptor), total (pending iter current) ≤ n →
      (∀ e ∈ pending iter current, src.Readable e) →
      ∃ xs x, Reads src cfg spare iter current xs x ∧
        (xs.flatten ++ x).map some = src.bytesAt (allCells (pending iter current)) := by
  have hpos := cfg.maxBufferSize_pos
  intro n
  induction n with
  | zero =>
    intro iter current hn hr
    obtain ⟨b, current', iter', hread, _⟩ := readData_readable src cfg.maxBufferSize spare iter current [] hr
    have hleft := readData_left src hread
    obtain ⟨⟨data, hdata, hcells⟩, hend⟩ := readData_ok src _ _ _ _ _ hread
    rcases hend with hfull | ⟨rfl, h0⟩
    · omega
    · simp only [List.nil_append] at hdata
      subst hdata
      refine ⟨[], b, .last hread h0, ?_⟩
      simpa [pending, cells_of_size_zero (e := current'.rest) h0, Store.bytesAt] using hcells
  | succ n ih =>
    intro iter current hn hr
    obtain ⟨b, current', iter', hread, hr'⟩ := readData_readable src cfg.maxBufferSize spare iter current [] hr
    have hleft := readData_left src hread
    obtain ⟨⟨data, hdata, hcells⟩, hend⟩ := readData_ok src _ _ _ _ _ hread
    simp only [List.nil_append] at hdata
    subst hdata
    by_cases hdone : iter' = [] ∧ current'.bytesRemaining = 0
    · obtain ⟨rfl, h0⟩ := hdone
      refine ⟨[], b, .last hread h0, ?_⟩
      simpa [pending, cells_of_size_zero (e := current'.rest) h0, Store.bytesAt] using hcells
    · have hfull : cfg.maxBufferSize ≤ b.length := hend.resolve_right hdone
      obtain ⟨xs, x, hreads, hbytes⟩ := ih iter' current' (by omega) hr'
      refine ⟨b :: xs, x, .more hread hdone hreads, ?_⟩
      rw [List.flatten_cons, List.append_assoc, List.map_append, hbytes, hcells]

/-- The buffers add up to the bytes of the destinations. -/
theorem Reads.bytes {cfg : TransferConfig} {spare : Nat} {iter : List FileLocation} {current : FileDescriptor}
    {xs : List Bytes} {x : Bytes} (h : Reads src cfg spare iter current xs x) :
    (xs.flatten ++ x).map some = src.bytesAt (allCells (pending iter current)) := by
  induction h with
  | @last iter current x current' hread h0 =>
    obtain ⟨⟨data, hdata, hcells⟩, _⟩ := readData_ok src _ _ _ _ _ hread
    simp only [List.nil_append] at hdata
    subst hdata
    simpa [pending, cells_of_size_zero (e := current'.rest) h0, Store.bytesAt] using hcells
  | @more iter current b current' iter' xs x hread hne _ ih =>
    obtain ⟨⟨data, hdata, hcells⟩, _⟩ := readData_ok src _ _ _ _ _ hread
    simp only [List.nil_append] at hdata
    subst hdata
    rw [List.flatten_cons, List.append_assoc, List.map_append, ih, hcells]

/-- One read that is not the last: the encoder's output is a part, or the reader goes on. -/
theorem tryNext_more {cfg : TransferConfig} {spare : Nat} {r : DestinationsReader enc} {e e' : enc.State}
    {digest b out : Bytes} {current' : FileDescriptor} {iter' : List FileLocation}
    (hi : r.interim = some (e, digest))
    (hread : readData src cfg.maxBufferSize spare r.iter r.current [] = .ok (b, current', iter'))
    (hne : ¬ (iter' = [] ∧ current'.bytesRemaining = 0)) (hout : (enc.feed e b).bind enc.consume = .ok (out, e')) :
    r.tryNext src hashes cfg spare =
      if out ≠ [] then .ok (some out, { r with
        iter := iter'
        current := current'
        bytesRead := r.bytesRead + b.length
        interim := some (e', digest ++ out) })
      else DestinationsReader.tryNext src hashes cfg spare { r with
        iter := iter'
        current := current'
        bytesRead := r.bytesRead + b.length
        interim := some (e', digest) } := by
  rw [DestinationsReader.tryNext]
  split <;> rename_i hi' <;> rw [hi] at hi' <;> cases hi'
  split <;> rename_i hread' <;> rw [hread] at hread' <;> cases hread'
  rw [dif_neg hne, hout]

/-- A reader that comes to its end has read its destinations to the end. -/
theorem reads_of_parts {cfg : TransferConfig} {spare : Nat} (n : Nat) : ∀ {r : DestinationsReader enc} {ps},
    r.left ≤ n → r.interim.isSome → r.parts src hashes cfg spare = .ok ps →
      ∃ xs x, Reads src cfg spare r.iter r.current xs x := by
  have hpos := cfg.maxBufferSize_pos
  induction n using Nat.strongRecOn with
  | ind n ih =>
    intro r ps hn hi h
    obtain ⟨⟨e, digest⟩, hi⟩ := Option.isSome_iff_exists.mp hi
    cases hread : readData src cfg.maxBufferSize spare r.iter r.current [] with
    | error err =>
      have hstep : r.tryNext src hashes cfg spare = .error err := by
        rw [DestinationsReader.tryNext]
        split <;> rename_i hi' <;> rw [hi] at hi' <;> cases hi'
        split <;> rename_i hread' <;> rw [hread] at hread' <;> cases hread'
        rfl
      rw [parts_of_error src hashes hstep] at h
      cases h
    | ok res =>
      obtain ⟨b, current', iter'⟩ := res
      have hleft := readData_left src hread
      by_cases hdone : iter' = [] ∧ current'.bytesRemaining = 0
      · obtain ⟨rfl, h0⟩ := hdone
        exact ⟨[], b, .last hread h0⟩
      have hfull := (readData_ok src _ _ _ _ _ hread).2.resolve_right hdone
      have hless : total (pending iter' current') < n := by
        simp only [DestinationsReader.left] at hn
        omega
      cases hout : (enc.feed e b).bind enc.consume with
      | error err =>
        have hstep : r.tryNext src hashes cfg spare = .error (.internalInconsistency err) := by
          rw [DestinationsReader.tryNext]
          split <;> rename_i hi' <;> rw [hi] at hi' <;> cases hi'
          split <;> rename_i hread' <;> rw [hread] at hread' <;> cases hread'
          rw [dif_neg hdone, hout]
        rw [parts_of_error src hashes hstep] at h
        cases h
      | ok res =>
        obtain ⟨out, e'⟩ := res
        have hstep := tryNext_more src hashes hi hread hdone hout
        by_cases hempty : out = []
        · rw [if_neg (by simp [hempty])] at hstep
          rw [parts_congr src hashes hstep] at h
          obtain ⟨xs, x, hreads⟩ := ih _ hless (Nat.le_refl _) (by rfl) h
          exact ⟨b :: xs, x, .more hread hdone hreads⟩
        · rw [if_pos hempty] at hstep
          rw [parts_of_some src hashes hstep] at h
          revert h
          cases hps : DestinationsReader.parts src hashes cfg spare { r with
            iter := iter'
            current := current'
            bytesRead := r.bytesRead + b.length
            interim := some (e', digest ++ out) } with
          | error err => intro h; cases h
          | ok ps' =>
            intro _
            obtain ⟨xs, x, hreads⟩ := ih _ hless (Nat.le_refl _) (by rfl) hps
            exact ⟨b :: xs, x, .more hread hdone hreads⟩

/-- What a reader yields is its encoder's output on the buffers, and the checksum is of that. -/
theorem Reads.parts {cfg : TransferConfig} {spare : Nat} {iter : List FileLocation} {current : FileDescriptor}
    {xs : List Bytes} {x : Bytes} (h : Reads src cfg spare iter current xs x) :
    ∀ {r : DestinationsReader enc} {e s digest outs last}, r.iter = iter → r.current = current →
      r.interim = some (e, digest) → enc.feedAll e xs = .ok (outs, s) → enc.finish s x = .ok last →
      ∃ ps, r.parts src hashes cfg spare = .ok (ps, .blake3 (hashes.blake3 (digest ++ (outs.flatten ++ last)))) ∧
        ps.flatten = outs.flatten ++ last := by
  induction h with
  | @last iter current x current' hread h0 =>
    rintro r e s digest outs last rfl rfl hi hfeed hfin
    cases hfeed
    refine ⟨[last], ?_, by simp⟩
    have hlast : r.tryNext src hashes cfg spare = .ok (some last,
        { r with
          iter := []
          current := current'
          bytesRead := r.bytesRead + x.length
          interim := none
          checksum := .blake3 (hashes.blake3 (digest ++ last)) }) := by
      rw [DestinationsReader.tryNext]
      split <;> rename_i hi' <;> rw [hi] at hi' <;> cases hi'
      split <;> rename_i hread' <;> rw [hread] at hread' <;> cases hread'
      rw [dif_pos ⟨rfl, h0⟩, hfin]
    rw [parts_of_some src hashes hlast, parts_of_none src hashes (by rw [DestinationsReader.tryNext])]
    rfl
  | @more iter current b current' iter' xs x hread hne _ ih =>
    rintro r e s digest outs last rfl rfl hi hfeed hfin
    obtain ⟨out, e', outs', hout, hrest, rfl⟩ := Coder.feedAll_cons_ok hfeed
    have hstep := tryNext_more src hashes hi hread hne hout
    by_cases hempty : out = []
    · subst hempty
      rw [if_neg (by simp)] at hstep
      rw [parts_congr src hashes hstep]
      simpa using ih rfl rfl rfl hrest hfin
    · rw [if_pos hempty] at hstep
      rw [parts_of_some src hashes hstep]
      obtain ⟨ps, hps, hflat⟩ := ih (r := { r with
        iter := iter'
        current := current'
        bytesRead := r.bytesRead + b.length
        interim := some (e', digest ++ out) }) rfl rfl rfl hrest hfin
      refine ⟨out :: ps, ?_, by simp [hflat]⟩
      rw [hps]
      simp [Except.map]

/-! ## Uploading a chunk -/

inductive UploadError where
  | nonRecoverable (err : NonRecoverableError)
  | other (err : String)
  deriving DecidableEq

variable (codecs : Codecs)

/-- The encoder of an upload with the given compression. -/
def Codecs.encoder : Option Compression → Coder
  | none => noCoder
  | some (.zstd level) => codecs.zstdEncoder level

/-- The decoder of a download with the given compression. -/
def Codecs.decoder : Option Compression → Coder
  | none => noCoder
  | some (.zstd _) => codecs.zstdDecoder

theorem Codecs.lossless_coder (compression : Option Compression) :
    Lossless (codecs.encoder compression) (codecs.decoder compression) := by
  rcases compression with _ | compression
  · exact noCoder_lossless
  · cases compression with
    | zstd level => exact codecs.lossless level

def requireUrl (chunk : Chunk) : Except UploadError Url :=
  match chunk.url with
  | none => .error (.nonRecoverable (.missingUrl chunk.key))
  | some url => .ok url

def nonRecoverable {α : Type} : Except NonRecoverableError α → Except UploadError α :=
  Except.mapError .nonRecoverable

/-- Uploads a chunk: the parts of the body it sends and the chunk as it is reported back. `put` is
what becomes of the request. -/
def uploadChunk (cfg : TransferConfig) (spare : Nat) (put : Except String Unit) (chunk : Chunk) :
    Except UploadError (List Bytes × Chunk) := do
  let size := chunk.destinations.foldl (fun acc item => acc + item.size) 0 % u64Size
  if 0 < size then
    let enc := codecs.encoder cfg.compression
    let reader : DestinationsReader enc ← nonRecoverable (DestinationsReader.new src hashes chunk.destinations)
    match cfg.compression with
    | none =>
      -- the body is read while it is sent, so the url comes first
      let _ ← requireUrl chunk
      let (parts, checksum) ← nonRecoverable (reader.parts src hashes cfg spare)
      put.mapError .other
      .ok (parts, { chunk with size, checksum, url := none })
    | some _ =>
      let (parts, compressedSize, checksum) ← nonRecoverable (consumeReader src hashes cfg spare reader)
      let _ ← requireUrl chunk
      put.mapError .other
      .ok (parts, { chunk with size := compressedSize, checksum, url := none })
  else
    .ok ([], { chunk with size, checksum := .blake3 (hashes.blake3 []), url := none })

/-- The coder, fed with the pieces, gives `data`. -/
def Decodes (dec : Coder) (pieces : List Bytes) (data : Bytes) : Prop :=
  ∃ outs s last, dec.feedAll dec.new pieces = .ok (outs, s) ∧ dec.finalize s = .ok last ∧
    outs.flatten ++ last = data

/-- What an uploaded chunk is: it states the size and the checksum of its body, and its body, in
whatever pieces, decodes to the bytes of its destinations. -/
structure Uploaded (compression : Option Compression) (chunk : Chunk) (body : Bytes) (chunk' : Chunk) : Prop where
  chunk_eq : chunk' =
    { chunk with size := body.length, checksum := .blake3 (hashes.blake3 body), url := none }
  decodes : ∃ data : Bytes, data.map some = src.bytesAt (allCells chunk.destinations) ∧
    ∀ pieces : List Bytes, (∀ p ∈ pieces, p ≠ []) → pieces.flatten = body →
      Decodes (codecs.decoder compression) pieces data

theorem foldl_size (es : List FileLocation) (acc : Nat) :
    es.foldl (fun acc item => acc + item.size) acc = acc + total es := by
  induction es generalizing acc with
  | nil => simp
  | cons e es ih => simp [ih, Nat.add_assoc]

theorem flatten_filter_ne_nil (parts : List Bytes) : (parts.filter (· ≠ [])).flatten = parts.flatten := by
  induction parts with
  | nil => rfl
  | cons p parts ih =>
    by_cases hp : p = []
    · simpa [hp] using ih
    · simp [hp] at ih ⊢
      exact ih

/-- A body that a reader has yielded decodes to the bytes of the reader's destinations. -/
theorem Reads.body {cfg : TransferConfig} {spare : Nat} {compression : Option Compression}
    {r : DestinationsReader (codecs.encoder compression)} {xs : List Bytes} {x : Bytes}
    (hreads : Reads src cfg spare r.iter r.current xs x)
    (hi : r.interim = some ((codecs.encoder compression).new, [])) :
    ∃ parts : List Bytes, r.parts src hashes cfg spare = .ok (parts, .blake3 (hashes.blake3 parts.flatten)) ∧
      (compression = none → parts.flatten.length = total (pending r.iter r.current)) ∧
      ∃ data : Bytes, data.map some = src.bytesAt (allCells (pending r.iter r.current)) ∧
        ∀ pieces : List Bytes, pieces.flatten = parts.flatten →
          Decodes (codecs.decoder compression) pieces data := by
  have hbytes := hreads.bytes
  have hloss := codecs.lossless_coder compression
  obtain ⟨outs, s, last, hfeed, hfin⟩ := hloss.encode xs x
  have hdec := fun pieces hp => hloss.decode hfeed hfin pieces hp
  obtain ⟨parts, hparts, hflat⟩ := hreads.parts src hashes (r := r) rfl rfl hi hfeed hfin
  refine ⟨parts, by rw [hparts, hflat]; rfl, ?_, xs.flatten ++ x, hbytes, fun pieces hp => hdec pieces (hp.trans hflat)⟩
  rintro rfl
  -- without compression the body is the data
  have hplain := (noCoder_feedAll xs).symm.trans hfeed
  cases hplain
  cases hfin
  have hlen := congrArg List.length hbytes
  simp only [List.length_map, Store.length_bytesAt, length_allCells] at hlen
  rw [hflat]
  exact hlen

/-- A reader of readable destinations yields a body that decodes to their bytes. -/
theorem exists_parts (cfg : TransferConfig) (spare : Nat) {destinations : List FileLocation}
    (hread : ∀ e ∈ destinations, src.Readable e) (hne : destinations ≠ []) (compression : Option Compression) :
    ∃ (r : DestinationsReader (codecs.encoder compression)) (parts : List Bytes),
      DestinationsReader.new src hashes destinations = .ok r ∧
      r.parts src hashes cfg spare = .ok (parts, .blake3 (hashes.blake3 parts.flatten)) ∧
      (compression = none → parts.flatten.length = total destinations) ∧
      ∃ data : Bytes, data.map some = src.bytesAt (allCells destinations) ∧
        ∀ pieces : List Bytes, pieces.flatten = parts.flatten →
          Decodes (codecs.decoder compression) pieces data := by
  cases destinations with
  | nil => exact absurd rfl hne
  | cons first iter =>
    obtain ⟨content, hc, _⟩ := hread first (by simp)
    have hopen : openFile src first = .ok ⟨first.path, first.pos, first.size⟩ := by simp [openFile, hc]
    obtain ⟨xs, x, hreads, _⟩ := exists_reads src cfg spare _ iter ⟨first.path, first.pos, first.size⟩
      (Nat.le_refl _) hread
    let r : DestinationsReader (codecs.encoder compression) :=
      { iter, current := ⟨first.path, first.pos, first.size⟩, bytesRead := 0,
        interim := some ((codecs.encoder compression).new, []), checksum := .blake3 (hashes.blake3 []) }
    obtain ⟨parts, hparts⟩ := Reads.body src hashes codecs (r := r) hreads rfl
    exact ⟨r, parts, by simp [DestinationsReader.new, hopen, Except.map, r], hparts⟩

/-- A chunk without data has an empty body, and the decoder gives nothing for it. -/
theorem uploaded_nothing (compression : Option Compression) {chunk : Chunk} (h0 : chunk.dataSize = 0) :
    Uploaded src hashes codecs compression chunk ([] : List Bytes).flatten
      { chunk with size := 0, checksum := .blake3 (hashes.blake3 []), url := none } := by
  refine ⟨by simp, [], ?_, fun pieces hne hp => ?_⟩
  · have hlen := length_allCells chunk.destinations
    rw [show total chunk.destinations = 0 from h0] at hlen
    rw [List.eq_nil_of_length_eq_zero hlen]
    rfl
  · have hnil : pieces = [] := by
      cases pieces with
      | nil => rfl
      | cons p ps =>
        simp only [List.flatten_cons, List.flatten_nil, List.append_eq_nil_iff] at hp
        exact absurd hp.1 (hne p (by simp))
    subst hnil
    exact ⟨[], _, [], rfl, (codecs.lossless_coder _).nothing, rfl⟩

/-- **A chunk of readable files is uploaded.** -/
theorem uploadChunk_uploaded (cfg : TransferConfig) (spare : Nat) {chunk : Chunk}
    (hread : ∀ e ∈ chunk.destinations, src.Readable e) (hsize : chunk.dataSize < u64Size)
    (hurl : chunk.url.isSome) :
    ∃ parts chunk', uploadChunk src hashes codecs cfg spare (.ok ()) chunk = .ok (parts, chunk') ∧
      Uploaded src hashes codecs cfg.compression chunk parts.flatten chunk' := by
  have hmod : chunk.destinations.foldl (fun acc item => acc + item.size) 0 % u64Size = chunk.dataSize := by
    rw [foldl_size, Nat.zero_add]
    exact Nat.mod_eq_of_lt hsize
  obtain ⟨url, hurl⟩ := Option.isSome_iff_exists.mp hurl
  unfold uploadChunk
  rw [hmod]
  rcases Nat.eq_zero_or_pos chunk.dataSize with h0 | hpos
  · rw [if_neg (by omega), h0]
    exact ⟨_, _, rfl, uploaded_nothing src hashes codecs cfg.compression h0⟩
  · rw [if_pos hpos]
    have hne : chunk.destinations ≠ [] := by
      intro h
      simp [Chunk.dataSize, h] at hpos
    obtain ⟨r, parts, hnew, hparts, hplain, data, hdata, hdec⟩ :=
      exists_parts src hashes codecs cfg spare hread hne cfg.compression
    have hurl' : requireUrl chunk = .ok url := by simp [requireUrl, hurl]
    simp only [hnew, nonRecoverable, Except.mapError, bind, Except.bind]
    split
    · rename_i hcomp
      simp only [hurl', hparts]
      refine ⟨_, _, rfl, ?_, data, hdata, fun pieces _ hp => hdec pieces hp⟩
      rw [hplain hcomp]
      rfl
    · simp only [consumeReader, hparts, Except.map, hurl']
      refine ⟨_, _, rfl, ?_, data, hdata, fun pieces _ hp => hdec pieces (hp.trans (flatten_filter_ne_nil parts))⟩
      rw [flatten_filter_ne_nil, ← List.length_flatten, flatten_filter_ne_nil]

/-- **An uploaded chunk states its body**, which decodes to the bytes of its destinations. -/
theorem uploaded_of_ok {cfg : TransferConfig} {spare : Nat} {put : Except String Unit} {chunk chunk' : Chunk}
    {parts : List Bytes} (hsize : chunk.dataSize < u64Size)
    (h : uploadChunk src hashes codecs cfg spare put chunk = .ok (parts, chunk')) :
    Uploaded src hashes codecs cfg.compression chunk parts.flatten chunk' := by
  have hmod : chunk.destinations.foldl (fun acc item => acc + item.size) 0 % u64Size = chunk.dataSize := by
    rw [foldl_size, Nat.zero_add]
    exact Nat.mod_eq_of_lt hsize
  unfold uploadChunk at h
  rw [hmod] at h
  rcases Nat.eq_zero_or_pos chunk.dataSize with h0 | hpos
  · rw [if_neg (by omega)] at h
    cases h
    rw [h0]
    exact uploaded_nothing src hashes codecs cfg.compression h0
  rw [if_pos hpos] at h
  cases hnew : (DestinationsReader.new src hashes chunk.destinations :
      Except NonRecoverableError (DestinationsReader (codecs.encoder cfg.compression))) with
  | error err =>
    simp only [hnew, nonRecoverable, Except.mapError, bind, Except.bind] at h
    cases h
  | ok r =>
    simp only [hnew, nonRecoverable, Except.mapError, bind, Except.bind] at h
    have hread : ∀ {ps}, r.parts src hashes cfg spare = .ok ps → ∃ parts : List Bytes,
        ps = (parts, .blake3 (hashes.blake3 parts.flatten)) ∧
        (cfg.compression = none → parts.flatten.length = chunk.dataSize) ∧
        ∃ data : Bytes, data.map some = src.bytesAt (allCells chunk.destinations) ∧
          ∀ pieces : List Bytes, pieces.flatten = parts.flatten →
            Decodes (codecs.decoder cfg.compression) pieces data := by
      intro ps hps
      obtain ⟨hi, hpending⟩ := new_ok src hashes hnew
      obtain ⟨xs, x, hreads⟩ := reads_of_parts src hashes _ (Nat.le_refl _) (by rw [hi]; rfl) hps
      obtain ⟨parts, hparts, hplain, hdata⟩ := hreads.body src hashes codecs hi
      rw [hps] at hparts
      rw [hpending] at hplain hdata
      exact ⟨parts, Except.ok.inj hparts, hplain, hdata⟩
    split at h
    · rename_i hcomp
      cases hurl : requireUrl chunk with
      | error err => simp [hurl] at h
      | ok url =>
        cases hps : r.parts src hashes cfg spare with
        | error err => simp [hurl, hps] at h
        | ok ps =>
          obtain ⟨ps, rfl, hplain, hdata⟩ := hread hps
          cases put with
          | error err => simp [hurl, hps] at h
          | ok _ =>
            simp only [hurl, hps, Except.ok.injEq, Prod.mk.injEq] at h
            obtain ⟨rfl, rfl⟩ := h
            obtain ⟨data, hbytes, hdec⟩ := hdata
            exact ⟨by rw [hplain hcomp], data, hbytes, fun pieces _ hp => hdec pieces hp⟩
    · cases hps : r.parts src hashes cfg spare with
      | error err => simp [consumeReader, hps, Except.map] at h
      | ok ps =>
        obtain ⟨ps, rfl, _, data, hbytes, hdec⟩ := hread hps
        cases hurl : requireUrl chunk with
        | error err => simp [consumeReader, hps, hurl, Except.map] at h
        | ok url =>
          cases put with
          | error err => simp [consumeReader, hps, hurl, Except.map] at h
          | ok _ =>
            simp only [consumeReader, hps, hurl, Except.map, Except.ok.injEq, Prod.mk.injEq] at h
            obtain ⟨rfl, rfl⟩ := h
            refine ⟨?_, data, hbytes, fun pieces _ hp => hdec pieces (hp.trans (flatten_filter_ne_nil ps))⟩
            rw [← List.length_flatten, flatten_filter_ne_nil]

end Blockvisor
