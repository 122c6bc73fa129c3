/-
Binary files on their way between the daemon and babel: a file read into a
stream of parts that ends with its checksum (`load_bin`, `bytes_into_bin`), the
stream saved as a file that is read back (`save_bin_stream`, `file_checksum`),
and the requests that carry it, which are retried (`with_retry`).

How reads, writes and requests go is up to the environment. An error of a read
is taken for the end of the file, so what is loaded of a file is the first part
of it (`readFile_first`). A stream that is saved without an error left a file
with the checksum it ends with (`saveBinStream_saved`).
-/
import Mathlib.Logic.Function.Basic
import Blockvisor.Lib.Crc
import Blockvisor.Lib.Effect
import Blockvisor.Lib.Extent

namespace Blockvisor

open Effect

/-- `CRC_32_BZIP2`. -/
def crc32 : Crc 32 := ⟨0x04c11db7#32, 0xffffffff#32, 0xffffffff#32⟩

theorem crc32_odd : crc32.Odd := by
  unfold Crc.Odd
  decide

example : (crc32.checksum "dummy content".toUTF8.toList).toNat = 2134916024 := by decide +kernel

inductive Binary where
  | destination (path : String)
  | bin (bytes : Bytes)
  | checksum (checksum : BitVec 32)
  deriving DecidableEq, Repr

/-! ## Files -/

/-- How much each read gives at most, unless it fails. -/
abbrev ReadEnv := Nat → Option Nat

/-- A read gives something as long as something is left, and no more than the buffer holds. -/
def readSize (given : Nat) : Nat := max 1 (min given 16384)

/-- The parts that are read, until there is nothing left or a read fails. -/
def readParts (env : ReadEnv) : Nat → Nat → Bytes → List Bytes
  | 0, _, _ => []
  | fuel + 1, i, data =>
    match env i with
    | none => []
    | some given =>
      if data = [] then [] else data.take (readSize given) :: readParts env fuel (i + 1) (data.drop (readSize given))

def readFile (env : ReadEnv) (data : Bytes) : List Bytes := readParts env data.length 0 data

/-- `bytes.chunks(16384)`: as it is read when the buffer is always filled. -/
def chunks (bytes : Bytes) : List Bytes := readFile (fun _ => some 16384) bytes

/-- A digest updated with one part after the other. -/
def digest (parts : List Bytes) : BitVec 32 := crc32.finalize (parts.foldl crc32.update crc32.init)

/-- Parts, and the checksum of them at the end. -/
def binParts (parts : List Bytes) : List Binary := parts.map .bin ++ [.checksum (digest parts)]

structure LoadBinEnv where
  opens : Bool
  reads : ReadEnv

def loadBin (env : LoadBinEnv) (path : String) (file : Option Bytes) : Except String (List Binary × BitVec 32) :=
  match file, env.opens with
  | some data, true =>
    let parts := readFile env.reads data
    .ok (binParts parts, digest parts)
  | _, _ => .error s!"failed to load binary {path}"

def bytesIntoBin (destination : String) (bytes : Bytes) : List Binary :=
  .destination destination :: binParts (chunks bytes)

def fileChecksum (env : LoadBinEnv) (file : Option Bytes) : Except String (BitVec 32) :=
  match file, env.opens with
  | some data, true => .ok (digest (readFile env.reads data))
  | _, _ => .error "failed to open file"

theorem digest_of_fileChecksum {env : LoadBinEnv} {data : Bytes} {checksum : BitVec 32}
    (h : fileChecksum env (some data) = .ok checksum) : digest (readFile env.reads data) = checksum := by
  unfold fileChecksum at h
  split at h
  · rename_i hdata _
    cases hdata
    cases h
    rfl
  · cases h

theorem loadBin_ok {env : LoadBinEnv} {path : String} {file : Option Bytes} {parts : List Binary} {checksum : BitVec 32}
    (h : loadBin env path file = .ok (parts, checksum)) :
    ∃ data, file = some data ∧ parts = binParts (readFile env.reads data) ∧ checksum = digest (readFile env.reads data) := by
  unfold loadBin at h
  split at h
  · rename_i data _
    cases h
    exact ⟨data, rfl, rfl, rfl⟩
  · cases h

/-- No read fails. -/
def ReadEnv.Whole (env : ReadEnv) : Prop := ∀ i, env i ≠ none

theorem readParts_first (env : ReadEnv) (fuel i : Nat) (data : Bytes) : (readParts env fuel i data).flatten <+: data := by
  induction fuel generalizing i data with
  | zero => exact List.nil_prefix
  | succ fuel ih =>
    unfold readParts
    split
    · exact List.nil_prefix
    · split
      · exact List.nil_prefix
      · rename_i given _ _
        rw [List.flatten_cons]
        conv => rhs; rw [← List.take_append_drop (readSize given) data]
        exact (List.prefix_append_right_inj _).mpr (ih _ _)

theorem readFile_first (env : ReadEnv) (data : Bytes) : (readFile env data).flatten <+: data := readParts_first ..

theorem readParts_whole {env : ReadEnv} (h : env.Whole) {fuel i : Nat} {data : Bytes} (hfuel : data.length ≤ fuel) :
    (readParts env fuel i data).flatten = data := by
  induction fuel generalizing i data with
  | zero =>
    rw [List.length_eq_zero_iff.mp (Nat.le_zero.mp hfuel)]
    rfl
  | succ fuel ih =>
    unfold readParts
    cases hi : env i with
    | none => exact absurd hi (h i)
    | some given =>
      by_cases hdata : data = []
      · simp [hdata]
      · have hpos : 0 < data.length := List.length_pos_iff.mpr hdata
        have hsize : 1 ≤ readSize given := Nat.le_max_left ..
        show (if data = [] then [] else _ :: _).flatten = data
        rw [if_neg hdata, List.flatten_cons, ih (by rw [List.length_drop]; omega), List.take_append_drop]

theorem readFile_whole {env : ReadEnv} (h : env.Whole) (data : Bytes) : (readFile env data).flatten = data :=
  readParts_whole h (Nat.le_refl _)

theorem readParts_length {env : ReadEnv} {fuel i : Nat} {data part : Bytes} (h : part ∈ readParts env fuel i data) :
    part.length ≤ 16384 := by
  induction fuel generalizing i data with
  | zero => cases h
  | succ fuel ih =>
    unfold readParts at h
    split at h
    · cases h
    · split at h
      · cases h
      · rename_i given _ _
        cases h with
        | head =>
          have hsize : readSize given ≤ 16384 := Nat.max_le.mpr ⟨by decide, Nat.min_le_right ..⟩
          exact Nat.le_trans (List.length_take_le ..) hsize
        | tail _ h => exact ih h

theorem chunks_flatten (bytes : Bytes) : (chunks bytes).flatten = bytes := readFile_whole (fun _ h => by cases h) bytes

theorem digest_eq (parts : List Bytes) : digest parts = crc32.checksum parts.flatten := by
  rw [digest, Crc.update_flatten, Crc.checksum]

/-! ## Streams -/

/-- A stream as it is received: an error takes the place of what is lost. -/
abbrev BinStream := List (Except String Binary)

/-- How a stream is saved: whether the old file is removed and the new one opened, how much each
write takes, unless it fails, and how much of what was taken is in the file of a stream that is
given up. -/
structure SaveBinEnv where
  removed : Bool
  opens : Bool
  writes : Nat → Option Nat
  flushes : Bool
  kept : Nat
  load : LoadBinEnv

/-- The parts are written one after the other; the last checksum is what is expected. -/
def saveParts (env : SaveBinEnv) : Nat → Option (BitVec 32) → BinStream → Effect String (Option Bytes) (Option (BitVec 32))
  | _, expected, [] => pure expected
  | i, expected, part :: stream =>
    match part with
    | .error status => throw status
    | .ok (.bin bytes) =>
      match env.writes i with
      | none => throw "failed to save binary"
      | some taken => do
        modify (·.map (· ++ bytes.take taken))
        saveParts env (i + 1) expected stream
    | .ok (.checksum checksum) => saveParts env (i + 1) (some checksum) stream
    | .ok (.destination _) => saveParts env (i + 1) expected stream

/-- Of a file that is given up only a part is there. -/
def losing {α : Type} (kept : Nat) (m : Effect String (Option Bytes) α) : Effect String (Option Bytes) α := fun file =>
  match m file with
  | (.ok a, file') => (.ok a, file')
  | (.error e, file') => (.error e, file'.map (·.take kept))

/-- `save_bin_stream`, on the file at `path`. -/
def saveBinStream (env : SaveBinEnv) (path : String) (stream : BinStream) : Effect String (Option Bytes) (BitVec 32) := do
  when (env.removed = true) (modify fun _ => none)
  when (env.opens = false) (throw s!"failed to open binary file '{path}'")
  modify fun _ => some []
  let expected ← losing env.kept do
    let expected ← saveParts env 0 none stream
    when (env.flushes = false) (throw "failed to save binary")
    pure expected
  match expected with
  | none => throw "incomplete binary stream - missing checksum"
  | some expected => do
    match fileChecksum env.load (← gets id) with
    | .error _ => throw "failed to calculate binary checksum"
    | .ok checksum => do
      when (expected ≠ checksum) do
        let received := checksum.toNat
        let expected := expected.toNat
        throw s!"received binary checksum ({received})doesn't match expected ({expected})"
      pure checksum

/-- `stream_into_bytes`. -/
def streamIntoBytes : BinStream → Except String Bytes
  | [] => .ok []
  | .error status :: _ => .error status
  | .ok (.bin bytes) :: stream => (streamIntoBytes stream).map (bytes ++ ·)
  | .ok _ :: stream => streamIntoBytes stream

/-- The parts of a stream. -/
def payload : BinStream → Bytes
  | [] => []
  | .ok (.bin bytes) :: stream => bytes ++ payload stream
  | _ :: stream => payload stream

/-- The checksum a stream ends with. -/
def lastChecksum (expected : Option (BitVec 32)) : BinStream → Option (BitVec 32)
  | [] => expected
  | .ok (.checksum checksum) :: stream => lastChecksum (some checksum) stream
  | _ :: stream => lastChecksum expected stream

/-- Each write takes the whole of its part, unless it fails. -/
def SaveBinEnv.TakesAll (env : SaveBinEnv) (stream : BinStream) : Prop :=
  ∀ i n bytes, env.writes i = some n → .ok (.bin bytes) ∈ stream → bytes.length ≤ n

theorem SaveBinEnv.TakesAll.tail {env : SaveBinEnv} {part : Except String Binary} {stream : BinStream}
    (h : env.TakesAll (part :: stream)) : env.TakesAll stream :=
  fun i n bytes hn hbytes => h i n bytes hn (List.mem_cons_of_mem _ hbytes)

/-- The parts of a stream that are written without an error, none of them being one. -/
theorem saveParts_ok {env : SaveBinEnv} {i : Nat} {expected last : Option (BitVec 32)} {stream : BinStream} {data : Bytes}
    {file : Option Bytes} (h : saveParts env i expected stream (some data) = (.ok last, file)) :
    (∃ written, file = some (data ++ written) ∧ (env.TakesAll stream → written = payload stream)) ∧
      last = lastChecksum expected stream ∧ ∀ status, .error status ∉ stream := by
  induction stream generalizing i expected data with
  | nil =>
    cases h
    exact ⟨⟨[], by simp, fun _ => rfl⟩, rfl, by simp⟩
  | cons part stream ih =>
    cases part with
    | error status => cases h
    | ok b =>
      cases b with
      | destination path =>
        obtain ⟨⟨written, hfile, hall⟩, hlast, herror⟩ := ih (i := i + 1) h
        exact ⟨⟨written, hfile, fun ht => hall ht.tail⟩, hlast, by simpa using herror⟩
      | checksum checksum =>
        obtain ⟨⟨written, hfile, hall⟩, hlast, herror⟩ := ih (i := i + 1) h
        exact ⟨⟨written, hfile, fun ht => hall ht.tail⟩, hlast, by simpa using herror⟩
      | bin bytes =>
        simp only [saveParts] at h
        cases hwrite : env.writes i with
        | none =>
          rw [hwrite] at h
          cases h
        | some n =>
          rw [hwrite] at h
          obtain ⟨⟨written, hfile, hall⟩, hlast, herror⟩ := ih (i := i + 1) h
          refine ⟨⟨bytes.take n ++ written, ?_, fun ht => ?_⟩, hlast, by simpa using herror⟩
          · rw [hfile, List.append_assoc]
          · rw [hall ht.tail, List.take_of_length_le (ht i n bytes hwrite List.mem_cons_self), payload]

theorem of_losing_ok {α : Type} {kept : Nat} {m : Effect String (Option Bytes) α} {file file' : Option Bytes} {a : α}
    (h : losing kept m file = (.ok a, file')) : m file = (.ok a, file') := by
  unfold losing at h
  cases hm : m file with
  | mk r t =>
    rw [hm] at h
    cases r with
    | ok a => exact h
    | error e => cases h

/-- A stream that is saved as `file`: what the checksum was compared with, and what is there. -/
structure Saved (env : SaveBinEnv) (stream : BinStream) (checksum : BitVec 32) (file : Option Bytes) : Prop where
  whole : ∀ status, .error status ∉ stream
  expected : lastChecksum none stream = some checksum
  read_back : ∃ data, file = some data ∧ digest (readFile env.load.reads data) = checksum
  payload : env.TakesAll stream → file = some (payload stream)

theorem saveBinStream_saved {env : SaveBinEnv} {path : String} {stream : BinStream} {file file' : Option Bytes}
    {checksum : BitVec 32} (h : saveBinStream env path stream file = (.ok checksum, file')) : Saved env stream checksum file' := by
  unfold saveBinStream at h
  obtain ⟨_, file₁, _, h⟩ := of_bind_ok h
  obtain ⟨_, file₂, _, h⟩ := of_bind_ok h
  obtain ⟨_, file₃, hempty, h⟩ := of_bind_ok h
  cases hempty
  obtain ⟨expected, file₄, hparts, h⟩ := of_bind_ok h
  obtain ⟨last, file₅, hsaved, hflush⟩ := of_bind_ok (of_losing_ok hparts)
  obtain ⟨⟨data, hfile, hall⟩, hlast, herror⟩ := saveParts_ok hsaved
  rw [List.nil_append] at hfile
  obtain ⟨_, file₆, hflushed, hpure⟩ := of_bind_ok hflush
  cases hpure
  cases (when_throw_ok hflushed).2
  cases expected with
  | none => cases h
  | some expected =>
    obtain ⟨_, _, hgets, h⟩ := of_bind_ok h
    cases hgets
    cases hload : fileChecksum env.load file₄ with
    | error err =>
      simp only [id, hload] at h
      cases h
    | ok got =>
      simp only [id, hload] at h
      obtain ⟨_, file₇, hchecked, h⟩ := of_bind_ok h
      cases h
      obtain ⟨hequal, hfile'⟩ := when_throw_ok hchecked
      subst hfile
      exact
        { whole := herror
          expected := by rw [← hlast, not_not.mp hequal]
          read_back := ⟨data, hfile', digest_of_fileChecksum hload⟩
          payload := fun ht => by rw [hfile', hall ht] }

/-- **A stream that is saved** without an error is there, and what was read back of it has the
checksum the stream ends with. -/
theorem saved_bin (env : SaveBinEnv) (path : String) (stream : BinStream) :
    Triple (fun _ => True) (saveBinStream env path stream) (Saved env stream) fun _ _ => True := by
  intro file _
  cases h : saveBinStream env path stream file with
  | mk r file' =>
    cases r with
    | ok checksum => exact saveBinStream_saved h
    | error e => trivial

theorem saveParts_clean {env : SaveBinEnv} (hwrites : ∀ i, env.writes i ≠ none) {i : Nat} {expected : Option (BitVec 32)}
    {parts : List Binary} (htakes : env.TakesAll (parts.map .ok)) (data : Bytes) :
    saveParts env i expected (parts.map .ok) (some data) =
      (.ok (lastChecksum expected (parts.map .ok)), some (data ++ payload (parts.map .ok))) := by
  induction parts generalizing i expected data with
  | nil => simp [saveParts, lastChecksum, payload]
  | cons b parts ih =>
    cases b with
    | destination path => exact ih htakes.tail data
    | checksum checksum => exact ih htakes.tail data
    | bin bytes =>
      cases hwrite : env.writes i with
      | none => exact absurd hwrite (hwrites i)
      | some n =>
        have htake : bytes.take n = bytes := List.take_of_length_le (htakes i n bytes hwrite List.mem_cons_self)
        simp only [List.map_cons, saveParts, hwrite, htake]
        rw [bind_of_ok (m := modify _) rfl]
        rw [show (some data).map (· ++ bytes) = some (data ++ bytes) from rfl, ih htakes.tail, payload, List.append_assoc]
        rfl

/-- Nothing fails. -/
structure SaveBinEnv.Clean (env : SaveBinEnv) : Prop where
  opens : env.opens = true
  writes : ∀ i, env.writes i ≠ none
  flushes : env.flushes = true
  load : env.load.opens = true
  reads : env.load.reads.Whole

/-- A stream whose parts have its checksum is saved when nothing fails. -/
theorem saveBinStream_clean {env : SaveBinEnv} (henv : env.Clean) {path : String} {parts : List Binary}
    (htakes : env.TakesAll (parts.map .ok))
    (hsum : lastChecksum none (parts.map .ok) = some (crc32.checksum (payload (parts.map .ok)))) (file : Option Bytes) :
    saveBinStream env path (parts.map .ok) file =
      (.ok (crc32.checksum (payload (parts.map .ok))), some (payload (parts.map .ok))) := by
  generalize hdata : payload (parts.map .ok) = data at hsum ⊢
  have hremoved : ∃ file', when (env.removed = true) (modify fun _ => none) file =
      ((.ok (), file') : Except (Exit String) Unit × Option Bytes) := by
    unfold when
    split
    · exact ⟨_, rfl⟩
    · exact ⟨_, rfl⟩
  obtain ⟨file', hremoved⟩ := hremoved
  have hsaved : losing env.kept (do
      let expected ← saveParts env 0 none (parts.map .ok)
      when (env.flushes = false) (throw "failed to save binary")
      pure expected) (some []) = (.ok (some (crc32.checksum data)), some data) := by
    have hparts := @saveParts_clean env henv.writes 0 none parts htakes []
    rw [hsum, hdata, List.nil_append] at hparts
    unfold losing
    rw [bind_of_ok hparts, henv.flushes]
    rfl
  have hchecksum : fileChecksum env.load (some data) = .ok (crc32.checksum data) := by
    simp only [fileChecksum, henv.load]
    rw [digest_eq, readFile_whole henv.reads]
  have hopened : ∀ message, when (env.opens = false) (throw message) file' =
      ((.ok (), file') : Except (Exit String) Unit × Option Bytes) := fun _ => by rw [henv.opens]; rfl
  have hempty : (modify fun _ => some []) file' = ((.ok (), some []) : Except (Exit String) Unit × Option Bytes) := rfl
  unfold saveBinStream
  rw [bind_of_ok hremoved, bind_of_ok (hopened _), bind_of_ok hempty, bind_of_ok hsaved]
  show (gets id >>= _) (some data) = _
  rw [gets_bind, id, hchecksum]
  show (when (crc32.checksum data ≠ crc32.checksum data) _ >>= fun _ => pure (crc32.checksum data)) (some data) = _
  rw [Effect.when, if_neg (not_not.mpr rfl)]
  rfl

theorem payload_binParts (parts : List Bytes) : payload ((binParts parts).map .ok) = parts.flatten := by
  unfold binParts
  generalize digest parts = checksum
  induction parts with
  | nil => rfl
  | cons part parts ih => simpa [payload] using ih

theorem lastChecksum_binParts (parts : List Bytes) (expected : Option (BitVec 32)) :
    lastChecksum expected ((binParts parts).map .ok) = some (crc32.checksum parts.flatten) := by
  rw [← digest_eq]
  unfold binParts
  generalize digest parts = checksum
  induction parts with
  | nil => rfl
  | cons part parts ih => simpa [lastChecksum] using ih

/-- Writes that take as much as is sent at a time. -/
def SaveBinEnv.Roomy (env : SaveBinEnv) : Prop := ∀ i n, env.writes i = some n → 16384 ≤ n

theorem SaveBinEnv.Roomy.takesAll {env : SaveBinEnv} (h : env.Roomy) {stream : BinStream}
    (hparts : ∀ bytes, .ok (.bin bytes) ∈ stream → bytes.length ≤ 16384) : env.TakesAll stream :=
  fun i n bytes hn hbytes => Nat.le_trans (hparts bytes hbytes) (h i n hn)

theorem length_of_mem_binParts {env : ReadEnv} {data bytes : Bytes}
    (h : .ok (.bin bytes) ∈ ((binParts (readFile env data)).map .ok : BinStream)) : bytes.length ≤ 16384 := by
  have hpart : bytes ∈ readFile env data := by simpa [binParts] using h
  exact readParts_length hpart

/-- A file that is sent whole is saved as it was read, when nothing fails. -/
theorem saveBinStream_binParts {env : SaveBinEnv} (hclean : env.Clean) (hroomy : env.Roomy) (path : String) (reads : ReadEnv)
    (data : Bytes) (file : Option Bytes) :
    saveBinStream env path ((binParts (readFile reads data)).map .ok) file =
      (.ok (crc32.checksum (readFile reads data).flatten), some (readFile reads data).flatten) := by
  have htakes : env.TakesAll ((binParts (readFile reads data)).map .ok) :=
    hroomy.takesAll fun bytes hbytes => length_of_mem_binParts hbytes
  have hsum := lastChecksum_binParts (readFile reads data) none
  rw [← payload_binParts (readFile reads data)] at hsum ⊢
  exact saveBinStream_clean hclean htakes hsum file

/-- A stream on its way, that may break after any of its parts. -/
def sent (breaks : Option Nat) (parts : List Binary) : BinStream :=
  match breaks with
  | none => parts.map .ok
  | some n => (parts.take n).map .ok ++ [.error "transport error"]

theorem streamIntoBytes_ok {stream : BinStream} {bytes : Bytes} (h : streamIntoBytes stream = .ok bytes) :
    bytes = payload stream ∧ ∀ status, .error status ∉ stream := by
  induction stream generalizing bytes with
  | nil =>
    cases h
    exact ⟨rfl, by simp⟩
  | cons part stream ih =>
    cases part with
    | error status => cases h
    | ok b =>
      cases b with
      | bin part =>
        obtain ⟨rest, hrest, rfl⟩ := Except.of_map_ok h
        obtain ⟨rfl, herror⟩ := ih hrest
        exact ⟨rfl, by simpa using herror⟩
      | destination path =>
        obtain ⟨rfl, herror⟩ := ih h
        exact ⟨rfl, by simpa using herror⟩
      | checksum checksum =>
        obtain ⟨rfl, herror⟩ := ih h
        exact ⟨rfl, by simpa using herror⟩

theorem sent_whole {breaks : Option Nat} {parts : List Binary} (h : ∀ status, .error status ∉ sent breaks parts) :
    sent breaks parts = parts.map .ok := by
  cases breaks with
  | none => rfl
  | some n => exact absurd (List.mem_append_right _ List.mem_cons_self) (h "transport error")

/-- A disk that takes and gives whole parts. -/
def plainDisk : SaveBinEnv :=
  { removed := true
    opens := true
    writes := fun _ => some 16384
    flushes := true
    kept := 0
    load := ⟨true, fun _ => some 16384⟩ }

theorem plainDisk_clean : plainDisk.Clean :=
  { opens := rfl
    writes := fun _ h => by cases h
    flushes := rfl
    load := rfl
    reads := fun _ h => by cases h }

theorem plainDisk_roomy : plainDisk.Roomy := fun _ n h => by
  cases h
  exact Nat.le_refl _

/-- What becomes of a request: it is answered, or lost, or served and its answer lost. -/
inductive RequestFate where
  | answered
  | lost
  | unanswered

section

variable {σ α : Type}

def rpc (fate : RequestFate) (m : Effect String σ α) : Effect String σ α :=
  match fate with
  | .answered => m
  | .lost => throw "transport error"
  | .unanswered => do
    let _ ← attempt m
    throw "transport error"

/-- The tries of a request from the `i`-th on, with so many of them left after it. -/
def retryFrom (m : Nat → Effect String σ α) : Nat → Nat → Effect String σ α
  | 0, i => m i
  | left + 1, i => do
    match ← attempt (m i) with
    | .ok a => pure a
    | .error _ => retryFrom m left (i + 1)

/-- `with_retry`: up to `RPC_RETRY_MAX` tries after the first. -/
def withRetry (m : Nat → Effect String σ α) : Effect String σ α := retryFrom m 3 0

/-- A retried request is judged by one try, from whatever the tries before it left behind. -/
theorem Triple.withRetry {P : σ → Prop} {Q : α → σ → Prop} {m : Nat → Effect String σ α}
    (h : ∀ i, Triple P (m i) Q fun _ => P) : Triple P (withRetry m) Q fun _ => P := by
  suffices hretry : ∀ left i, Triple P (retryFrom m left i) Q fun _ => P from hretry 3 0
  intro left
  induction left with
  | zero => exact h
  | succ left ih =>
    intro i
    refine Triple.bind (R := attempted Q P) (Triple.attempt ((h i).exit ?_)) fun r => ?_
    · intro e s hs
      cases e with
      | error e => exact hs
      | killed => exact hs
    · cases r with
      | ok a => exact Triple.pure fun _ h => h
      | error e => exact ih (i + 1)

/-- Tries that all fail into one state. -/
theorem retryFrom_error {m : Nat → Effect String σ α} {s' : σ} {left i : Nat} {s : σ}
    (h : ∀ j, i ≤ j → ∀ t, t = s ∨ t = s' → ∃ err, m j t = (.error (.error err), s')) :
    ∃ err, retryFrom m left i s = (.error (.error err), s') := by
  induction left generalizing i s with
  | zero => exact h i (Nat.le_refl _) s (.inl rfl)
  | succ left ih =>
    obtain ⟨err, hi⟩ := h i (Nat.le_refl _) s (.inl rfl)
    obtain ⟨err', hrest⟩ := ih fun j hj t ht => h j (Nat.le_of_succ_le hj) t (.inr (ht.elim id id))
    exact ⟨err', (bind_of_ok (attempt_error hi)).trans hrest⟩

/-- A request that is answered was served. -/
theorem Triple.rpc {P : σ → Prop} {Q : α → σ → Prop} {fate : RequestFate} {m : Effect String σ α}
    (h : Triple P m Q fun _ => P) (hunanswered : ∀ a s, Q a s → P s) : Triple P (rpc fate m) Q fun _ => P := by
  cases fate with
  | answered => exact h
  | lost => exact Triple.throw fun s hs => hs
  | unanswered =>
    refine Triple.bind (R := fun _ => P) (Triple.attempt (h.conseq (fun _ h => h) hunanswered ?_)) fun _ =>
      Triple.throw fun s hs => hs
    intro e s hs
    cases e with
    | error e => exact hs
    | killed => exact hs

end

end Blockvisor
