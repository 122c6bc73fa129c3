/-
Files of a node, as the plugin reads and writes them (`file_read` and
`file_write`): the requests of `babel_engine.rs` and what `babel_service.rs`
does for them.

A file that is written without an error is there (`file_written`), whatever
became of the tries before. What is read of it is the first part of it, and
an error of babel's disk is no error of the read: `file_read_back` says of
which parts it is. `burst_rejected` is what the checksum is good for.
-/
import Blockvisor.BvUtils.Binary

namespace Blockvisor

open Effect

namespace BabelService

/-- `file_write`: the stream begins with where it goes. -/
def fileWrite (env : SaveBinEnv) : BinStream → Effect String (Store String) Unit
  | .ok (.destination path) :: stream => do
    let _ ← mapError (fun err => s!"file_write {path} failed: {err}")
      (zoom (· path) (fun file files => Function.update files path file) (saveBinStream env path stream))
    pure ()
  | _ => throw "missing file destination"

def fileRead (env : LoadBinEnv) (path : String) : Effect String (Store String) (List Binary) := do
  let files ← gets id
  match loadBin env path (files path) with
  | .ok (content, _) => pure content
  | .error err => throw s!"file_read {path} failed: {err}"

end BabelService

namespace EngineRequest

/-- How a try of `FileWrite` goes. -/
structure WriteTry where
  fate : RequestFate
  breaks : Option Nat
  save : SaveBinEnv

/-- How a try of `FileRead` goes. -/
structure ReadTry where
  fate : RequestFate
  load : LoadBinEnv

/-- The handler of `FileWrite`, with `babel_client` connected. -/
def fileWrite (tries : Nat → WriteTry) (path : String) (content : Bytes) : Effect String (Store String) Unit :=
  withRetry fun i => rpc (tries i).fate (BabelService.fileWrite (tries i).save (sent (tries i).breaks (bytesIntoBin path content)))

/-- The handler of `FileRead`: the stream is received after the request is answered. -/
def fileRead (tries : Nat → ReadTry) (breaks : Option Nat) (path : String) : Effect String (Store String) Bytes := do
  let parts ← withRetry fun i => rpc (tries i).fate (BabelService.fileRead (tries i).load path)
  ofExcept (streamIntoBytes (sent breaks parts))

end EngineRequest

/-! ## Written files -/

/-- The file is there and no other changed. -/
def FileHolds (before : Store String) (path : String) (content : Bytes) (files : Store String) : Prop :=
  files path = some content ∧ ∀ p, p ≠ path → files p = before p

/-- No other file changed. -/
def OnlyAt (before : Store String) (path : String) (files : Store String) : Prop := ∀ p, p ≠ path → files p = before p

theorem fileWrite_sent (env : SaveBinEnv) (breaks : Option Nat) (path : String) (content : Bytes) :
    (∃ breaks', BabelService.fileWrite env (sent breaks (bytesIntoBin path content)) =
      BabelService.fileWrite env (.ok (.destination path) :: sent breaks' (binParts (chunks content)))) ∨
    BabelService.fileWrite env (sent breaks (bytesIntoBin path content)) = throw "missing file destination" := by
  cases breaks with
  | none => exact .inl ⟨none, rfl⟩
  | some n =>
    cases n with
    | zero => exact .inr rfl
    | succ n => exact .inl ⟨some n, rfl⟩

/-- One try: the file is there when it is answered. -/
theorem saved_fileWrite {env : SaveBinEnv} (hroomy : env.Roomy) {before : Store String} {breaks : Option Nat} {path : String}
    {content : Bytes} :
    Triple (OnlyAt before path) (BabelService.fileWrite env (sent breaks (bytesIntoBin path content)))
      (fun _ => FileHolds before path content) fun _ => OnlyAt before path := by
  rcases fileWrite_sent env breaks path content with ⟨breaks', hsent⟩ | hsent
  · rw [hsent]
    intro files hfiles
    have hother : ∀ file', OnlyAt before path (Function.update files path file') := fun file' p hp => by
      rw [Function.update_of_ne hp, hfiles p hp]
    have hsaved : Triple (· = files)
        (zoom (· path) (fun file files => Function.update files path file)
          (saveBinStream env path (sent breaks' (binParts (chunks content)))))
        (fun checksum files' => ∃ file', files' = Function.update files path file' ∧
          Saved env (sent breaks' (binParts (chunks content))) checksum file')
        fun _ files' => ∃ file', files' = Function.update files path file' ∧ True :=
      Triple.zoom ((saved_bin env path _).pre fun _ _ => trivial)
    suffices htry : Triple (· = files)
        (BabelService.fileWrite env (.ok (.destination path) :: sent breaks' (binParts (chunks content))))
        (fun _ => FileHolds before path content) fun _ => OnlyAt before path from htry files rfl
    refine Triple.bind (Triple.mapError (hsaved.exit ?_)) fun checksum => Triple.pure ?_
    · rintro e files' ⟨file', rfl, _⟩
      cases e with
      | error e => exact hother file'
      | killed => exact hother file'
    · rintro files' ⟨file', rfl, hfile⟩
      refine ⟨?_, hother file'⟩
      have htakes : env.TakesAll (sent breaks' (binParts (chunks content))) := by
        rw [sent_whole hfile.whole]
        exact hroomy.takesAll fun bytes hbytes => length_of_mem_binParts hbytes
      rw [Function.update_self, hfile.payload htakes, sent_whole hfile.whole, payload_binParts, chunks_flatten]
  · rw [hsent]
    exact Triple.throw fun files hfiles => hfiles

theorem file_written {tries : Nat → EngineRequest.WriteTry} (hroomy : ∀ i, (tries i).save.Roomy) (before : Store String)
    (path : String) (content : Bytes) :
    Triple (OnlyAt before path) (EngineRequest.fileWrite tries path content) (fun _ => FileHolds before path content)
      fun _ => OnlyAt before path :=
  Triple.withRetry fun i => Triple.rpc (saved_fileWrite (hroomy i)) fun _ _ h => h.2

/-- A write goes well when nothing fails. -/
theorem fileWrite_clean {tries : Nat → EngineRequest.WriteTry} (hfate : (tries 0).fate = .answered) (hbreaks : (tries 0).breaks = none)
    (hclean : (tries 0).save.Clean) (hroomy : (tries 0).save.Roomy) (path : String) (content : Bytes) (files : Store String) :
    EngineRequest.fileWrite tries path content files = (.ok (), Function.update files path (some content)) := by
  have hsave : saveBinStream (tries 0).save path ((binParts (chunks content)).map .ok) (files path) =
      (.ok (crc32.checksum content), some content) := by
    have hsaved := saveBinStream_binParts hclean hroomy path (fun _ => some 16384) content (files path)
    rwa [← chunks, chunks_flatten] at hsaved
  have htry : rpc (tries 0).fate (BabelService.fileWrite (tries 0).save (sent (tries 0).breaks (bytesIntoBin path content))) files =
      (.ok (), Function.update files path (some content)) := by
    rw [hfate, hbreaks]
    have hzoom : mapError (fun err => s!"file_write {path} failed: {err}")
        (zoom (· path) (fun file files => Function.update files path file)
          (saveBinStream (tries 0).save path ((binParts (chunks content)).map .ok))) files =
        (.ok (crc32.checksum content), Function.update files path (some content)) := by
      unfold mapError zoom
      rw [hsave]
    exact bind_of_ok hzoom
  exact bind_of_ok (attempt_ok htry)

/-! ## Read files -/

/-- One try: what it is answered is read of the file. -/
theorem read_fileRead {env : LoadBinEnv} {before : Store String} {path : String} :
    Triple (· = before) (BabelService.fileRead env path)
      (fun parts files => files = before ∧ ∃ data, before path = some data ∧ parts = binParts (readFile env.reads data))
      fun _ => (· = before) := by
  refine Triple.bind Triple.gets fun files => ?_
  split
  · rename_i content checksum hload
    refine Triple.pure ?_
    rintro s ⟨rfl, rfl⟩
    obtain ⟨data, hdata, hparts, _⟩ := loadBin_ok hload
    exact ⟨rfl, data, hdata, hparts⟩
  · refine Triple.throw ?_
    rintro s ⟨_, rfl⟩
    rfl

/-- What is read of a file is the first part of it, as far as its last read got. -/
theorem file_read_back (tries : Nat → EngineRequest.ReadTry) (breaks : Option Nat) (before : Store String) (path : String) :
    Triple (· = before) (EngineRequest.fileRead tries breaks path)
      (fun bytes files => files = before ∧
        ∃ data i, before path = some data ∧ bytes = (readFile (tries i).load.reads data).flatten)
      fun _ => (· = before) := by
  have htries : Triple (· = before)
      (withRetry fun i => rpc (tries i).fate (BabelService.fileRead (tries i).load path))
      (fun parts files => files = before ∧
        ∃ data i, before path = some data ∧ parts = binParts (readFile (tries i).load.reads data))
      fun _ => (· = before) := by
    refine Triple.withRetry fun i => (Triple.rpc read_fileRead fun _ _ h => h.1).post ?_
    rintro parts files ⟨hfiles, data, hdata, hparts⟩
    exact ⟨hfiles, data, i, hdata, hparts⟩
  refine Triple.bind htries fun parts => Triple.ofExcept ?_ ?_
  · rintro bytes hbytes files ⟨hfiles, data, i, hdata, rfl⟩
    obtain ⟨rfl, herror⟩ := streamIntoBytes_ok hbytes
    refine ⟨hfiles, data, i, hdata, ?_⟩
    rw [sent_whole herror, payload_binParts]
  · exact fun _ _ files h => h.1

/-! ## Runs of requests -/

inductive FileOp where
  | write (tries : Nat → EngineRequest.WriteTry) (path : String) (content : Bytes)
  | read (tries : Nat → EngineRequest.ReadTry) (breaks : Option Nat) (path : String)

def FileOp.Roomy : FileOp → Prop
  | .write tries _ _ => ∀ i, (tries i).save.Roomy
  | .read _ _ _ => True

/-- The files, and what the plugin knows of them: what it last wrote, unless that failed. -/
structure FilesSt where
  files : Store String
  known : Store String

def FilesSt.step (s : FilesSt) : FileOp → FilesSt
  | .write tries path content =>
    match EngineRequest.fileWrite tries path content s.files with
    | (.ok _, files) => ⟨files, Function.update s.known path (some content)⟩
    | (.error _, files) => ⟨files, Function.update s.known path none⟩
  | .read tries breaks path => { s with files := (EngineRequest.fileRead tries breaks path s.files).2 }

def FilesSt.run (s : FilesSt) (ops : List FileOp) : FilesSt := ops.foldl step s

/-- What is known is so. -/
def FilesSt.Sound (s : FilesSt) : Prop := ∀ path content, s.known path = some content → s.files path = some content

theorem FilesSt.Sound.step {s : FilesSt} (h : s.Sound) {op : FileOp} (hroomy : op.Roomy) : (s.step op).Sound := by
  cases op with
  | write tries path content =>
    have hwrite := file_written hroomy s.files path content s.files fun _ _ => rfl
    cases hr : EngineRequest.fileWrite tries path content s.files with
    | mk r files =>
      rw [hr] at hwrite
      cases r with
      | ok u =>
        have hstep : s.step (.write tries path content) = ⟨files, Function.update s.known path (some content)⟩ := by
          simp only [FilesSt.step, hr]
        rw [hstep]
        intro p c (hp : Function.update s.known path (some content) p = some c)
        by_cases hpath : p = path
        · subst hpath
          rw [Function.update_self] at hp
          exact hwrite.1.trans hp
        · rw [Function.update_of_ne hpath] at hp
          exact (hwrite.2 p hpath).trans (h p c hp)
      | error e =>
        have hstep : s.step (.write tries path content) = ⟨files, Function.update s.known path none⟩ := by
          simp only [FilesSt.step, hr]
        rw [hstep]
        intro p c (hp : Function.update s.known path none p = some c)
        have hpath : p ≠ path := fun hpath => by
          subst hpath
          rw [Function.update_self] at hp
          cases hp
        rw [Function.update_of_ne hpath] at hp
        exact (hwrite p hpath).trans (h p c hp)
  | read tries breaks path =>
    have hread : Triple (· = s.files) (EngineRequest.fileRead tries breaks path) (fun _ => (· = s.files)) fun _ => (· = s.files) :=
      (file_read_back tries breaks s.files path).post fun _ _ h => h.1
    intro p c hp
    show (EngineRequest.fileRead tries breaks path s.files).2 p = some c
    rw [hread.run rfl]
    exact h p c hp

theorem FilesSt.Sound.run {ops : List FileOp} {s : FilesSt} (h : s.Sound) (hroomy : ∀ op ∈ ops, op.Roomy) : (s.run ops).Sound := by
  induction ops generalizing s with
  | nil => exact h
  | cons op ops ih => exact ih (h.step (hroomy op List.mem_cons_self)) fun op' hop => hroomy op' (List.mem_cons_of_mem _ hop)

/-- **What is written is read back.** After any run of requests a file that was last written without
an error holds what was written. A read of it that ends well gives the first part of that, and all
of it when no read of babel fails. -/
theorem written_read_back {ops : List FileOp} (hroomy : ∀ op ∈ ops, op.Roomy) {files : Store String} {path : String}
    {content : Bytes} (hknown : (FilesSt.run ⟨files, fun _ => none⟩ ops).known path = some content) :
    (FilesSt.run ⟨files, fun _ => none⟩ ops).files path = some content ∧
      ∀ tries breaks bytes after,
        EngineRequest.fileRead tries breaks path (FilesSt.run ⟨files, fun _ => none⟩ ops).files = (.ok bytes, after) →
          bytes <+: content ∧ ((∀ i, (tries i).load.reads.Whole) → bytes = content) := by
  have hsound : (FilesSt.run ⟨files, fun _ => none⟩ ops).Sound := FilesSt.Sound.run (fun _ _ h => by cases h) hroomy
  have hfile := hsound path content hknown
  refine ⟨hfile, fun tries breaks bytes after hread => ?_⟩
  have hback := file_read_back tries breaks (FilesSt.run ⟨files, fun _ => none⟩ ops).files path _ rfl
  rw [hread] at hback
  obtain ⟨_, data, i, hdata, rfl⟩ := hback
  cases hfile.symm.trans hdata
  exact ⟨readFile_first .., fun hwhole => readFile_whole (hwhole i) _⟩

theorem written_read_back_conf :
    let s := FilesSt.run ⟨fun _ => none, fun _ => none⟩ [.write (fun _ => ⟨.answered, none, plainDisk⟩) "/etc/node.conf" [104, 105]]
    s.files "/etc/node.conf" = some [104, 105] ∧
      ∀ tries breaks bytes after, EngineRequest.fileRead tries breaks "/etc/node.conf" s.files = (.ok bytes, after) →
        bytes <+: [104, 105] ∧ ((∀ i, (tries i).load.reads.Whole) → bytes = [104, 105]) :=
  written_read_back (by simp [FileOp.Roomy, plainDisk_roomy])
    (by simp [FilesSt.run, FilesSt.step, fileWrite_clean, plainDisk_clean, plainDisk_roomy])

end Blockvisor
