/-
What the archive jobs keep on disk (`jobs::load_job_data`, `save_job_data`,
`load_chunks`, `save_chunk`) and the state of their runners (`RunnersState`).
-/
import Blockvisor.Babel.Engine
import Blockvisor.Lib.Persist

namespace Blockvisor

def loadJobData {α : Type} (file : Doc α) : Except (Exit String) α :=
  match file.load with
  | some data => .ok data
  | none => .error (.error "failed to load job data")

def saveJobData {α : Type} (file : Doc α) (data : α) (fault : Fault DocCut) : Doc α × Except (Exit String) Unit :=
  file.save data fault "failed to save job data"

def loadChunks (file : LogFile Chunk) : Except (Exit String) (List Chunk) :=
  match file.load with
  | some chunks => .ok chunks
  | none => .error (.error "failed to parse chunk")

def saveChunk (file : LogFile Chunk) (chunk : Chunk) (fault : Fault LogCut) : LogFile Chunk × Except (Exit String) Unit :=
  file.save chunk fault "failed to save chunk"

theorem loadJobData_ok {α : Type} {file : Doc α} {data : α} : loadJobData file = .ok data ↔ file = .whole data := by
  cases file <;> simp [loadJobData, Doc.load]

theorem loadChunks_ok {file : LogFile Chunk} {chunks : List Chunk} :
    loadChunks file = .ok chunks ↔ file.load = some chunks := by
  unfold loadChunks
  cases file.load <;> simp

/-- The first error of a job's runners, and the flag that stops them. -/
structure RunnersState (ε : Type) where
  result : Option ε
  run : Bool
  deriving DecidableEq

/-- The first error is kept, and stops the runners. -/
def RunnersState.handleError {ε : Type} (s : RunnersState ε) (err : ε) : RunnersState ε :=
  match s.result with
  | none => ⟨some err, false⟩
  | some _ => s

theorem RunnersState.handleError_result {ε : Type} (s : RunnersState ε) (err : ε) :
    (s.handleError err).result ≠ none := by
  unfold handleError
  split
  · simp
  · rename_i h
    simp [h]

end Blockvisor
