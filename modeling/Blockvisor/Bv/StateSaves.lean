/-
What is loaded of a state after a save (`careful_save` in `utils.rs`,
`NodeState::load` in `node_state.rs`, `State::load` and `NodesManager::load` in
`nodes_manager.rs`). A save moves the file aside before it writes the new one,
and nothing that loads a state looks for the file that was moved aside.

So the old content is what is loaded as long as the file was not moved, or was
put back; the new one once it is complete; and in between there is none
(`save_safe`).
-/
import Blockvisor.Bv.NodeState

namespace Blockvisor

namespace SavedFile

variable {α : Type}

/-- `NodeState::load`, and `State::load`. -/
def load : Doc α → Except String α
  | .whole content => .ok content
  | .torn => .error "failed to parse"
  | .missing => .error "failed to read"

/-- `NodesManager::load` begins anew where there is no state. -/
def loadOr (fresh : α) : Doc α → Except String α
  | .missing => .ok fresh
  | file => load file

/-- **A save can be cut anywhere**: what is loaded then is the old content or the new one, and the old one
if the save returns with an error. -/
def CrashSafe (load : Doc α → Except String α) (old content : α) (backup : Doc α) (writable : Bool) (env : SaveEnv) : Prop :=
  let saved := carefulSave ⟨.whole old, backup⟩ content writable env
  (load saved.1.file = .ok old ∨ load saved.1.file = .ok content) ∧ ∀ err, saved.2 = .error (.error err) → load saved.1.file = .ok old

/-! ## When a save is safe -/

/-- The save ends with the file at its place. -/
def NotMoved (backup : Doc α) (env : SaveEnv) : Prop :=
  (isMissing backup = false ∧ env.removeBackup ≠ .none) ∨ (atomic env.moveAway).1 = false

/-- The write of the new content is not cut. -/
def Completes (writable : Bool) (env : SaveEnv) : Prop := writable = true ∧ (env.write = .none ∨ env.write = .killed .all)

/-- The write fails, and the backup is put back. -/
def RollsBack (writable : Bool) (env : SaveEnv) : Prop :=
  (writable = false ∨ ∃ cut, env.write = .error cut) ∧
    (writable = true → env.write ≠ .error .nothing → ∀ cut, env.removeFile ≠ .killed cut) ∧ (atomic env.restore).1 = true

def Safe (backup : Doc α) (writable : Bool) (env : SaveEnv) : Prop :=
  NotMoved backup env ∨ (env.moveAway = .none ∧ (Completes writable env ∨ RollsBack writable env))

variable {old content : α} {backup : Doc α} {writable : Bool} {env : SaveEnv}

/-- A save leaves the old content or, where it does not return an error, the new one. -/
def Left (old content : α) (saved : SavedFile α × Except (Exit String) Unit) : Prop :=
  saved.1.file = .whole old ∨ (saved.1.file = .whole content ∧ ∀ err, saved.2 ≠ .error (.error err))

/-- A save leaves no content. -/
def Lost (saved : SavedFile α × Except (Exit String) Unit) : Prop := saved.1.file = .missing ∨ saved.1.file = .torn

variable (old) in
/-- A backup of an earlier save is removed first; where that fails nothing is moved. -/
theorem moveAway_stuck (h : isMissing backup = false ∧ env.removeBackup ≠ .none) :
    (moveAway ⟨.whole old, backup⟩ env).1.file = .whole old ∧ (moveAway ⟨.whole old, backup⟩ env).2 ≠ .ok () := by
  obtain ⟨hbackup, hremove⟩ := h
  unfold moveAway
  simp only [hbackup]
  cases hfault : env.removeBackup with
  | none => exact absurd hfault hremove
  | error cut => exact ⟨rfl, nofun⟩
  | killed cut => exact ⟨by by_cases hcut : cut = .all <;> simp [atomic, isMissing, hcut], nofun⟩

variable (old) in
theorem moveAway_free (h : ¬ (isMissing backup = false ∧ env.removeBackup ≠ .none)) :
    ∃ backup', moveAway ⟨.whole old, backup⟩ env =
      (if (atomic env.moveAway).1 then ⟨.missing, .whole old⟩ else ⟨.whole old, backup'⟩, (atomic env.moveAway).2) := by
  unfold moveAway
  cases hbackup : isMissing backup with
  | true => exact ⟨backup, by simp [isMissing]⟩
  | false =>
    have hremove : env.removeBackup = .none := Decidable.not_not.mp fun hremove => h ⟨hbackup, hremove⟩
    rw [hremove]
    exact ⟨.missing, rfl⟩

/-- After a write that failed the backup is put back, unless the process is gone before. -/
theorem settle_failed (old : α) (env : SaveEnv) {d : Doc α} (hd : d = .missing ∨ d = .torn) (err : String) :
    ((d = .torn → ∀ cut, env.removeFile ≠ .killed cut) ∧ (atomic env.restore).1 = true ∧
        (settle ⟨d, .whole old⟩ env (.error (.error err))).1.file = .whole old) ∨
      (¬ ((d = .torn → ∀ cut, env.removeFile ≠ .killed cut) ∧ (atomic env.restore).1 = true) ∧
        Lost (settle ⟨d, .whole old⟩ env (.error (.error err)))) := by
  have hlost : ∀ cut, env.removeFile = .killed cut → d = .torn → Lost (settle ⟨d, .whole old⟩ env (.error (.error err))) := by
    intro cut hremove hd
    subst hd
    by_cases hcut : cut = .all <;> simp [Lost, settle, isMissing, atomic, hremove, hcut]
  have hback : (d = .torn → ∀ cut, env.removeFile ≠ .killed cut) →
      ∃ d' : Doc α, (d' = .missing ∨ d' = .torn) ∧ (settle ⟨d, .whole old⟩ env (.error (.error err))).1.file =
        if (atomic env.restore).1 then .whole old else d' := by
    intro hremove
    obtain hd | hd := hd
    · subst hd
      refine ⟨.missing, .inl rfl, ?_⟩
      cases hrestore : env.restore <;> simp [settle, isMissing, atomic, hrestore, apply_ite SavedFile.file]
    · subst hd
      cases hfault : env.removeFile with
      | none =>
        refine ⟨.missing, .inl rfl, ?_⟩
        cases hrestore : env.restore <;> simp [settle, isMissing, atomic, hfault, hrestore, apply_ite SavedFile.file]
      | error cut =>
        refine ⟨.torn, .inr rfl, ?_⟩
        cases hrestore : env.restore <;> simp [settle, isMissing, atomic, hfault, hrestore, apply_ite SavedFile.file]
      | killed cut => exact absurd hfault (hremove rfl cut)
  by_cases hremove : d = .torn → ∀ cut, env.removeFile ≠ .killed cut
  · obtain ⟨d', hd', hfile⟩ := hback hremove
    cases hrestore : (atomic env.restore).1 with
    | true => exact .inl ⟨hremove, rfl, by rw [hfile, hrestore]; rfl⟩
    | false =>
      refine .inr ⟨fun h => Bool.noConfusion h.2, ?_⟩
      rw [hrestore] at hfile
      unfold Lost
      rw [hfile]
      exact hd'
  · refine .inr ⟨fun h => hremove h.1, ?_⟩
    have htorn : ∃ cut, d = .torn ∧ env.removeFile = .killed cut := by
      cases hfault : env.removeFile with
      | none => exact absurd (fun _ cut h => by rw [hfault] at h; cases h) hremove
      | error cut => exact absurd (fun _ cut h => by rw [hfault] at h; cases h) hremove
      | killed cut =>
        refine ⟨cut, ?_, rfl⟩
        obtain hd | hd := hd
        · exact absurd (fun htorn => by rw [hd] at htorn; cases htorn) hremove
        · exact hd
    obtain ⟨cut, htorn, hkilled⟩ := htorn
    exact hlost cut hkilled htorn

/-- After a write that went well the file stays. -/
theorem settle_written (content : α) (d : Doc α) :
    (settle ⟨.whole content, d⟩ env (.ok ())).1.file = .whole content ∧
      ∀ err, (settle ⟨.whole content, d⟩ env (.ok ())).2 ≠ .error (.error err) := by
  cases d <;> cases hdrop : env.dropBackup <;> simp [settle, isMissing, atomic, hdrop, apply_ite SavedFile.file]

/-- The write of the new content, when the old one has been moved aside. -/
theorem written_cases (old content : α) (writable : Bool) (env : SaveEnv) :
    let saved :=
      match write ⟨.missing, .whole old⟩ content writable env with
      | (f, .error .killed) => (f, .error .killed)
      | (f, res) => f.settle env res
    (Completes writable env ∨ RollsBack writable env) ∧ Left old content saved ∨
      ¬ (Completes writable env ∨ RollsBack writable env) ∧ Lost saved := by
  cases writable with
  | false =>
    have hfailed := settle_failed old env (.inl rfl) "no such directory"
    cases hfailed with
    | inl h => exact .inl ⟨.inr ⟨.inl rfl, nofun, h.2.1⟩, .inl h.2.2⟩
    | inr h =>
      refine .inr ⟨fun hsafe => ?_, h.2⟩
      cases hsafe with
      | inl hcompletes => cases hcompletes.1
      | inr hback => exact h.1 ⟨nofun, hback.2.2⟩
  | true =>
    cases hwrite : env.write with
    | none =>
      have hwritten : write ⟨.missing, .whole old⟩ content true env = (⟨.whole content, .whole old⟩, .ok ()) := by
        simp [write, hwrite]
      rw [hwritten]
      exact .inl ⟨.inl ⟨rfl, .inl hwrite⟩, .inr (settle_written content (.whole old))⟩
    | error cut =>
      have hwritten : write ⟨.missing, .whole old⟩ content true env =
          (⟨if cut = .nothing then .missing else .torn, .whole old⟩, .error (.error "failed to write file")) := by
        simp [write, hwrite]
      rw [hwritten]
      have hnot : ¬ Completes true env := fun h => by
        rw [Completes, hwrite] at h
        cases h.2 with
        | inl h => cases h
        | inr h => cases h
      have hd : (if cut = .nothing then (.missing : Doc α) else .torn) = .missing ∨ (if cut = .nothing then (.missing : Doc α) else .torn) = .torn := by
        by_cases hcut : cut = .nothing
        · exact .inl (if_pos hcut)
        · exact .inr (if_neg hcut)
      have htorn : (if cut = .nothing then (.missing : Doc α) else .torn) = .torn ↔ env.write ≠ .error .nothing := by
        rw [hwrite]
        by_cases hcut : cut = .nothing <;> simp [hcut]
      cases settle_failed old env hd "failed to write file" with
      | inl h => exact .inl ⟨.inr ⟨.inr ⟨cut, hwrite⟩, fun _ hsome => h.1 (htorn.mpr hsome), h.2.1⟩, .inl h.2.2⟩
      | inr h =>
        refine .inr ⟨fun hsafe => ?_, h.2⟩
        cases hsafe with
        | inl hcompletes => exact hnot hcompletes
        | inr hback => exact h.1 ⟨fun hsome => hback.2.1 rfl (htorn.mp hsome), hback.2.2⟩
    | killed cut =>
      have hwritten : write ⟨.missing, .whole old⟩ content true env = (⟨written .missing content cut, .whole old⟩, .error .killed) := by
        simp [write, hwrite]
      rw [hwritten]
      have hnot : ¬ RollsBack true env := fun h => by
        rw [RollsBack, hwrite] at h
        cases h.1 with
        | inl h => cases h
        | inr h =>
          obtain ⟨_, h⟩ := h
          cases h
      by_cases hcut : cut = .all
      · subst hcut
        exact .inl ⟨.inl ⟨rfl, .inr hwrite⟩, .inr ⟨rfl, nofun⟩⟩
      · refine .inr ⟨fun hsafe => ?_, ?_⟩
        · cases hsafe with
          | inl hcompletes =>
            rw [Completes, hwrite] at hcompletes
            cases hcompletes.2 with
            | inl h => cases h
            | inr h =>
              cases h
              exact hcut rfl
          | inr hback => exact hnot hback
        · cases cut with
          | nothing => exact .inl rfl
          | part bits => exact .inr rfl
          | all => exact absurd rfl hcut

/-- What a save leaves. -/
theorem carefulSave_cases (old content : α) (backup : Doc α) (writable : Bool) (env : SaveEnv) :
    Safe backup writable env ∧ Left old content (carefulSave ⟨.whole old, backup⟩ content writable env) ∨
      ¬ Safe backup writable env ∧ Lost (carefulSave ⟨.whole old, backup⟩ content writable env) := by
  unfold carefulSave
  by_cases hstuck : isMissing backup = false ∧ env.removeBackup ≠ .none
  · obtain ⟨hfile, herror⟩ := moveAway_stuck old hstuck
    refine .inl ⟨.inl (.inl hstuck), ?_⟩
    cases hmoved : moveAway ⟨.whole old, backup⟩ env with
    | mk f res =>
      rw [hmoved] at hfile herror
      cases res with
      | error e => exact .inl hfile
      | ok u => exact absurd rfl herror
  · obtain ⟨backup', hmoved⟩ := moveAway_free old hstuck
    rw [hmoved]
    cases hmove : env.moveAway with
    | none =>
      have hnotMoved : ¬ NotMoved backup env := fun h => by
        cases h with
        | inl h => exact hstuck h
        | inr h =>
          rw [hmove] at h
          cases h
      have hsafe : Safe backup writable env ↔ Completes writable env ∨ RollsBack writable env :=
        ⟨fun h => h.elim (fun h => absurd h hnotMoved) (·.2), fun h => .inr ⟨hmove, h⟩⟩
      rw [hsafe]
      exact written_cases old content writable env
    | error cut =>
      refine .inl ⟨.inl (.inr (by rw [hmove]; rfl)), .inl rfl⟩
    | killed cut =>
      by_cases hcut : cut = .all
      · subst hcut
        refine .inr ⟨fun hsafe => ?_, .inl rfl⟩
        cases hsafe with
        | inl h =>
          cases h with
          | inl h => exact hstuck h
          | inr h =>
            rw [hmove] at h
            cases h
        | inr h =>
          have hnone := h.1
          rw [hmove] at hnone
          cases hnone
      · have hnot : (atomic (.killed cut)).1 = false := decide_eq_false hcut
        refine .inl ⟨.inl (.inr (by rw [hmove]; exact hnot)), .inl ?_⟩
        have hkept : (if (atomic (.killed cut)).1 = true then (⟨.missing, .whole old⟩ : SavedFile α) else ⟨.whole old, backup'⟩) =
            ⟨.whole old, backup'⟩ := by
          rw [hnot]
          rfl
        rw [hkept]
        rfl

/-- For a load that finds nothing where the file is missing. -/
theorem crashSafe_iff {load' : Doc α → Except String α} (hwhole : ∀ content, load' (.whole content) = .ok content)
    (htorn : ∀ content, load' .torn ≠ .ok content) (hmissing : load' .missing ≠ .ok old ∧ load' .missing ≠ .ok content) :
    CrashSafe load' old content backup writable env ↔ Safe backup writable env := by
  have hlost : ∀ {saved : SavedFile α × Except (Exit String) Unit}, Lost saved →
      load' saved.1.file ≠ .ok old ∧ load' saved.1.file ≠ .ok content := by
    intro saved h
    cases h with
    | inl h => rw [h]; exact hmissing
    | inr h => rw [h]; exact ⟨htorn old, htorn content⟩
  cases carefulSave_cases old content backup writable env with
  | inl h =>
    refine ⟨fun _ => h.1, fun _ => ?_⟩
    cases h.2 with
    | inl hold =>
      have hload := hwhole old
      rw [← hold] at hload
      exact ⟨.inl hload, fun _ _ => hload⟩
    | inr hnew =>
      have hload := hwhole content
      rw [← hnew.1] at hload
      exact ⟨.inr hload, fun err herr => absurd herr (hnew.2 err)⟩
  | inr h =>
    refine ⟨fun hsafe => ?_, fun hsafe => absurd hsafe h.1⟩
    obtain ⟨hold, hnew⟩ := hlost h.2
    exact hsafe.1.elim (absurd · hold) (absurd · hnew)

/-- **A save is safe under a crash** exactly if it does not end between the move of the file and the end of the
write, or that of the roll-back; for the states of nodes and of their manager. -/
theorem save_safe (old content : α) (backup : Doc α) (writable : Bool) (env : SaveEnv) :
    (CrashSafe load old content backup writable env ↔ Safe backup writable env) ∧
      ∀ fresh, fresh ≠ old → fresh ≠ content → (CrashSafe (loadOr fresh) old content backup writable env ↔ Safe backup writable env) := by
  constructor
  · exact crashSafe_iff (fun _ => rfl) (fun _ => nofun) ⟨nofun, nofun⟩
  · intro fresh hold hnew
    refine crashSafe_iff (fun _ => rfl) (fun _ => nofun) ⟨fun h => ?_, fun h => ?_⟩
    · exact hold (Except.ok.inj h)
    · exact hnew (Except.ok.inj h)

/-- The process is gone after the file was moved aside: there is nothing to load, and the manager begins anew. -/
theorem save_lost :
    ¬ CrashSafe load 1 2 .missing true ⟨.none, .killed .all, .none, .none, .none, .none⟩ ∧
      ¬ CrashSafe (loadOr 0) 1 2 .missing true ⟨.none, .killed .all, .none, .none, .none, .none⟩ := by
  constructor
  · intro h
    cases h.1 with
    | inl h => cases h
    | inr h => cases h
  · intro h
    cases h.1 with
    | inl h => cases h
    | inr h => cases h

end SavedFile

end Blockvisor
