/-
The installer and its blacklist (`installer.rs`). A version whose installation
fails is appended to a file, one to a line. The installer does not install a
version that is on the list, and takes a running one that is for a rollback.
Whether a version is on the list is asked of the text of the whole file.

What the installer does on the host is left to `InstallEnv`; versions are what
the `semver` crate makes of them, of which `Semver` says what is relied on.
-/
import Mathlib.Data.Prod.Lex
import Blockvisor.Lib.Text

namespace Blockvisor

open Text

/-- Versions as the `semver` crate has them: in a total order, with a text that parses back. -/
structure Semver (V : Type) where
  major : V → Nat
  toString : V → String
  parse : String → Except String V
  parse_toString : ∀ v, parse (toString v) = .ok v
  oneLine : ∀ v, '\n' ∉ (toString v).toList
  nonempty : ∀ v, toString v ≠ ""

/-- The blacklist file, if there is one. -/
abbrev Blacklist := Option String

def Blacklist.isBlacklisted (file : Blacklist) (version : String) : Bool :=
  match file with
  | none => false
  | some text => hasText text version

def Blacklist.append (file : Blacklist) (version : String) : Blacklist := some (file.getD "" ++ (version ++ "\n"))

namespace Installer

inductive BackupStatus where
  | done (version : String)
  | nothingToBackup
  | thisIsRollback
  deriving DecidableEq

/-- What becomes of the parts of an installation that are about the host: errors, but for the version
that runs. -/
structure InstallEnv where
  read : Except String Unit
  requirements : Except String Unit
  moveBundle : Except String Unit
  running : Except String (Option String)
  readAgain : Except String Unit
  backup : Except String Unit
  install : Except String Unit
  blacklist : Except String Unit
  rollback : Except String Unit

inductive Ended where
  /-- "on a blacklist - can't install" -/
  | refused
  | installed
  | rolledBack (err : String)
  /-- "rollback failed - host needs manual fix" -/
  | rollbackFailed (err : String)
  | failed (err : String)
  deriving DecidableEq

/-- What to go back to if the installation fails. -/
def backupRunningVersion (file : Blacklist) (env : InstallEnv) : Except String BackupStatus := do
  match ← env.running with
  | some runningVersion =>
    env.readAgain
    if file.isBlacklisted runningVersion then pure .thisIsRollback
    else
      env.backup
      pure (.done runningVersion)
  | none => pure .nothingToBackup

/-- The file changes only where this version is put on it. -/
def handleBrokenInstallation (thisVersion : String) (file : Blacklist) (status : BackupStatus) (env : InstallEnv) (err : String) :
    Ended × Blacklist :=
  match env.blacklist with
  | .error err' => (.failed err', file)
  | .ok _ =>
    let file := file.append thisVersion
    match status with
    | .done _ =>
      match env.rollback with
      | .ok _ => (.rolledBack err, file)
      | .error err' => (.failed err', file)
    | .thisIsRollback => (.rollbackFailed err, file)
    | .nothingToBackup => (.failed err, file)

def preinstall (file : Blacklist) (env : InstallEnv) : Except String BackupStatus := do
  env.moveBundle
  backupRunningVersion file env

def run (thisVersion : String) (file : Blacklist) (env : InstallEnv) : Ended × Blacklist :=
  match env.read with
  | .error err => (.failed err, file)
  | .ok _ =>
    if file.isBlacklisted thisVersion then (.refused, file)
    else
      match env.requirements, preinstall file env with
      | .error err, _ => (.failed err, file)
      | .ok _, .error err => (.failed err, file)
      | .ok _, .ok status =>
        match env.install with
        | .error err => handleBrokenInstallation thisVersion file status env err
        | .ok _ => (.installed, file)

variable {thisVersion runningVersion : String} {file : Blacklist} {env : InstallEnv}

theorem run_refused (hread : env.read = .ok ()) :
    (run thisVersion file env).1 = .refused ↔ file.isBlacklisted thisVersion = true := by
  unfold run handleBrokenInstallation
  rw [hread]
  dsimp only
  by_cases h : file.isBlacklisted thisVersion = true
  · simp [h]
  · rw [if_neg h]
    repeat (first | split | simp_all)

theorem backup_rollback (hrunning : env.running = .ok (some runningVersion)) (hread : env.readAgain = .ok ())
    (hbackup : env.backup = .ok ()) :
    backupRunningVersion file env = .ok .thisIsRollback ↔ file.isBlacklisted runningVersion = true := by
  have hstep : backupRunningVersion file env =
      if file.isBlacklisted runningVersion then .ok .thisIsRollback else .ok (.done runningVersion) := by
    unfold backupRunningVersion
    rw [hrunning, hread, hbackup]
    rfl
  rw [hstep]
  by_cases h : file.isBlacklisted runningVersion = true
  · simp [h]
  · simp [h]

end Installer

section

variable {V : Type} (semver : Semver V)

/-- The file after these versions were appended, when there was none. -/
def Semver.blacklist (versions : List V) : Blacklist := versions.foldl (fun file v => file.append (semver.toString v)) none

theorem blacklist_text (versions : List V) :
    (semver.blacklist versions).getD "" = unlines (versions.map semver.toString) ∧
      (semver.blacklist versions = none → versions = []) := by
  induction versions using List.reverseRecOn with
  | nil => simp [Semver.blacklist, unlines]
  | append_singleton versions v ih =>
    have happend : semver.blacklist (versions ++ [v]) = (semver.blacklist versions).append (semver.toString v) := by
      simp [Semver.blacklist]
    rw [happend]
    refine ⟨?_, fun h => by cases h⟩
    show (semver.blacklist versions).getD "" ++ _ = _
    rw [ih.1]
    simp [unlines]

/-- **A version is found on the blacklist** if its text is in that of one that was appended. -/
theorem isBlacklisted_iff (versions : List V) (v : V) :
    (semver.blacklist versions).isBlacklisted (semver.toString v) = true ↔
      ∃ w ∈ versions, hasText (semver.toString w) (semver.toString v) = true := by
  obtain ⟨htext, hnone⟩ := blacklist_text semver versions
  cases hfile : semver.blacklist versions with
  | none => simp [Blacklist.isBlacklisted, hnone hfile]
  | some text =>
    rw [hfile, Option.getD_some] at htext
    show hasText text (semver.toString v) = true ↔ _
    rw [htext, hasText_unlines (semver.oneLine v) (semver.nonempty v)]
    simp

/-- What is on the list is found there. -/
theorem isBlacklisted_mem {versions : List V} {v : V} (h : v ∈ versions) :
    (semver.blacklist versions).isBlacklisted (semver.toString v) = true :=
  (isBlacklisted_iff semver versions v).mpr ⟨v, h, decide_eq_true List.infix_rfl⟩

theorem Semver.mapM_parse (versions : List V) : (versions.map semver.toString).mapM semver.parse = .ok versions := by
  induction versions with
  | nil => rfl
  | cons v versions ih =>
    rw [List.map_cons, List.mapM_cons, semver.parse_toString, ih]
    rfl

end

/-! ## Versions of three numbers -/

/-- A version without a pre-release or build tag. -/
abbrev Release := ℕ ×ₗ ℕ ×ₗ ℕ

namespace Release

def of (major minor patch : Nat) : Release := toLex (major, toLex (minor, patch))

def parts (v : Release) : List Nat := [(ofLex v).1, (ofLex (ofLex v).2).1, (ofLex (ofLex v).2).2]

def text (v : Release) : List Char := ['.'].intercalate (v.parts.map fun n => (toString n).toList)

def parse (text : String) : Except String Release :=
  match (text.toList.splitOn '.').map (Nat.ofDigitChars 10 · 0) with
  | [major, minor, patch] => .ok (of major minor patch)
  | _ => .error "unexpected end of input"

theorem text_not_mem {v : Release} {c : Char} (hdigit : c.isDigit = false) (hdot : c ≠ '.') : c ∉ v.text := by
  have hpart : ∀ n : Nat, c ∉ (toString n).toList := by
    intro n hmem
    rw [isDigit_toString c hmem] at hdigit
    cases hdigit
  have htext : v.text = (toString (ofLex v).1).toList ++
      ('.' :: ((toString (ofLex (ofLex v).2).1).toList ++ ('.' :: (toString (ofLex (ofLex v).2).2).toList))) := by
    simp [text, parts, List.intercalate]
  rw [htext]
  simp only [List.mem_append, List.mem_cons, hpart, hdot, or_self, not_false_eq_true]

theorem parse_text (v : Release) : parse (String.ofList v.text) = .ok v := by
  have hsplit : v.text.splitOn '.' = v.parts.map fun n => (toString n).toList := by
    refine List.splitOn_intercalate '.' (fun digits hdigits => ?_) (by simp [parts])
    obtain ⟨n, _, hn⟩ := List.mem_map.mp hdigits
    intro hmem
    rw [← hn] at hmem
    exact absurd (isDigit_toString '.' hmem) (by decide)
  have hvalue : ∀ n : Nat, Nat.ofDigitChars 10 (toString n).toList 0 = n := by
    intro n
    show Nat.ofDigitChars 10 n.repr.toList 0 = n
    rw [Nat.toList_repr, Nat.ofDigitChars_ten_toDigits]
  unfold parse
  rw [String.toList_ofList, hsplit]
  simp only [parts, List.map_cons, List.map_nil, hvalue]
  rfl

def semver : Semver Release where
  major v := (ofLex v).1
  toString v := String.ofList v.text
  parse := parse
  parse_toString := parse_text
  oneLine v := by
    rw [String.toList_ofList]
    exact text_not_mem (by decide) (by decide)
  nonempty v := by
    intro h
    have hnil : v.text = [] := by rw [← String.toList_ofList (l := v.text), h]; rfl
    simp [text, parts, List.intercalate] at hnil

end Release

end Blockvisor
