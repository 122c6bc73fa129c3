/-
The self-updater (`self_updater.rs`). A check asks for the bundle versions
there are, and goes through them from the greatest to the least: each that is
newer than the version installed when the check began, has its major number and
is not on the blacklist is downloaded and its installer launched. The version
launched last is remembered as the one installed.

So a check launches an installer for every such version, and remembers the
least (`update_best`); and a version is on the blacklist also if its text is
part of that of another one there (`blacklist_exact`).
-/
import Blockvisor.Bv.Installer
import Blockvisor.Lib.Script

namespace Blockvisor

open Script

inductive UpdateCall where
  | listVersions
  | readBlacklist
  | downloadAndInstall (version : String)
  deriving DecidableEq

def UpdateCall.Answer : UpdateCall → Type
  | .listVersions => List String
  | .readBlacklist => Blacklist
  | .downloadAndInstall _ => Unit

abbrev UpdateCall.Reply (c : UpdateCall) : Type := Except String c.Answer

/-- How a check ends, and the version that is remembered then. -/
abbrev Checked := Except String Unit × String

abbrev UpdateM := Script UpdateCall.Reply String Checked

namespace SelfUpdater

variable {V : Type} [LinearOrder V] (semver : Semver V)

/-- The loop over the versions, the greatest first; `installed` is not the version that is remembered
in the loop. -/
def installAll (installed : V) : List V → String → UpdateM
  | [], latest => .done (.ok (.ok (), latest))
  | version :: versions, latest =>
    let vStr := semver.toString version
    if semver.major version = semver.major installed ∧ installed < version then
      .call .readBlacklist fun
        | .error err => .done (.ok (.error err, latest))
        | .ok file =>
          if Blacklist.isBlacklisted file vStr then installAll installed versions latest
          else
            .call (.downloadAndInstall vStr) fun
              | .error err => .done (.ok (.error err, latest))
              | .ok _ => installAll installed versions vStr
    else installAll installed versions latest

def getVersions (texts : List String) : Except String (List V) := do
  let versions ← texts.mapM semver.parse
  pure (versions.mergeSort)

def checkForUpdate (latest : String) : UpdateM :=
  .call .listVersions fun
    | .error err => .done (.ok (.error err, latest))
    | .ok texts =>
      match getVersions semver texts, semver.parse latest with
      | .error err, _ => .done (.ok (.error err, latest))
      | .ok _, .error err => .done (.ok (.error err, latest))
      | .ok versions, .ok installed => installAll semver installed versions.reverse latest

/-! ## What a check launches -/

/-- The version is newer, compatible and not on the blacklist. -/
def takes (installed : V) (file : Blacklist) (version : V) : Bool :=
  decide (semver.major version = semver.major installed ∧ installed < version) && !file.isBlacklisted (semver.toString version)

def eligible (installed : V) (file : Blacklist) (versions : List V) : List V :=
  (versions.mergeSort).reverse.filter (takes semver installed file)

/-- The installers that were launched. -/
def launched (log : Log UpdateCall.Reply) : List String :=
  log.filterMap fun
    | ⟨.downloadAndInstall version, .ok _⟩ => some version
    | _ => none

/-- The replies are about these versions, and this blacklist. -/
def Answered (file : Blacklist) (versions : List V) (log : Log UpdateCall.Reply) : Prop :=
  (∀ texts : List String, ⟨.listVersions, .ok texts⟩ ∈ log → texts.mapM semver.parse = .ok versions) ∧
    ∀ file' : Blacklist, ⟨.readBlacklist, .ok file'⟩ ∈ log → file' = file

structure Best (installed : V) (file : Blacklist) (versions : List V) (best : V) : Prop where
  mem : best ∈ versions
  takes : takes semver installed file best = true
  greatest : ∀ version ∈ versions, SelfUpdater.takes semver installed file version = true → version ≤ best

/-- Every check with these versions and this blacklist launches one installer at most, of the best version,
and remembers it; if it goes well without one there is no such version. -/
def OneBest (installed : V) (file : Blacklist) (versions : List V) : Prop :=
  ∀ log r, Runs (checkForUpdate semver (semver.toString installed)) log r → Answered semver file versions log →
    ∃ ended latest, r = .ok (ended, latest) ∧
      ((launched log = [] ∧ latest = semver.toString installed ∧ (ended = .ok () → ∀ version ∈ versions, takes semver installed file version = false)) ∨
        ∃ best, Best semver installed file versions best ∧ launched log = [semver.toString best] ∧ latest = semver.toString best)

variable {semver} {installed : V} {file : Blacklist} {versions : List V}

theorem launched_append (log log' : Log UpdateCall.Reply) : launched (log ++ log') = launched log ++ launched log' :=
  List.filterMap_append

/-- **What the loop launches**: the first of the versions that are to be taken, and all if it goes well. -/
theorem installAll_runs {vs : List V} : ∀ {latest : String} {log : Log UpdateCall.Reply} {r : Except String Checked},
    Runs (installAll semver installed vs latest) log r → (∀ file' : Blacklist, ⟨.readBlacklist, .ok file'⟩ ∈ log → file' = file) →
    ∃ first rest ended, vs.filter (takes semver installed file) = first ++ rest ∧ launched log = first.map semver.toString ∧
      r = .ok (ended, (first.map semver.toString).getLastD latest) ∧ (ended = .ok () → rest = []) := by
  induction vs with
  | nil =>
    intro latest log r hrun _
    cases hrun
    exact ⟨[], [], .ok (), rfl, rfl, rfl, fun _ => rfl⟩
  | cons v vs ih =>
    intro latest log r hrun hread
    unfold installAll at hrun
    by_cases hnew : semver.major v = semver.major installed ∧ installed < v
    · rw [if_pos hnew] at hrun
      cases hrun with
      | call reply hrest =>
        cases reply with
        | error err =>
          cases hrest
          exact ⟨[], _, .error err, rfl, rfl, rfl, fun hok => by cases hok⟩
        | ok file' =>
          have hfile : file' = file := hread file' List.mem_cons_self
          subst hfile
          dsimp only at hrest
          by_cases hlisted : Blacklist.isBlacklisted file' (semver.toString v) = true
          · rw [if_pos hlisted] at hrest
            obtain ⟨first, rest, ended, hsplit, hlaunched, hr, hok⟩ := ih hrest fun f hf => hread f (List.mem_cons_of_mem _ hf)
            have hskip : takes semver installed file' v = false := by simp [takes, hlisted]
            exact ⟨first, rest, ended, by simp [hskip, hsplit], hlaunched, hr, hok⟩
          · rw [if_neg hlisted] at hrest
            have htake : takes semver installed file' v = true := by
              simp only [Bool.not_eq_true] at hlisted
              simp [takes, hnew, hlisted]
            cases hrest with
            | call reply hrest =>
              cases reply with
              | error err =>
                cases hrest
                exact ⟨[], _, .error err, rfl, rfl, rfl, fun hok => by cases hok⟩
              | ok u =>
                obtain ⟨first, rest, ended, hsplit, hlaunched, hr, hok⟩ :=
                  ih hrest fun f hf => hread f (List.mem_cons_of_mem _ (List.mem_cons_of_mem _ hf))
                refine ⟨v :: first, rest, ended, by simp [htake, hsplit], ?_, ?_, hok⟩
                · show semver.toString v :: launched _ = _
                  rw [hlaunched]
                  rfl
                · rw [hr]
                  simp only [List.map_cons, List.getLastD_cons]
    · rw [if_neg hnew] at hrun
      obtain ⟨first, rest, ended, hsplit, hlaunched, hr, hok⟩ := ih hrun hread
      have hskip : takes semver installed file v = false := by simp [takes, hnew]
      exact ⟨first, rest, ended, by simp [hskip, hsplit], hlaunched, hr, hok⟩

/-- The replies of a server and a file system without faults. -/
def flawless (semver : Semver V) (file : Blacklist) (versions : List V) : (c : UpdateCall) → c.Reply
  | .listVersions => .ok (versions.map semver.toString)
  | .readBlacklist => .ok file
  | .downloadAndInstall _ => .ok ()

omit [LinearOrder V] in
theorem flawless_answered (p : UpdateM) : Answered semver file versions (replay (flawless semver file versions) p).1 := by
  constructor
  · intro texts hmem
    cases mem_replay hmem
    exact semver.mapM_parse versions
  · intro file' hmem
    cases mem_replay hmem
    rfl

/-- Without faults the loop gets to its end. -/
theorem flawless_ends (vs : List V) (latest : String) :
    ∃ latest', (replay (flawless semver file versions) (installAll semver installed vs latest)).2 = .ok (.ok (), latest') := by
  induction vs generalizing latest with
  | nil => exact ⟨latest, rfl⟩
  | cons v vs ih =>
    unfold installAll
    by_cases hnew : semver.major v = semver.major installed ∧ installed < v
    · rw [if_pos hnew]
      simp only [replay, flawless]
      by_cases hlisted : Blacklist.isBlacklisted file (semver.toString v) = true
      · rw [if_pos hlisted]
        exact ih latest
      · rw [if_neg hlisted]
        exact ih (semver.toString v)
    · rw [if_neg hnew]
      exact ih latest

theorem mem_eligible {v : V} :
    v ∈ eligible semver installed file versions ↔ v ∈ versions ∧ takes semver installed file v = true := by
  simp [eligible]

/-- If there is one version to take at most, a check does what it is for. -/
theorem oneBest_of_eligible (h : (eligible semver installed file versions).length ≤ 1) : OneBest semver installed file versions := by
  intro log r hrun hanswered
  cases hrun with
  | call reply hrest =>
    cases reply with
    | error err =>
      cases hrest
      exact ⟨.error err, _, rfl, .inl ⟨rfl, rfl, fun hok => by cases hok⟩⟩
    | ok texts =>
      have hparse : texts.mapM semver.parse = .ok versions := hanswered.1 texts List.mem_cons_self
      have hversions : getVersions semver texts = .ok versions.mergeSort := by
        unfold getVersions
        rw [hparse]
        rfl
      simp only [hversions, semver.parse_toString] at hrest
      obtain ⟨first, rest, ended, hsplit, hlaunched, hr, hall⟩ :=
        installAll_runs hrest fun file' hmem => hanswered.2 file' (List.mem_cons_of_mem _ hmem)
      have hsplit : eligible semver installed file versions = first ++ rest := hsplit
      refine ⟨ended, _, hr, ?_⟩
      cases first with
      | nil =>
        refine .inl ⟨hlaunched, rfl, fun hok v hv => ?_⟩
        rw [hall hok] at hsplit
        by_contra htakes
        have hmem := mem_eligible.mpr ⟨hv, Bool.not_eq_false _ |>.mp htakes⟩
        rw [hsplit] at hmem
        cases hmem
      | cons best first =>
        have hsole : first = [] ∧ rest = [] := by
          rw [hsplit, List.cons_append, List.length_cons, List.length_append] at h
          exact ⟨List.eq_nil_of_length_eq_zero (by omega), List.eq_nil_of_length_eq_zero (by omega)⟩
        obtain ⟨hfirst, hrest⟩ := hsole
        subst hfirst hrest
        have hbest := mem_eligible.mp (show best ∈ eligible semver installed file versions by rw [hsplit]; simp)
        refine .inr ⟨best, ⟨hbest.1, hbest.2, fun v hv htakes => ?_⟩, hlaunched, rfl⟩
        have hmem := mem_eligible.mpr ⟨hv, htakes⟩
        rw [hsplit] at hmem
        simp at hmem
        exact le_of_eq hmem

/-- A check without faults launches an installer for each version that is to be taken. -/
theorem eligible_of_oneBest (h : OneBest semver installed file versions) : (eligible semver installed file versions).length ≤ 1 := by
  have hrun := runs_replay (flawless semver file versions) (checkForUpdate semver (semver.toString installed))
  obtain ⟨ended, latest, hr, hone⟩ := h _ _ hrun (flawless_answered _)
  have hversions : getVersions semver (versions.map semver.toString) = .ok versions.mergeSort := by
    unfold getVersions
    rw [semver.mapM_parse]
    rfl
  have hreplay : replay (flawless semver file versions) (checkForUpdate semver (semver.toString installed)) =
      (⟨.listVersions, .ok (versions.map semver.toString)⟩ ::
          (replay (flawless semver file versions)
            (installAll semver installed versions.mergeSort.reverse (semver.toString installed))).1,
        (replay (flawless semver file versions)
          (installAll semver installed versions.mergeSort.reverse (semver.toString installed))).2) := by
    simp [checkForUpdate, replay, flawless, hversions, semver.parse_toString]
  have hloop := runs_replay (flawless semver file versions)
    (installAll semver installed versions.mergeSort.reverse (semver.toString installed))
  obtain ⟨first, rest, _, hsplit, hlaunched, hr', hall⟩ := installAll_runs hloop (flawless_answered _).2
  have hends : ∃ latest', (replay (flawless semver file versions)
      (installAll semver installed versions.mergeSort.reverse (semver.toString installed))).2 = .ok (.ok (), latest') :=
    flawless_ends _ _
  obtain ⟨_, hends⟩ := hends
  rw [hends] at hr'
  cases hr'
  have hlength : (launched (replay (flawless semver file versions) (checkForUpdate semver (semver.toString installed))).1).length =
      (eligible semver installed file versions).length := by
    rw [hreplay]
    show (launched (replay _ _).1).length = (List.filter _ _).length
    rw [hlaunched, hsplit, hall rfl]
    simp
  rw [← hlength]
  cases hone with
  | inl hnone => simp [hnone.1]
  | inr hbest =>
    obtain ⟨best, _, hlaunched, _⟩ := hbest
    simp [hlaunched]

theorem eligible_length :
    (eligible semver installed file versions).length = (versions.filter (takes semver installed file)).length := by
  have hperm : versions.mergeSort.reverse.Perm versions := (List.reverse_perm _).trans (List.mergeSort_perm _ _)
  exact (hperm.filter _).length_eq

/-! ## From check to check -/

/-- What is remembered after each of some checks, one after the other. -/
inductive Checks (semver : Semver V) : String → List String → Prop
  | nil (latest : String) : Checks semver latest []
  | cons {latest latest' : String} {rest : List String} {log : Log UpdateCall.Reply} {ended : Except String Unit}
      (h : Runs (checkForUpdate semver latest) log (.ok (ended, latest'))) (hrest : Checks semver latest' rest) :
    Checks semver latest (latest' :: rest)

theorem installAll_latest {v : V} (vs : List V) (hv : installed ≤ v) :
    Always (fun _ => True) (fun checked : Checked => ∃ v, installed ≤ v ∧ checked.2 = semver.toString v)
      (installAll semver installed vs (semver.toString v)) := by
  induction vs generalizing v with
  | nil => exact ⟨v, hv, rfl⟩
  | cons w vs ih =>
    unfold installAll
    split
    · rename_i hnew
      refine ⟨trivial, fun reply => ?_⟩
      cases reply with
      | error err => exact ⟨v, hv, rfl⟩
      | ok file' =>
        dsimp only
        split
        · exact ih hv
        · refine ⟨trivial, fun reply => ?_⟩
          cases reply with
          | error err => exact ⟨v, hv, rfl⟩
          | ok u => exact ih (le_of_lt hnew.2)
    · exact ih hv

theorem checkForUpdate_latest {log : Log UpdateCall.Reply} {ended : Except String Unit} {latest : String}
    (h : Runs (checkForUpdate semver (semver.toString installed)) log (.ok (ended, latest))) :
    ∃ v, installed ≤ v ∧ latest = semver.toString v := by
  have halways : Always (fun _ => True) (fun checked : Checked => ∃ v, installed ≤ v ∧ checked.2 = semver.toString v)
      (checkForUpdate semver (semver.toString installed)) := by
    refine ⟨trivial, fun reply => ?_⟩
    cases reply with
    | error err => exact ⟨installed, le_refl _, rfl⟩
    | ok texts =>
      dsimp only
      rw [semver.parse_toString]
      cases getVersions semver texts with
      | error err => exact ⟨installed, le_refl _, rfl⟩
      | ok versions => exact installAll_latest _ (le_refl _)
  exact halways.value h

/-- What is remembered goes up only. -/
theorem Checks.nondecreasing {latests : List String} (h : Checks semver (semver.toString installed) latests) :
    ∃ vs : List V, latests = vs.map semver.toString ∧ (installed :: vs).Pairwise (· ≤ ·) := by
  generalize hlatest : semver.toString installed = latest at h
  induction h generalizing installed with
  | nil latest => exact ⟨[], rfl, List.pairwise_singleton _ _⟩
  | cons hrun hrest ih =>
    subst hlatest
    obtain ⟨v, hle, hlatest⟩ := checkForUpdate_latest hrun
    obtain ⟨vs, heq, hsorted⟩ := ih hlatest.symm
    refine ⟨v :: vs, by rw [heq, hlatest]; rfl, List.pairwise_cons.mpr ⟨fun w hw => ?_, hsorted⟩⟩
    cases List.mem_cons.mp hw with
    | inl heq => rw [heq]; exact hle
    | inr hmem => exact le_trans hle (List.rel_of_pairwise_cons hsorted hmem)

/-- The updater and the installer take this version for one that failed exactly if it is one of those
that were appended. -/
structure BlacklistExact (semver : Semver V) (failed : List V) (v : V) : Prop where
  listed : (semver.blacklist failed).isBlacklisted (semver.toString v) = true ↔ v ∈ failed
  refused : ∀ env : Installer.InstallEnv, env.read = .ok () →
    ((Installer.run (semver.toString v) (semver.blacklist failed) env).1 = .refused ↔ v ∈ failed)
  rollback : ∀ env : Installer.InstallEnv, env.running = .ok (some (semver.toString v)) → env.readAgain = .ok () → env.backup = .ok () →
    (Installer.backupRunningVersion (semver.blacklist failed) env = .ok .thisIsRollback ↔ v ∈ failed)
  skipped : ∀ installed, semver.major v = semver.major installed → installed < v →
    (takes semver installed (semver.blacklist failed) v = false ↔ v ∈ failed)

theorem BlacklistExact.of_listed {failed : List V} {v : V}
    (h : (semver.blacklist failed).isBlacklisted (semver.toString v) = true ↔ v ∈ failed) : BlacklistExact semver failed v := by
  refine ⟨h, fun env hread => ?_, fun env hrunning hread hbackup => ?_, fun installed hmajor hnew => ?_⟩
  · rw [Installer.run_refused hread]
    exact h
  · rw [Installer.backup_rollback hrunning hread hbackup]
    exact h
  · rw [← h]
    simp [takes, hmajor, hnew]

/-- **The blacklist is exact** for a version exactly if its text is in that of no other one on it, or the
version is there itself. -/
theorem blacklist_exact (semver : Semver V) (failed : List V) (v : V) :
    BlacklistExact semver failed v ↔ ((∃ w ∈ failed, hasText (semver.toString w) (semver.toString v) = true) → v ∈ failed) := by
  constructor
  · intro h hwithin
    exact h.listed.mp ((isBlacklisted_iff semver failed v).mpr hwithin)
  · intro h
    refine .of_listed ⟨fun hlisted => ?_, isBlacklisted_mem semver⟩
    exact h ((isBlacklisted_iff semver failed v).mp hlisted)

/-- After 1.0.10 has failed, 1.0.1 is taken for a failed version too. -/
theorem blacklist_longer : ¬ BlacklistExact Release.semver [.of 1 0 10] (.of 1 0 1) := by
  intro h
  have hlisted := (isBlacklisted_iff Release.semver [.of 1 0 10] (.of 1 0 1)).mpr ⟨_, List.mem_singleton.mpr rfl, by decide⟩
  exact absurd (h.listed.mp hlisted) (by decide)

end SelfUpdater

end Blockvisor
