/-
The tokens of a snapper command (`api_service.rs`). The command reads its
configuration from the file once; each `ApiService` it makes gets a copy, and
refreshes the tokens of its own copy when a call is refused, and in the file. The
calls of a command are made one after another, all through the service made
last.

`Command.step` makes a service or a call through it. `newest`, `calls`, `sent`
and the flags are ghosts: the tokens that the last refresh has got, the tokens of
the calls with the newest ones then, and the refresh tokens that the auth service
was sent.
-/
import Blockvisor.Lib.Machine
import Blockvisor.Lib.Persist
import Mathlib.Data.List.Nodup

namespace Blockvisor

namespace Snapshot

open Machine

structure SnapshotConfig where
  token : String
  refreshToken : String
  apiUrl : String
  deriving DecidableEq

/-- The code with which a call fails. -/
inductive Code where
  | unauthenticated
  | permissionDenied
  | other (code : String)
  deriving DecidableEq, Repr

def isAuthError : Code → Bool
  | .unauthenticated => true
  | .permissionDenied => true
  | .other _ => false

/-- What a call meets: the answers to its two attempts, and in between whether there is a connection for the refresh, what
the auth service answers, and where the file is cut if it cannot be saved. -/
structure CallEnv where
  first : Except Code Unit
  connect : Except String Unit
  refresh : Except String (String × String)
  save : Option DocCut
  second : Except Code Unit

/-- The call is refused, and the refresh token is sent. -/
def CallEnv.refreshes (env : CallEnv) : Bool :=
  (match env.first with
    | .ok () => false
    | .error code => isAuthError code) &&
  match env.connect with
  | .ok () => true
  | .error _ => false

/-- A command: the configuration that it makes services from, that of the service in use, and the file. -/
structure Command where
  config : SnapshotConfig
  service : Option SnapshotConfig
  file : Doc SnapshotConfig
  newest : SnapshotConfig
  /-- The service in use has refreshed the tokens. -/
  refreshed : Bool
  /-- A service before it has. -/
  stale : Bool
  /-- A refresh token was sent in vain. -/
  refused : Bool
  calls : List (String × String)
  sent : List String

namespace Command

/-- `SnapshotClient::new` reads the file. -/
def init (config : SnapshotConfig) : Command := ⟨config, none, .whole config, config, false, false, false, [], []⟩

/-- `ApiService::new`, with a copy of the configuration. -/
def newService (s : Command) : Command :=
  { s with service := some s.config, stale := s.stale || s.refreshed, refreshed := false }

/-- An attempt at a call. -/
def send (s : Command) (token : String) : Command := { s with calls := s.calls ++ [(token, s.newest.token)] }

def refreshToken (s : Command) (config : SnapshotConfig) (env : CallEnv) : Command × Except String Unit :=
  match env.connect with
  | .error err => (s, .error err)
  | .ok () =>
    let s := { s with sent := s.sent ++ [config.refreshToken] }
    match env.refresh with
    | .error err => ({ s with refused := true }, .error err)
    | .ok (token, refresh) =>
      let config := { config with token, refreshToken := refresh }
      let s := { s with service := some config, newest := config, refreshed := true }
      match env.save with
      | some cut => ({ s with file := s.file.write config cut }, .error "failed to save snapshot config")
      | none => ({ s with file := .whole config }, .ok ())

def withTokenRefresh (s : Command) (config : SnapshotConfig) (env : CallEnv) : Command × Except String Unit :=
  let s := s.send config.token
  match env.first with
  | .ok () => (s, .ok ())
  | .error code =>
    if isAuthError code then
      match s.refreshToken config env with
      | (s, .error err) => (s, .error err)
      | (s, .ok ()) =>
        let newToken := (s.service.getD config).token
        (s.send newToken, env.second.mapError fun e => s!"API call failed after token refresh: {repr e}")
    else (s, .error s!"API call failed: {repr code}")

end Command

/-- What a command does: it makes a service, a call, or a call that is not made again (`get_s3_config`). -/
inductive Act where
  | newService
  | call (env : CallEnv)
  | callOnce

namespace Command

def step (s : Command) : Act → Option Command
  | .newService => some s.newService
  | .call env => s.service.map fun config => (s.withTokenRefresh config env).1
  | .callOnce => s.service.map fun config => s.send config.token

/-- The newest token is sent with every call, no refresh token twice, and the file has the newest ones. -/
structure TokensOnce (s : Command) : Prop where
  calls : ∀ c ∈ s.calls, c.1 = c.2
  sent : s.sent.Nodup
  file : s.file = .whole s.newest

/-- Once the auth service has been asked in vain it is not asked again; it answers with a refresh token
that it was not sent; and the file can be saved. -/
def AuthOk (s : Command) (env : CallEnv) : Prop :=
  env.refreshes = true → s.refused = false ∧
    ∀ token refresh, env.refresh = .ok (token, refresh) → refresh ∉ s.sent ∧ refresh ≠ s.newest.refreshToken ∧ env.save = none

/-- No service has refreshed the tokens before the one that is called. -/
def Fresh (s : Command) : Act → Prop
  | .newService => True
  | .call _ => s.stale = false
  | .callOnce => s.stale = false

def StepOk (s : Command) : Act → Prop
  | .call env => Fresh s (.call env) ∧ AuthOk s env
  | a => Fresh s a

/-! ## What the steps keep -/

structure Inv (s : Command) : Prop where
  once : s.TokensOnce
  service : s.stale = false → ∀ config, s.service = some config → config = s.newest
  config : s.stale = false → s.refreshed = false → s.config = s.newest
  unsent : s.refused = false → s.newest.refreshToken ∉ s.sent

theorem inv_init (config : SnapshotConfig) : Inv (init config) where
  once := ⟨by simp [init], by simp [init], rfl⟩
  service := by simp [init]
  config := fun _ _ => rfl
  unsent := by simp [init]

theorem inv_newService {s : Command} (h : Inv s) : Inv s.newService where
  once := ⟨h.once.calls, h.once.sent, h.once.file⟩
  service := by
    intro hstale config hconfig
    have hflags : s.stale = false ∧ s.refreshed = false := Bool.or_eq_false_iff.mp hstale
    cases hconfig
    exact h.config hflags.1 hflags.2
  config := by
    intro hstale _
    have hflags : s.stale = false ∧ s.refreshed = false := Bool.or_eq_false_iff.mp hstale
    exact h.config hflags.1 hflags.2
  unsent := h.unsent

/-- The token of the service in use is the newest one. -/
theorem inv_send {s : Command} (h : Inv s) {token : String} (htoken : token = s.newest.token) : Inv (s.send token) where
  once := by
    refine ⟨fun c hc => ?_, h.once.sent, h.once.file⟩
    cases List.mem_append.mp hc with
    | inl hc => exact h.once.calls c hc
    | inr hc =>
      rw [List.mem_singleton.mp hc]
      exact htoken
  service := h.service
  config := h.config
  unsent := h.unsent

/-- What a refresh says of the command after it. -/
theorem inv_refreshToken {s s' : Command} {env : CallEnv} {r : Except String Unit} (h : Inv s) (hrefused : s.refused = false)
    (hok : ∀ token refresh, env.refresh = .ok (token, refresh) → refresh ∉ s.sent ∧ refresh ≠ s.newest.refreshToken ∧ env.save = none)
    (hrun : s.refreshToken s.newest env = (s', r)) :
    Inv s' ∧ (r = .ok () → s'.service = some s'.newest) := by
  unfold refreshToken at hrun
  cases hconnect : env.connect with
  | error err =>
    rw [hconnect] at hrun
    cases hrun
    exact ⟨h, fun hr => by cases hr⟩
  | ok u =>
    rw [hconnect] at hrun
    have hsent : (s.sent ++ [s.newest.refreshToken]).Nodup := by
      rw [List.nodup_append_comm, List.singleton_append]
      exact List.nodup_cons.mpr ⟨h.unsent hrefused, h.once.sent⟩
    cases hrefresh : env.refresh with
    | error err =>
      simp only [hrefresh] at hrun
      cases hrun
      refine ⟨⟨⟨h.once.calls, hsent, h.once.file⟩, h.service, h.config, fun hr => by cases hr⟩, fun hr => by cases hr⟩
    | ok answer =>
      obtain ⟨token, refresh⟩ := answer
      obtain ⟨hnew, hother, hsave⟩ := hok token refresh hrefresh
      simp only [hrefresh, hsave] at hrun
      cases hrun
      refine ⟨⟨⟨h.once.calls, hsent, rfl⟩, ?_, ?_, ?_⟩, fun _ => rfl⟩
      · intro _ config hconfig
        cases hconfig
        rfl
      · intro _ hrefreshed
        cases hrefreshed
      · intro _ hmem
        cases List.mem_append.mp hmem with
        | inl hmem => exact hnew hmem
        | inr hmem => exact hother (List.mem_singleton.mp hmem)

theorem inv_withTokenRefresh {s : Command} {env : CallEnv} (h : Inv s) (hok : AuthOk s env) :
    Inv (s.withTokenRefresh s.newest env).1 := by
  have hsend : Inv (s.send s.newest.token) := inv_send h rfl
  unfold withTokenRefresh
  cases hfirst : env.first with
  | ok u => exact hsend
  | error code =>
    dsimp only
    split
    · rename_i hauth
      cases hrun : (s.send s.newest.token).refreshToken s.newest env with
      | mk s' r =>
        cases hconnect : env.connect with
        | error err =>
          unfold refreshToken at hrun
          rw [hconnect] at hrun
          cases hrun
          exact hsend
        | ok u =>
          have hrefreshes : env.refreshes = true := by
            unfold CallEnv.refreshes
            rw [hfirst, hconnect]
            simpa using hauth
          obtain ⟨hrefused, hanswer⟩ := hok hrefreshes
          obtain ⟨hinv, hservice⟩ := inv_refreshToken hsend hrefused hanswer hrun
          cases r with
          | error err => exact hinv
          | ok u =>
            dsimp only
            rw [hservice rfl]
            exact inv_send hinv rfl
    · exact hsend

theorem inv_step {s s' : Command} {a : Act} (h : Inv s) (hok : StepOk s a) (hs : s.step a = some s') : Inv s' := by
  cases a with
  | newService =>
    cases hs
    exact inv_newService h
  | call env =>
    obtain ⟨config, hconfig, heq⟩ := Option.map_eq_some_iff.mp hs
    have hnewest := h.service hok.1 config hconfig
    rw [← heq, hnewest]
    exact inv_withTokenRefresh h hok.2
  | callOnce =>
    obtain ⟨config, hconfig, heq⟩ := Option.map_eq_some_iff.mp hs
    rw [← heq, h.service hok config hconfig]
    exact inv_send h rfl

/-- **The tokens of a command are used once**, as long as no service is called after another one has
refreshed them. -/
theorem tokens_once {config : SnapshotConfig} {acts : List Act} {s : Command} (hok : Along step StepOk (init config) acts)
    (hrun : run step (init config) acts = some s) : s.TokensOnce :=
  (run_invariant step (I := Inv) (fun _ _ _ h hok hs => inv_step h hok hs) (inv_init config) hok hrun).once

/-! ## The commands -/

/-- The calls made through one service. -/
def session (calls : List Act) : List Act := .newService :: calls

/-- `snapper resume`: one service asks for the snapshots there are, and for the chunks. -/
def resumeCommand (chunks : List Act) : List Act := session chunks

/-- `snapper download`: if the node type is not given, a service lists the snapshots; others ask for the
latest version, for the metadata, and for the chunks. -/
def downloadCommand (listing : Option (List Act)) (latest metadata chunks : List Act) : List Act :=
  (listing.map session).getD [] ++ (session latest ++ (session metadata ++ session chunks))

theorem refreshToken_stale (s : Command) (config : SnapshotConfig) (env : CallEnv) :
    (s.refreshToken config env).1.stale = s.stale := by
  unfold refreshToken
  cases env.connect with
  | error err => rfl
  | ok u =>
    dsimp only
    cases env.refresh with
    | error err => rfl
    | ok answer =>
      dsimp only
      cases env.save <;> rfl

theorem withTokenRefresh_stale (s : Command) (config : SnapshotConfig) (env : CallEnv) :
    (s.withTokenRefresh config env).1.stale = s.stale := by
  unfold withTokenRefresh
  cases env.first with
  | ok u => rfl
  | error code =>
    dsimp only
    split
    · have hstale := refreshToken_stale (s.send config.token) config env
      cases hrun : (s.send config.token).refreshToken config env with
      | mk s' r =>
        rw [hrun] at hstale
        cases r with
        | error err => exact hstale
        | ok u => exact hstale
    · rfl

/-- A call, with an auth service as it should be. -/
def CallOk (s : Command) : Act → Prop
  | .newService => False
  | .call env => AuthOk s env
  | .callOnce => True

/-- A command with one service, as `resume` is, does not call any after another. -/
theorem resume_tokens_once {config : SnapshotConfig} {calls : List Act} {s : Command}
    (hok : Along step CallOk (init config).newService calls) (hrun : run step (init config) (resumeCommand calls) = some s) :
    s.TokensOnce := by
  have hcalls : Along step StepOk (init config).newService calls := by
    refine Along.of_invariant (I := fun s => s.stale = false) step (fun s a hI (hok : CallOk s a) => ?_)
      (fun s a s' hI hok hs => ?_) rfl hok
    · cases a with
      | newService => exact hok.elim
      | call env => exact ⟨hI, hok⟩
      | callOnce => exact hI
    · cases a with
      | newService => exact hok.elim
      | call env =>
        obtain ⟨config, -, heq⟩ := Option.map_eq_some_iff.mp hs
        rw [← heq, withTokenRefresh_stale]
        exact hI
      | callOnce =>
        obtain ⟨config, -, heq⟩ := Option.map_eq_some_iff.mp hs
        rw [← heq]
        exact hI
  exact (run_invariant step (I := Inv) (fun _ _ _ h hok hs => inv_step h hok hs) (inv_newService (inv_init config)) hcalls hrun).once

/-- A call that is answered. -/
def answered : Act := .call ⟨.ok (), .ok (), .error "", none, .ok ()⟩

/-- A call that is refused, and answered after a refresh that has got these tokens. -/
def refreshing (token refresh : String) : Act := .call ⟨.error .unauthenticated, .ok (), .ok (token, refresh), none, .ok ()⟩

theorem answered_ok {s : Command} (h : s.stale = false) : StepOk s answered := ⟨h, fun hrefreshes => by cases hrefreshes⟩

theorem tokens_once_three : ∃ s, run step (init ⟨"token", "refresh", "url"⟩)
    (downloadCommand none [answered] [answered] [answered, refreshing "token2" "refresh2", answered]) = some s ∧ s.sent = ["refresh"] ∧
      s.TokensOnce := by
  refine ⟨_, rfl, rfl, @tokens_once ⟨"token", "refresh", "url"⟩
    (downloadCommand none [answered] [answered] [answered, refreshing "token2" "refresh2", answered]) _ ?_ rfl⟩
  refine ⟨trivial, answered_ok rfl, trivial, answered_ok rfl, trivial, answered_ok rfl, ⟨rfl, fun _ => ⟨rfl, ?_⟩⟩, answered_ok rfl, trivial⟩
  intro token refresh hanswer
  cases hanswer
  decide

/-- The first service of a download refreshes the tokens, and those after it have the old ones. -/
theorem download_tokens_twice : ¬ ∀ (config : SnapshotConfig) (acts : List Act) (s : Command),
    run step (init config) acts = some s → s.TokensOnce := by
  intro h
  have honce := h ⟨"token", "refresh", "url"⟩
    (downloadCommand none [refreshing "token2" "refresh2"] [refreshing "token3" "refresh3"] []) _ rfl
  have hsent := honce.sent
  revert hsent
  decide

end Command

end Snapshot

end Blockvisor
