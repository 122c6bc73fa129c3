/-
The configuration that calls share, and its file (`bv_config.rs`). A call of
`SharedConfig::token` that finds the token expired refreshes it under the
write lock, unless another call has done so by then, and saves the
configuration after it has given the lock back. `Config::load`, which the
`info` RPC calls, reads the file and saves what it has read, under no lock.

A save (`utils::careful_save`) moves the file there aside, opens and writes the
new one and removes the old one, each a step of its own here, so that the
steps of several calls interleave; files are known by their inode. No file
operation fails for another reason than that there is nothing to operate on.
A generation of the token is what one refresh has obtained.
-/
import Mathlib.Data.List.Nodup
import Mathlib.Logic.Function.Basic
import Blockvisor.Lib.Machine
import Blockvisor.Lib.Persist

namespace Blockvisor

namespace BvConfig

/-- A token, and what `AuthToken::expiration` reads off it. -/
structure Token where
  text : String
  expiration : Except String Int

/-- `AuthToken::expired`, with its margin. -/
def Token.expired (token : Token) (now : Int) : Except String Bool :=
  token.expiration.map fun exp => decide (exp < now - 30)

structure ApiConfig where
  token : Token
  refreshToken : String
  url : String

structure NetConf where
  gatewayIp : String
  hostIp : String

def NetConf.isUnspecified (net : NetConf) : Bool := net.hostIp = "0.0.0.0" || net.hostIp = "::"

structure Config where
  apiConfig : ApiConfig
  iface : String
  netConf : NetConf
  mqttUrl : Option String

/-! ## Saving -/

/-- What is in a file: nothing yet, a configuration, or the start of one over the rest of another. -/
inductive Text where
  | empty
  | whole (config : Config)
  | garbled

/-- The configuration file and its backup, by their inodes. -/
structure Files where
  path : Option Nat
  backup : Option Nat
  text : Nat → Text
  fresh : Nat

/-- The file operation at which a save is. -/
inductive SaveStep where
  | pathExists
  | backupExists
  | removeBackup
  | moveAway
  | open_
  | write (inode : Nat)
  | cleanup
  | dropBackup

inductive Next where
  | continue_ (at_ : SaveStep)
  | saved
  | failed (msg : String)

namespace Files

def setText (f : Files) (inode : Nat) (text : Text) : Files := { f with text := Function.update f.text inode text }

/-- A step of `careful_save`; `covers` tells whether the text written is as long as what is in the file. -/
def save (f : Files) (content : Config) (covers : Bool) : SaveStep → Files × Next
  | .pathExists => (f, .continue_ (if f.path.isSome then .backupExists else .open_))
  | .backupExists => (f, .continue_ (if f.backup.isSome then .removeBackup else .moveAway))
  | .removeBackup =>
    if f.backup.isSome then ({ f with backup := none }, .continue_ .moveAway)
    else (f, .failed "No such file or directory")
  | .moveAway =>
    match f.path with
    | none => (f, .failed "No such file or directory")
    | some inode => ({ f with path := none, backup := some inode }, .continue_ .open_)
  | .open_ =>
    match f.path with
    | some inode => (f.setText inode .empty, .continue_ (.write inode))
    | none => ({ f.setText f.fresh .empty with path := some f.fresh, fresh := f.fresh + 1 }, .continue_ (.write f.fresh))
  | .write inode =>
    let text := match f.text inode with
      | .empty => .whole content
      | _ => if covers then .whole content else .garbled
    (f.setText inode text, .continue_ .cleanup)
  | .cleanup => (f, if f.backup.isSome then .continue_ .dropBackup else .saved)
  -- a backup that is gone by now is only warned about
  | .dropBackup => ({ f with backup := none }, .saved)

/-- The file is there, and holds the configuration. -/
def Holds (f : Files) (config : Config) : Prop := ∃ inode, f.path = some inode ∧ f.text inode = .whole config

end Files

/-! ## Calls -/

inductive TokenFailure where
  | expiration (msg : String)
  | refresh (msg : String)
  | save (msg : String)

inductive LoadFailure where
  | read
  | parse
  | netConf (msg : String)
  | save (msg : String)

/-- What a call returns: the token, with the generation it found expired, if it did, or the configuration. -/
inductive Result where
  | token (seen : Option Nat) (tok : Token)
  | tokenFailed (failure : TokenFailure)
  | loaded (config : Config)
  | loadFailed (failure : LoadFailure)

/-- What a save is part of. -/
inductive Job where
  | token (seen : Nat) (tok : Token)
  | load

def Job.done (content : Config) : Job → Result
  | .token seen tok => .token (some seen) tok
  | .load => .loaded content

def Job.failed (msg : String) : Job → Result
  | .token _ _ => .tokenFailed (.save s!"failed to save token: {msg}")
  | .load => .loadFailed (.save msg)

/-- Where a call is. A generation is known by how many there were before it. -/
inductive Phase where
  | wantsLock (seen : Nat)
  /-- The write lock is held, and the request for a new token sent. -/
  | refreshing (seen sent : Nat)
  | unsaved (seen : Nat) (tok : Token)
  | loading (content : Config)
  | saving (job : Job) (content : Config) (at_ : SaveStep)
  | done (result : Result)

namespace Phase

/-- The call is between the reading of what it saves and the end of the save. -/
def files : Phase → Bool
  | .loading _ => true
  | .saving _ _ _ => true
  | _ => false

def isDone : Phase → Bool
  | .done _ => true
  | _ => false

end Phase

structure State where
  now : Int
  config : Config
  /-- The call that holds the write lock on the configuration. -/
  writer : Option Nat
  disk : Files
  calls : List Phase
  /-- What the refreshes have obtained, the newest last. -/
  obtained : List ApiConfig
  /-- The generations that were refreshed. -/
  refreshed : List Nat

namespace State

def enter (s : State) (phase : Phase) : State := { s with calls := s.calls ++ [phase] }

def setCall (s : State) (i : Nat) (phase : Phase) : State := { s with calls := s.calls.set i phase }

end State

/-- `SharedConfig::token` is called. -/
def token (s : State) : Option State :=
  if s.writer.isSome then none
  else
    match s.config.apiConfig.token.expired s.now with
    | .error e => some (s.enter (.done (.tokenFailed (.expiration e))))
    | .ok false => some (s.enter (.done (.token none s.config.apiConfig.token)))
    | .ok true => some (s.enter (.wantsLock s.obtained.length))

/-- The write lock is taken, and the token looked at again. -/
def acquire (s : State) (i : Nat) : Option State :=
  match s.calls[i]?, s.writer with
  | some (.wantsLock seen), none =>
    match s.config.apiConfig.token.expired s.now with
    | .error e => some (s.setCall i (.done (.tokenFailed (.expiration e))))
    | .ok false => some (s.setCall i (.unsaved seen s.config.apiConfig.token))
    | .ok true => some { s.setCall i (.refreshing seen s.obtained.length) with writer := some i }
  | _, _ => none

/-- `ApiConfig::refresh_token` comes back, and the lock is given back. -/
def reply (s : State) (i : Nat) (resp : Except String (Token × String)) : Option State :=
  match s.calls[i]? with
  | some (.refreshing seen sent) =>
    match resp with
    | .error e => some { s.setCall i (.done (.tokenFailed (.refresh e))) with writer := none }
    | .ok (tok, refresh) =>
      let api := { s.config.apiConfig with token := tok, refreshToken := refresh }
      some { s.setCall i (.unsaved seen tok) with
        writer := none
        config := { s.config with apiConfig := api }
        obtained := s.obtained ++ [api]
        refreshed := s.refreshed ++ [sent] }
  | _ => none

/-- The configuration to be saved is read. -/
def prepare (s : State) (i : Nat) : Option State :=
  match s.calls[i]?, s.writer with
  | some (.unsaved seen tok), none => some (s.setCall i (.saving (.token seen tok) s.config .pathExists))
  | _, _ => none

/-- `Config::load` reads the file. -/
def load (s : State) : State :=
  match s.disk.path with
  | none => s.enter (.done (.loadFailed .read))
  | some inode =>
    match s.disk.text inode with
    | .whole config => s.enter (.loading config)
    | _ => s.enter (.done (.loadFailed .parse))

/-- The network configuration is filled in when there is none, `net` being what `NetConf::new` makes of the interface. -/
def fillIn (s : State) (i : Nat) (net : Except String NetConf) : Option State :=
  match s.calls[i]? with
  | some (.loading config) =>
    if config.netConf.isUnspecified then
      match net with
      | .error e => some (s.setCall i (.done (.loadFailed (.netConf e))))
      | .ok netConf => some (s.setCall i (.saving .load { config with netConf } .pathExists))
    else some (s.setCall i (.saving .load config .pathExists))
  | _ => none

/-- A call takes the next step of its save. -/
def save (s : State) (i : Nat) (covers : Bool) : Option State :=
  match s.calls[i]? with
  | some (.saving job content at_) =>
    match s.disk.save content covers at_ with
    | (disk, .continue_ at_) => some { s.setCall i (.saving job content at_) with disk }
    | (disk, .saved) => some { s.setCall i (.done (job.done content)) with disk }
    | (disk, .failed msg) => some { s.setCall i (.done (job.failed msg)) with disk }
  | _ => none

inductive Action where
  | tick (seconds : Nat)
  | setMqttUrl (url : Option String)
  | token
  | acquire (i : Nat)
  | reply (i : Nat) (resp : Except String (Token × String))
  | prepare (i : Nat)
  | load
  | fillIn (i : Nat) (net : Except String NetConf)
  | save (i : Nat) (covers : Bool)

def step (s : State) : Action → Option State
  | .tick seconds => some { s with now := s.now + seconds }
  | .setMqttUrl url => if s.writer.isSome then none else some { s with config := { s.config with mqttUrl := url } }
  | .token => token s
  | .acquire i => acquire s i
  | .reply i resp => reply s i resp
  | .prepare i => prepare s i
  | .load => some (load s)
  | .fillIn i net => fillIn s i net
  | .save i covers => save s i covers

/-- The configuration was just loaded from its file. -/
def start (now : Int) (config : Config) : State where
  now := now
  config := config
  writer := none
  disk := ⟨some 0, none, fun _ => .whole config, 1⟩
  calls := []
  obtained := []
  refreshed := []

/-- A call begins to save, or to load, only when no other one saves or loads. -/
def Apart (s : State) : Action → Prop
  | .prepare _ => s.calls.all (!·.files) = true
  | .load => s.calls.all (!·.files) = true
  | _ => True

instance (s : State) : ∀ a, Decidable (Apart s a)
  | .prepare _ | .load => by unfold Apart; infer_instance
  | .tick _ | .setMqttUrl _ | .token | .acquire _ | .reply .. | .fillIn .. | .save .. => .isTrue trivial

/-! ## A save with no other one at work -/

/-- The files as a save of `content` finds them at each of its steps. -/
def Midway (f : Files) (content : Config) : SaveStep → Prop
  | .pathExists => ∃ d, f.Holds d
  | .backupExists => ∃ d, f.Holds d
  | .removeBackup => (∃ d, f.Holds d) ∧ f.backup.isSome = true
  | .moveAway => ∃ d, f.Holds d
  | .open_ => f.path = none
  | .write inode => f.path = some inode ∧ f.text inode = .empty
  | .cleanup => f.Holds content
  | .dropBackup => f.Holds content

/-- What a step of a save may come to when no other one is at work. -/
def Goes (content : Config) : Files × Next → Prop
  | (f, .continue_ at_) => Midway f content at_
  | (f, .saved) => f.Holds content
  | (_, .failed _) => False

/-- **Alone, a save goes through** and leaves what it saves. -/
theorem Midway.save {f : Files} {content : Config} {at_ : SaveStep} (h : Midway f content at_) (covers : Bool) :
    Goes content (f.save content covers at_) := by
  cases at_ with
  | pathExists =>
    obtain ⟨d, inode, hpath, htext⟩ := h
    simp only [Files.save, hpath, Option.isSome_some, if_true]
    exact ⟨d, inode, hpath, htext⟩
  | backupExists =>
    simp only [Files.save]
    split
    · exact ⟨h, ‹_›⟩
    · exact h
  | removeBackup =>
    obtain ⟨⟨d, inode, hpath, htext⟩, hbackup⟩ := h
    simp only [Files.save, hbackup, if_true]
    exact ⟨d, inode, hpath, htext⟩
  | moveAway =>
    obtain ⟨d, inode, hpath, htext⟩ := h
    simp only [Files.save, hpath]
    exact rfl
  | open_ =>
    have hpath : f.path = none := h
    simp only [Files.save, hpath]
    exact ⟨rfl, by simp [Files.setText]⟩
  | write inode =>
    obtain ⟨hpath, htext⟩ := h
    simp only [Files.save, htext]
    exact ⟨inode, hpath, by simp [Files.setText]⟩
  | cleanup =>
    simp only [Files.save]
    split
    · exact h
    · exact h
  | dropBackup => exact h

/-! ## Generations -/

/-- What every run keeps of the generations: who has found which one expired, and who asks for the next. -/
def Seen (s : State) (i : Nat) : Phase → Prop
  | .wantsLock seen =>
    seen ≤ s.obtained.length ∧ (seen = s.obtained.length → s.config.apiConfig.token.expired s.now = .ok true)
  | .refreshing seen sent => s.writer = some i ∧ sent = s.obtained.length ∧ seen ≤ sent
  | .unsaved seen _ => seen < s.obtained.length
  | .saving (.token seen _) _ _ => seen < s.obtained.length
  | .done (.token (some seen) _) => seen < s.obtained.length
  | _ => True

structure Generations (config : Config) (s : State) : Prop where
  calls : ∀ (i : Nat) (p : Phase), s.calls[i]? = some p → Seen s i p
  refreshed : s.refreshed = List.range s.obtained.length
  newest : s.config.apiConfig = s.obtained.getLastD config.apiConfig

/-- The newest token stays expired. -/
theorem Token.expired_later {token : Token} {now later : Int} (h : token.expired now = .ok true) (hle : now ≤ later) :
    token.expired later = .ok true := by
  unfold Token.expired at h ⊢
  cases hexp : token.expiration with
  | error e =>
    rw [hexp] at h
    cases h
  | ok exp =>
    rw [hexp] at h
    have hlt : exp < now - 30 := by simpa [Except.map] using h
    simp only [Except.map, Except.ok.injEq, decide_eq_true_eq]
    omega

/-- A call that is not refreshing stays as it is while the generations stay, and time passes. -/
theorem Seen.mono {s s' : State} {i : Nat} {p : Phase} (h : Seen s i p) (hobtained : s'.obtained = s.obtained)
    (hconfig : s'.config.apiConfig = s.config.apiConfig) (hnow : s.now ≤ s'.now)
    (hwriter : s.writer = some i → s'.writer = some i) : Seen s' i p := by
  unfold Seen at h ⊢
  split at h
  · rw [hobtained, hconfig]
    exact ⟨h.1, fun heq => Token.expired_later (h.2 heq) hnow⟩
  · rw [hobtained]
    exact ⟨hwriter h.1, h.2⟩
  · rw [hobtained]
    exact h
  · rw [hobtained]
    exact h
  · rw [hobtained]
    exact h
  · trivial

theorem getElem?_set_cases {s : State} {i j : Nat} {p q : Phase} (h : (s.calls.set i p)[j]? = some q) :
    (j = i ∧ q = p) ∨ (j ≠ i ∧ s.calls[j]? = some q) := by
  rw [List.getElem?_set] at h
  split at h
  · rename_i hij
    subst hij
    split at h
    · cases h
      exact .inl ⟨rfl, rfl⟩
    · cases h
  · rename_i hij
    exact .inr ⟨fun heq => hij heq.symm, h⟩

theorem getElem?_enter_cases {s : State} {j : Nat} {p q : Phase} (h : (s.calls ++ [p])[j]? = some q) :
    (j = s.calls.length ∧ q = p) ∨ s.calls[j]? = some q := by
  rw [List.getElem?_append] at h
  split at h
  · exact .inr h
  · rename_i hj
    obtain heq | hlt := Nat.eq_or_lt_of_le (Nat.le_of_not_lt hj)
    · subst heq
      simp only [Nat.sub_self, List.getElem?_cons_zero, Option.some.injEq] at h
      exact .inl ⟨rfl, h.symm⟩
    · rw [List.getElem?_eq_none (by simp; omega)] at h
      cases h

/-- A call goes on, the generations staying. -/
theorem Generations.setCall {config : Config} {s s' : State} {i : Nat} {p : Phase} (h : Generations config s)
    (hcalls : s'.calls = s.calls.set i p) (hobtained : s'.obtained = s.obtained) (hrefreshed : s'.refreshed = s.refreshed)
    (hconfig : s'.config = s.config) (hnow : s'.now = s.now)
    (hwriter : ∀ j, j ≠ i → s.writer = some j → s'.writer = some j) (hp : Seen s' i p) : Generations config s' where
  calls j q hq := by
    rw [hcalls] at hq
    obtain ⟨rfl, rfl⟩ | ⟨hne, hq⟩ := getElem?_set_cases hq
    · exact hp
    · exact (h.calls j q hq).mono hobtained (by rw [hconfig]) (by omega) (hwriter j hne)
  refreshed := by rw [hrefreshed, hobtained, h.refreshed]
  newest := by rw [hconfig, hobtained, h.newest]

theorem Generations.enter {config : Config} {s : State} {p : Phase} (h : Generations config s)
    (hp : ∀ i, Seen s i p) : Generations config (s.enter p) where
  calls j q hq := by
    obtain ⟨-, rfl⟩ | hq := getElem?_enter_cases hq
    · exact hp j
    · exact h.calls j q hq
  refreshed := h.refreshed
  newest := h.newest

/-- The one who refreshes is the only one to ask for the generation. -/
theorem Generations.reply {config : Config} {s s' : State} {i : Nat} {resp : Except String (Token × String)}
    (h : Generations config s) (hstep : reply s i resp = some s') : Generations config s' := by
  unfold BvConfig.reply at hstep
  split at hstep
  · rename_i seen sent hcall
    obtain ⟨hwriter, hsent, hle⟩ := h.calls i _ hcall
    have hothers : ∀ j, j ≠ i → s.writer = some j → (none : Option Nat) = some j := by
      intro j hne hj
      rw [hwriter] at hj
      cases hj
      exact absurd rfl hne
    split at hstep
    · cases hstep
      exact h.setCall rfl rfl rfl rfl rfl hothers trivial
    · rename_i tok refresh
      cases hstep
      refine ⟨fun j q hq => ?_, ?_, ?_⟩
      · have hlen : (s.obtained ++ [{ s.config.apiConfig with token := tok, refreshToken := refresh }]).length =
            s.obtained.length + 1 := by simp
        obtain ⟨rfl, rfl⟩ | ⟨hne, hq⟩ := getElem?_set_cases hq
        · show seen < (s.obtained ++ [_]).length
          rw [hlen]
          omega
        · have hold := h.calls j q hq
          unfold Seen at hold ⊢
          split at hold
          · refine ⟨by rw [hlen]; omega, fun heq => ?_⟩
            rw [hlen] at heq
            omega
          · exact absurd (hothers j hne hold.1) (by simp)
          · rw [hlen]
            omega
          · rw [hlen]
            omega
          · rw [hlen]
            omega
          · trivial
      · show s.refreshed ++ [sent] = List.range (s.obtained ++ [_]).length
        rw [List.length_append, List.length_singleton, List.range_succ, h.refreshed, hsent]
      · show _ = (s.obtained ++ [_]).getLastD config.apiConfig
        rw [List.getLastD_concat]
  · cases hstep

theorem Generations.step {config : Config} {s s' : State} {a : Action} (h : Generations config s)
    (hstep : step s a = some s') : Generations config s' := by
  cases a with
  | tick seconds =>
    cases hstep
    refine ⟨fun i p hp => (h.calls i p hp).mono rfl rfl ?_ id, h.refreshed, h.newest⟩
    show s.now ≤ s.now + seconds
    omega
  | setMqttUrl url =>
    simp only [BvConfig.step] at hstep
    split at hstep
    · cases hstep
    · cases hstep
      exact ⟨fun i p hp => (h.calls i p hp).mono rfl rfl (Int.le_refl _) id, h.refreshed, h.newest⟩
  | token =>
    simp only [BvConfig.step, BvConfig.token] at hstep
    split at hstep
    · cases hstep
    · split at hstep
      · cases hstep
        exact h.enter fun _ => trivial
      · cases hstep
        exact h.enter fun _ => trivial
      · rename_i hexpired
        cases hstep
        exact h.enter fun _ => ⟨Nat.le_refl _, fun _ => hexpired⟩
  | acquire i =>
    simp only [BvConfig.step, BvConfig.acquire] at hstep
    split at hstep
    · rename_i seen hcall hwriter
      obtain ⟨hle, hexp⟩ := h.calls i _ hcall
      split at hstep
      · cases hstep
        exact h.setCall rfl rfl rfl rfl rfl (fun _ _ hj => hj) trivial
      · rename_i hvalid
        cases hstep
        refine h.setCall rfl rfl rfl rfl rfl (fun _ _ hj => hj) (Nat.lt_of_le_of_ne hle fun heq => ?_)
        rw [hexp heq] at hvalid
        cases hvalid
      · cases hstep
        refine h.setCall rfl rfl rfl rfl rfl (fun j _ hj => ?_) ⟨rfl, rfl, hle⟩
        rw [hwriter] at hj
        cases hj
    · cases hstep
  | reply i resp => exact h.reply hstep
  | prepare i =>
    simp only [BvConfig.step, BvConfig.prepare] at hstep
    split at hstep
    · rename_i seen tok hcall hwriter
      cases hstep
      have hseen : seen < s.obtained.length := h.calls i _ hcall
      exact h.setCall rfl rfl rfl rfl rfl (fun _ _ hj => hj) hseen
    · cases hstep
  | load =>
    cases hstep
    unfold BvConfig.load
    split
    · exact h.enter fun _ => trivial
    · split
      · exact h.enter fun _ => trivial
      · exact h.enter fun _ => trivial
  | fillIn i net =>
    simp only [BvConfig.step, BvConfig.fillIn] at hstep
    split at hstep
    · split at hstep
      · split at hstep
        · cases hstep
          exact h.setCall rfl rfl rfl rfl rfl (fun _ _ hj => hj) trivial
        · cases hstep
          exact h.setCall rfl rfl rfl rfl rfl (fun _ _ hj => hj) trivial
      · cases hstep
        exact h.setCall rfl rfl rfl rfl rfl (fun _ _ hj => hj) trivial
    · cases hstep
  | save i covers =>
    simp only [BvConfig.step, BvConfig.save] at hstep
    split at hstep
    · rename_i job content at_ hcall
      have hseen := h.calls i _ hcall
      split at hstep
      · cases hstep
        refine h.setCall rfl rfl rfl rfl rfl (fun _ _ hj => hj) ?_
        cases job <;> exact hseen
      · cases hstep
        refine h.setCall rfl rfl rfl rfl rfl (fun _ _ hj => hj) ?_
        cases job <;> exact hseen
      · cases hstep
        refine h.setCall rfl rfl rfl rfl rfl (fun _ _ hj => hj) ?_
        cases job <;> trivial
    · cases hstep

/-! ## The file -/

/-- The newest pair, or somebody has still to save it. -/
def Fresh (s : State) (api : ApiConfig) : Prop :=
  api = s.config.apiConfig ∨ ∃ (i : Nat) (seen : Nat) (tok : Token), s.calls[i]? = some (.unsaved seen tok)

/-- What the file is to a call. -/
def OnDisk (s : State) : Phase → Prop
  | .loading content => s.disk.Holds content ∧ Fresh s content.apiConfig
  | .saving _ content at_ => Midway s.disk content at_ ∧ Fresh s content.apiConfig
  | .done (.tokenFailed (.save _)) => False
  | _ => True

structure Safe (s : State) : Prop where
  calls : ∀ (i : Nat) (p : Phase), s.calls[i]? = some p → OnDisk s p
  alone : ∀ (i j : Nat) (p q : Phase), s.calls[i]? = some p → s.calls[j]? = some q → p.files = true → q.files = true → i = j
  rest : (∀ (i : Nat) (p : Phase), s.calls[i]? = some p → p.files = false) → ∃ c, s.disk.Holds c ∧ Fresh s c.apiConfig

theorem OnDisk.of_not_files {s s' : State} {p : Phase} (hfiles : p.files = false) (h : OnDisk s p) : OnDisk s' p := by
  unfold OnDisk at h ⊢
  split at h
  · cases hfiles
  · cases hfiles
  · exact h
  · trivial

theorem OnDisk.mono {s s' : State} {p : Phase} (h : OnDisk s p) (hdisk : s'.disk = s.disk)
    (hfresh : ∀ api, Fresh s api → Fresh s' api) : OnDisk s' p := by
  unfold OnDisk at h ⊢
  split at h
  · exact ⟨hdisk ▸ h.1, hfresh _ h.2⟩
  · exact ⟨hdisk ▸ h.1, hfresh _ h.2⟩
  · exact h
  · trivial

theorem Fresh.setCall {s s' : State} {i : Nat} {old p : Phase} {api : ApiConfig} (h : Fresh s api) (hold : s.calls[i]? = some old)
    (hcalls : s'.calls = s.calls.set i p) (hconfig : s'.config = s.config) (hunsaved : ∀ seen tok, old ≠ .unsaved seen tok) :
    Fresh s' api := by
  obtain heq | ⟨j, seen, tok, hj⟩ := h
  · exact .inl (by rw [hconfig, heq])
  · refine .inr ⟨j, seen, tok, ?_⟩
    have hne : i ≠ j := by
      intro hij
      subst hij
      rw [hold] at hj
      cases hj
      exact hunsaved _ _ rfl
    rw [hcalls, List.getElem?_set_ne hne, hj]

/-- A call that does nothing to the file goes on. -/
theorem Safe.setCall {s s' : State} {i : Nat} {old p : Phase} (h : Safe s) (hold : s.calls[i]? = some old)
    (hfiles : old.files = false) (hcalls : s'.calls = s.calls.set i p) (hdisk : s'.disk = s.disk)
    (hfresh : ∀ api, Fresh s api → Fresh s' api) (hp : p.files = false) (hok : OnDisk s' p) : Safe s' := by
  have hback : ∀ (j : Nat) (q : Phase), s'.calls[j]? = some q → q.files = true → s.calls[j]? = some q := by
    intro j q hq hqf
    rw [hcalls] at hq
    obtain ⟨-, rfl⟩ | ⟨-, hq⟩ := getElem?_set_cases hq
    · rw [hp] at hqf
      cases hqf
    · exact hq
  refine ⟨fun j q hq => ?_, fun j k q r hq hr hqf hrf => ?_, fun hnone => ?_⟩
  · rw [hcalls] at hq
    obtain ⟨-, rfl⟩ | ⟨-, hq⟩ := getElem?_set_cases hq
    · exact hok
    · exact (h.calls j q hq).mono hdisk hfresh
  · exact h.alone j k q r (hback j q hq hqf) (hback k r hr hrf) hqf hrf
  · obtain ⟨c, hc, hapi⟩ := h.rest fun j q hq => by
      by_cases hij : i = j
      · subst hij
        rw [hold] at hq
        cases hq
        exact hfiles
      · exact hnone j q (by rw [hcalls, List.getElem?_set_ne hij, hq])
    exact ⟨c, hdisk ▸ hc, hfresh _ hapi⟩

/-- The call that loads or saves goes on; it is the only one to do so. -/
theorem Safe.setFiling {s s' : State} {i : Nat} {old p : Phase} (h : Safe s) (hold : s.calls[i]? = some old)
    (halone : ∀ (j : Nat) (q : Phase), j ≠ i → s.calls[j]? = some q → q.files = false) (hcalls : s'.calls = s.calls.set i p)
    (hok : OnDisk s' p) (hrest : p.files = false → ∃ c, s'.disk.Holds c ∧ Fresh s' c.apiConfig) : Safe s' := by
  have hlt : i < s.calls.length := (List.getElem?_eq_some_iff.mp hold).1
  have honly : ∀ j q, s'.calls[j]? = some q → q.files = true → j = i := by
    intro j q hq hqf
    rw [hcalls] at hq
    obtain ⟨rfl, -⟩ | ⟨hne, hq⟩ := getElem?_set_cases hq
    · rfl
    · rw [halone j q hne hq] at hqf
      cases hqf
  refine ⟨fun j q hq => ?_, fun j k q r hq hr hqf hrf => ?_, fun hnone => ?_⟩
  · rw [hcalls] at hq
    obtain ⟨-, rfl⟩ | ⟨hne, hq⟩ := getElem?_set_cases hq
    · exact hok
    · exact (h.calls j q hq).of_not_files (halone j q hne hq)
  · rw [honly j q hq hqf, honly k r hr hrf]
  · exact hrest (hnone i p (by rw [hcalls, List.getElem?_set_self hlt]))

theorem Safe.others {s : State} {i : Nat} {p : Phase} (h : Safe s) (hp : s.calls[i]? = some p) (hfiles : p.files = true) :
    ∀ (j : Nat) (q : Phase), j ≠ i → s.calls[j]? = some q → q.files = false := by
  intro j q hne hq
  cases hqf : q.files with
  | false => rfl
  | true => exact absurd (h.alone j i q p hq hp hqf hfiles) hne

theorem Safe.enter {s : State} {p : Phase} (h : Safe s) (hp : p.files = false) (hok : OnDisk s p) : Safe (s.enter p) := by
  have hfresh : ∀ api, Fresh s api → Fresh (s.enter p) api := by
    intro api hapi
    obtain heq | ⟨j, seen, tok, hj⟩ := hapi
    · exact .inl heq
    · refine .inr ⟨j, seen, tok, ?_⟩
      show (s.calls ++ [p])[j]? = _
      rw [List.getElem?_append_left (List.getElem?_eq_some_iff.mp hj).1, hj]
  have hback : ∀ (j : Nat) (q : Phase), (s.enter p).calls[j]? = some q → q.files = true → s.calls[j]? = some q := by
    intro j q hq hqf
    obtain ⟨-, rfl⟩ | hq := getElem?_enter_cases hq
    · rw [hp] at hqf
      cases hqf
    · exact hq
  refine ⟨fun j q hq => ?_, fun j k q r hq hr hqf hrf => ?_, fun hnone => ?_⟩
  · obtain ⟨-, rfl⟩ | hq := getElem?_enter_cases hq
    · exact hok.mono rfl hfresh
    · exact (h.calls j q hq).mono rfl hfresh
  · exact h.alone j k q r (hback j q hq hqf) (hback k r hr hrf) hqf hrf
  · obtain ⟨c, hc, hapi⟩ := h.rest fun j q hq => hnone j q (by
      show (s.calls ++ [p])[j]? = _
      rw [List.getElem?_append_left (List.getElem?_eq_some_iff.mp hq).1, hq])
    exact ⟨c, hc, hfresh _ hapi⟩

theorem quiet_of_all {calls : List Phase} (h : calls.all (!·.files) = true) :
    ∀ (i : Nat) (p : Phase), calls[i]? = some p → p.files = false := by
  intro i p hp
  simpa using List.all_eq_true.mp h p (List.mem_of_getElem? hp)

theorem Safe.load {s : State} (h : Safe s) (hapart : s.calls.all (!·.files) = true) : Safe (load s) := by
  have hquiet := quiet_of_all hapart
  obtain ⟨c, ⟨inode, hpath, htext⟩, hapi⟩ := h.rest hquiet
  have hload : BvConfig.load s = s.enter (.loading c) := by simp only [BvConfig.load, hpath, htext]
  rw [hload]
  have hfresh : ∀ api, Fresh s api → Fresh (s.enter (.loading c)) api := by
    intro api hapi
    obtain heq | ⟨j, seen, tok, hj⟩ := hapi
    · exact .inl heq
    · refine .inr ⟨j, seen, tok, ?_⟩
      show (s.calls ++ [_])[j]? = _
      rw [List.getElem?_append_left (List.getElem?_eq_some_iff.mp hj).1, hj]
  have honly : ∀ (j : Nat) (q : Phase), (s.enter (.loading c)).calls[j]? = some q → q.files = true → j = s.calls.length := by
    intro j q hq hqf
    obtain ⟨rfl, -⟩ | hq := getElem?_enter_cases hq
    · rfl
    · rw [hquiet j q hq] at hqf
      cases hqf
  refine ⟨fun j q hq => ?_, fun j k q r hq hr hqf hrf => ?_, fun hnone => ?_⟩
  · obtain ⟨-, rfl⟩ | hq := getElem?_enter_cases hq
    · exact ⟨⟨inode, hpath, htext⟩, hfresh _ hapi⟩
    · exact (h.calls j q hq).mono rfl hfresh
  · rw [honly j q hq hqf, honly k r hr hrf]
  · have hlast : (s.enter (.loading c)).calls[s.calls.length]? = some (.loading c) := by simp [State.enter]
    cases hnone _ _ hlast

theorem Safe.save {s s' : State} {i : Nat} {covers : Bool} (h : Safe s) (hstep : save s i covers = some s') : Safe s' := by
  unfold BvConfig.save at hstep
  split at hstep
  · rename_i job content at_ hcall
    obtain ⟨hmid, hapi⟩ := h.calls i _ hcall
    have hgoes := hmid.save covers
    have halone := h.others hcall rfl
    split at hstep
    · rename_i disk at_' hsave
      cases hstep
      rw [hsave] at hgoes
      exact h.setFiling hcall halone rfl ⟨hgoes, hapi.setCall hcall rfl rfl nofun⟩ nofun
    · rename_i disk hsave
      cases hstep
      rw [hsave] at hgoes
      refine h.setFiling hcall halone rfl ?_ fun _ => ⟨content, hgoes, hapi.setCall hcall rfl rfl nofun⟩
      cases job <;> trivial
    · rename_i disk msg hsave
      rw [hsave] at hgoes
      exact hgoes.elim
  · cases hstep

/-- **Calls that save and load apart leave the newest pair in the file**, or to somebody who has still to save it. -/
theorem Safe.step {s s' : State} {a : Action} (h : Safe s) (hapart : Apart s a) (hstep : step s a = some s') : Safe s' := by
  cases a with
  | tick seconds =>
    cases hstep
    exact ⟨h.calls, h.alone, h.rest⟩
  | setMqttUrl url =>
    simp only [BvConfig.step] at hstep
    split at hstep
    · cases hstep
    · cases hstep
      exact ⟨fun i p hp => (h.calls i p hp).mono rfl fun _ hapi => hapi, h.alone, h.rest⟩
  | token =>
    simp only [BvConfig.step, BvConfig.token] at hstep
    split at hstep
    · cases hstep
    · split at hstep
      · cases hstep
        exact h.enter rfl trivial
      · cases hstep
        exact h.enter rfl trivial
      · cases hstep
        exact h.enter rfl trivial
  | acquire i =>
    simp only [BvConfig.step, BvConfig.acquire] at hstep
    split at hstep
    · rename_i seen hcall hwriter
      split at hstep
      · cases hstep
        exact h.setCall hcall rfl rfl rfl (fun _ hapi => hapi.setCall hcall rfl rfl nofun) rfl trivial
      · cases hstep
        exact h.setCall hcall rfl rfl rfl (fun _ hapi => hapi.setCall hcall rfl rfl nofun) rfl trivial
      · cases hstep
        exact h.setCall hcall rfl rfl rfl (fun _ hapi => hapi.setCall hcall rfl rfl nofun) rfl trivial
    · cases hstep
  | reply i resp =>
    simp only [BvConfig.step, BvConfig.reply] at hstep
    split at hstep
    · rename_i seen sent hcall
      split at hstep
      · cases hstep
        exact h.setCall hcall rfl rfl rfl (fun _ hapi => hapi.setCall hcall rfl rfl nofun) rfl trivial
      · rename_i tok refresh
        cases hstep
        have hlt : i < s.calls.length := (List.getElem?_eq_some_iff.mp hcall).1
        exact h.setCall hcall rfl rfl rfl (fun _ _ => .inr ⟨i, seen, tok, List.getElem?_set_self hlt⟩) rfl trivial
    · cases hstep
  | prepare i =>
    simp only [BvConfig.step, BvConfig.prepare] at hstep
    split at hstep
    · rename_i seen tok hcall hwriter
      cases hstep
      have hquiet := quiet_of_all hapart
      obtain ⟨c, hc, -⟩ := h.rest hquiet
      exact h.setFiling hcall (fun j q _ hq => hquiet j q hq) rfl ⟨⟨c, hc⟩, .inl rfl⟩ nofun
    · cases hstep
  | load =>
    cases hstep
    exact h.load hapart
  | fillIn i net =>
    simp only [BvConfig.step, BvConfig.fillIn] at hstep
    split at hstep
    · rename_i config hcall
      obtain ⟨hholds, hapi⟩ := h.calls i _ hcall
      have halone := h.others hcall rfl
      have hapi' : ∀ p, Fresh (s.setCall i p) config.apiConfig := fun p => hapi.setCall hcall rfl rfl nofun
      split at hstep
      · split at hstep
        · cases hstep
          exact h.setFiling hcall halone rfl trivial fun _ => ⟨config, hholds, hapi' _⟩
        · cases hstep
          exact h.setFiling hcall halone rfl ⟨⟨config, hholds⟩, hapi' _⟩ nofun
      · cases hstep
        exact h.setFiling hcall halone rfl ⟨⟨config, hholds⟩, hapi' _⟩ nofun
    · cases hstep
  | save i covers => exact h.save hstep

/-! ## No update is lost -/

/-- One expired token is refreshed once, no call fails for the save of another one, and with all calls back the file
holds the newest pair. -/
structure NoLoss (config : Config) (s : State) : Prop where
  once : ∀ generation, s.refreshed.count generation ≤ 1
  refreshed : ∀ seen tok, .done (.token (some seen) tok) ∈ s.calls → s.refreshed.count seen = 1
  saved : ∀ msg, .done (.tokenFailed (.save msg)) ∉ s.calls
  kept : s.calls.all Phase.isDone = true → ∃ c, s.disk.Holds c ∧ c.apiConfig = s.obtained.getLastD config.apiConfig

theorem safe_start (now : Int) (config : Config) : Safe (start now config) where
  calls := by simp [start]
  alone := by simp [start]
  rest _ := ⟨config, ⟨0, rfl, rfl⟩, .inl rfl⟩

theorem generations_start (now : Int) (config : Config) : Generations config (start now config) where
  calls := by simp [start]
  refreshed := rfl
  newest := rfl

/-- **A token is refreshed exactly once** by those who find it expired, in every run. -/
theorem Generations.once {config : Config} {s : State} (h : Generations config s) :
    (∀ generation, s.refreshed.count generation ≤ 1) ∧
      ∀ seen tok, .done (.token (some seen) tok) ∈ s.calls → s.refreshed.count seen = 1 := by
  rw [h.refreshed]
  refine ⟨List.nodup_iff_count_le_one.mp List.nodup_range, fun seen tok hmem => ?_⟩
  obtain ⟨i, hi⟩ := List.mem_iff_getElem?.mp hmem
  have hseen : seen < s.obtained.length := h.calls i _ hi
  exact List.nodup_iff_count_eq_one.mp List.nodup_range seen (List.mem_range.mpr hseen)

/-- **No update of the token is lost** in a run in which no save and no load begins while another one is at work. -/
theorem no_token_lost {now : Int} {config : Config} {actions : List Action} {s : State}
    (hapart : Machine.Along step Apart (start now config) actions)
    (hrun : Machine.run step (start now config) actions = some s) : NoLoss config s := by
  have hgen := Machine.run_invariant_all step (fun _ _ _ h hs => Generations.step h hs) (generations_start now config) hrun
  have hsafe := Machine.run_invariant step (fun _ _ _ h ha hs => Safe.step h ha hs) (safe_start now config) hapart hrun
  refine ⟨hgen.once.1, hgen.once.2, fun msg hmem => ?_, fun hdone => ?_⟩
  · obtain ⟨i, hi⟩ := List.mem_iff_getElem?.mp hmem
    exact hsafe.calls i _ hi
  · have hphases : ∀ (i : Nat) (p : Phase), s.calls[i]? = some p → p.isDone = true :=
      fun i p hp => List.all_eq_true.mp hdone p (List.mem_of_getElem? hp)
    obtain ⟨c, hc, hapi⟩ := hsafe.rest fun i p hp => by
      have := hphases i p hp
      cases p <;> first | rfl | cases this
    obtain heq | ⟨i, seen, tok, hi⟩ := hapi
    · exact ⟨c, hc, heq.trans hgen.newest⟩
    · cases hphases i _ hi

/-- A configuration with a token that expires at 0. -/
def stale : Config := ⟨⟨⟨"t0", .ok 0⟩, "r0", "https://api"⟩, "br0", ⟨"10.0.0.1", "10.0.0.2"⟩, none⟩

def renewal : Except String (Token × String) := .ok (⟨"t1", .ok 1000⟩, "r1")

/-- A call refreshes the token and saves it, and then another one loads the file. -/
def inTurns : List Action :=
  [.token, .acquire 0, .reply 0 renewal, .prepare 0] ++ List.replicate 7 (.save 0 true) ++
    [.load, .fillIn 1 (.error "")] ++ List.replicate 7 (.save 1 true)

theorem no_token_lost_in_turns :
    ∃ s, Machine.run step (start 100 stale) inTurns = some s ∧ s.calls.all Phase.isDone = true ∧ NoLoss stale s := by
  have hruns : (Machine.run step (start 100 stale) inTurns).any (·.calls.all Phase.isDone) = true := by decide
  obtain ⟨s, hrun, hdone⟩ := (Option.any_eq_true ..).mp hruns
  exact ⟨s, hrun, hdone, no_token_lost (by decide) hrun⟩

/-- The file is loaded before a call refreshes the token and saves it, and saved after that. -/
def loadedBefore : List Action :=
  [.load, .token, .acquire 1, .reply 1 renewal, .prepare 1] ++ List.replicate 7 (.save 1 true) ++
    [.fillIn 0 (.error "")] ++ List.replicate 7 (.save 0 true)

/-- The refresh token that the file holds, if it can be loaded. -/
def Files.refreshToken (f : Files) : Option String :=
  match f.path with
  | none => none
  | some inode =>
    match f.text inode with
    | .whole config => some config.apiConfig.refreshToken
    | _ => none

theorem Files.Holds.refreshToken {f : Files} {config : Config} (h : f.Holds config) :
    f.refreshToken = some config.apiConfig.refreshToken := by
  obtain ⟨inode, hpath, htext⟩ := h
  simp only [Files.refreshToken, hpath, htext]

/-- The file ends with the refresh token that was used up. -/
theorem token_lost :
    ¬ ∀ (now : Int) (config : Config) (actions : List Action) (s : State),
      Machine.run step (start now config) actions = some s → NoLoss config s := by
  intro h
  have hruns : (Machine.run step (start 100 stale) loadedBefore).any (fun s => s.calls.all Phase.isDone &&
      (s.disk.refreshToken == some "r0" && (s.obtained.getLastD stale.apiConfig).refreshToken == "r1")) = true := by decide
  obtain ⟨s, hrun, hs⟩ := (Option.any_eq_true ..).mp hruns
  simp only [Bool.and_eq_true, beq_iff_eq] at hs
  obtain ⟨hdone, hfile, hnewest⟩ := hs
  obtain ⟨c, hc, hapi⟩ := (h 100 stale loadedBefore s hrun).kept hdone
  rw [hc.refreshToken, hapi, hnewest] at hfile
  simp at hfile

end BvConfig

end Blockvisor
