/-
The clients of the API and their tokens (`services/mod.rs`). A client takes its
token from the shared configuration when it connects and sends it with every
request. When the API answers that the token is expired, `api_with_retry`
connects once more and sends the request again.

The clocks are in whole seconds, rounded up: for an expiry in whole seconds
this compares as the exact time does. The API looks at the expiry with its own
clock, which is up to half a minute ahead.

`AuthToken::expired` puts its margin on the wrong side, so that a token is
taken for half a minute after its expiry, and a client whose token was rejected
gets the same one again (`rejected_token_again`). `tokens_renewed_iff` says
when neither happens.
-/
import Blockvisor.Bv.BvConfig
import Blockvisor.Lib.Machine

namespace Blockvisor

namespace BvConfig

/-- The expiry of the token is before the time. -/
def Token.passed (token : Token) (time : Int) : Prop :=
  match token.expiration with
  | .ok exp => exp < time
  | .error _ => False

instance (token : Token) (time : Int) : Decidable (token.passed time) := by
  unfold Token.passed
  split <;> infer_instance

deriving instance DecidableEq for Token

/-- The token that a call is to return, as far as it is known. -/
def Phase.settled : Phase → Option Token
  | .unsaved _ tok => some tok
  | .saving (.token _ tok) _ _ => some tok
  | .done (.token _ tok) => some tok
  | _ => none

def State.settled (s : State) (i : Nat) : Option Token := s.calls[i]?.bind Phase.settled

/-- A call gets the token of the configuration unless it is expired. -/
def taken (s : State) (call : Nat) : Option (Nat × Token) :=
  match s.config.apiConfig.token.expired s.now with
  | .ok false => some (call, s.config.apiConfig.token)
  | _ => none

/-- The call that a step decides, and its token. -/
def decides (s : State) : Action → Option (Nat × Token)
  | .token => taken s s.calls.length
  | .acquire i => taken s i
  | .reply i (.ok (tok, _)) => some (i, tok)
  | _ => none

/-! ## What a step decides -/

section

variable {s s' : State} {i j : Nat} {p q : Phase}

theorem settled_of_get (h : s.calls[i]? = some p) : s.settled i = p.settled := by
  unfold State.settled
  rw [h]
  rfl

theorem settled_set (hi : s.calls[i]? = some q) (hcalls : s'.calls = s.calls.set i p) :
    s'.settled j = if j = i then p.settled else s.settled j := by
  unfold State.settled
  rw [hcalls, List.getElem?_set]
  by_cases hji : j = i
  · subst hji
    obtain ⟨hlt, _⟩ := List.getElem?_eq_some_iff.mp hi
    simp [hlt]
  · rw [if_neg (Ne.symm hji), if_neg hji]

theorem settled_enter (hcalls : s'.calls = s.calls ++ [p]) :
    s'.settled j = if j = s.calls.length then p.settled else s.settled j := by
  unfold State.settled
  rw [hcalls, List.getElem?_append]
  by_cases hlt : j < s.calls.length
  · rw [if_pos hlt, if_neg (Nat.ne_of_lt hlt)]
  · rw [if_neg hlt]
    by_cases heq : j = s.calls.length
    · subst heq
      simp
    · rw [if_neg heq, List.getElem?_eq_none (by simp; omega), List.getElem?_eq_none (by omega)]

theorem settled_length : s.settled s.calls.length = none := by
  unfold State.settled
  rw [List.getElem?_eq_none (Nat.le_refl _)]
  rfl

/-- What a step does with the calls: nothing, a new one, one that keeps its token or loses it, or one that comes to it. -/
inductive Moves (s s' : State) (a : Action) : Prop
  | stays (hcalls : s'.calls = s.calls) (hdecides : decides s a = none)
  | enters (p : Phase) (hcalls : s'.calls = s.calls ++ [p]) (hdecides : decides s a = p.settled.map (s.calls.length, ·))
      (hlock : ∀ seen, p = .wantsLock seen → seen = s.obtained.length)
  | goesOn (i : Nat) (q p : Phase) (hi : s.calls[i]? = some q) (hcalls : s'.calls = s.calls.set i p)
      (hlock : ∀ seen, p ≠ .wantsLock seen) (hp : p.settled = q.settled ∨ p.settled = none) (hdecides : decides s a = none)
  | settles (i : Nat) (q p : Phase) (hi : s.calls[i]? = some q) (hcalls : s'.calls = s.calls.set i p)
      (hlock : ∀ seen, p ≠ .wantsLock seen) (hq : q.settled = none) (hdecides : decides s a = p.settled.map (i, ·))

theorem step_moves {a : Action} (hstep : step s a = some s') : Moves s s' a := by
  cases a with
  | tick seconds =>
    cases hstep
    exact .stays rfl rfl
  | setMqttUrl url =>
    simp only [BvConfig.step] at hstep
    split at hstep
    · cases hstep
    · cases hstep
      exact .stays rfl rfl
  | token =>
    simp only [BvConfig.step, BvConfig.token] at hstep
    split at hstep
    · cases hstep
    · split at hstep
      · next hexpired =>
        cases hstep
        exact .enters _ rfl (by simp [decides, taken, hexpired, Phase.settled]) (by simp)
      · next hexpired =>
        cases hstep
        exact .enters _ rfl (by simp [decides, taken, hexpired, Phase.settled]) (by simp)
      · next hexpired =>
        cases hstep
        refine .enters _ rfl (by simp [decides, taken, hexpired, Phase.settled]) fun seen heq => ?_
        cases heq
        rfl
  | acquire i =>
    simp only [BvConfig.step, BvConfig.acquire] at hstep
    split at hstep
    · next hcall _ =>
      split at hstep
      · next hexpired =>
        cases hstep
        exact .settles i _ _ hcall rfl (by simp) rfl (by simp [decides, taken, hexpired, Phase.settled])
      · next hexpired =>
        cases hstep
        exact .settles i _ _ hcall rfl (by simp) rfl (by simp [decides, taken, hexpired, Phase.settled])
      · next hexpired =>
        cases hstep
        exact .settles i _ _ hcall rfl (by simp) rfl (by simp [decides, taken, hexpired, Phase.settled])
    · cases hstep
  | reply i resp =>
    simp only [BvConfig.step, BvConfig.reply] at hstep
    split at hstep
    · next hcall =>
      split at hstep
      · cases hstep
        exact .settles i _ _ hcall rfl (by simp) rfl rfl
      · cases hstep
        exact .settles i _ _ hcall rfl (by simp) rfl rfl
    · cases hstep
  | prepare i =>
    simp only [BvConfig.step, BvConfig.prepare] at hstep
    split at hstep
    · next hcall _ =>
      cases hstep
      exact .goesOn i _ _ hcall rfl (by simp) (.inl rfl) rfl
    · cases hstep
  | load =>
    cases hstep
    unfold BvConfig.load
    split
    · exact .enters _ rfl rfl (by simp)
    · split
      · exact .enters _ rfl rfl (by simp)
      · exact .enters _ rfl rfl (by simp)
  | fillIn i net =>
    simp only [BvConfig.step, BvConfig.fillIn] at hstep
    split at hstep
    · next hcall =>
      split at hstep
      · split at hstep
        · cases hstep
          exact .goesOn i _ _ hcall rfl (by simp) (.inl rfl) rfl
        · cases hstep
          exact .goesOn i _ _ hcall rfl (by simp) (.inl rfl) rfl
      · cases hstep
        exact .goesOn i _ _ hcall rfl (by simp) (.inl rfl) rfl
    · cases hstep
  | save i covers =>
    simp only [BvConfig.step, BvConfig.save] at hstep
    split at hstep
    · next job content at_ hcall =>
      split at hstep
      · cases hstep
        refine .goesOn i _ _ hcall rfl (by simp) (.inl ?_) rfl
        cases job <;> rfl
      · cases hstep
        refine .goesOn i _ _ hcall rfl (by simp) (.inl ?_) rfl
        cases job <;> rfl
      · cases hstep
        refine .goesOn i _ _ hcall rfl (by simp) (.inr ?_) rfl
        cases job <;> rfl
    · cases hstep

/-- **What a step decides**: the call of `decides`, which had no token before. -/
theorem Moves.decided {a : Action} {tok : Token} (h : Moves s s' a) (hdecides : decides s a = some (j, tok)) :
    s.settled j = none ∧ s'.settled j = some tok := by
  cases h with
  | stays _ hnone => cases hnone.symm.trans hdecides
  | enters p hcalls hp _ =>
    obtain ⟨_, hp, heq⟩ := Option.map_eq_some_iff.mp (hp.symm.trans hdecides)
    cases heq
    refine ⟨settled_length, ?_⟩
    rw [settled_enter hcalls, if_pos rfl, hp]
  | goesOn i q p _ _ _ _ hnone => cases hnone.symm.trans hdecides
  | settles i q p hi hcalls _ hq hp =>
    obtain ⟨_, hp, heq⟩ := Option.map_eq_some_iff.mp (hp.symm.trans hdecides)
    cases heq
    refine ⟨(settled_of_get hi).trans hq, ?_⟩
    rw [settled_set hi hcalls, if_pos rfl, hp]

/-- A call that has its token after the step had it before, or is the one that was decided. -/
theorem Moves.settled {a : Action} {tok : Token} (h : Moves s s' a) (htok : s'.settled j = some tok) :
    s.settled j = some tok ∨ decides s a = some (j, tok) := by
  cases h with
  | stays hcalls _ =>
    left
    unfold State.settled at htok ⊢
    rwa [hcalls] at htok
  | enters p hcalls hp _ =>
    rw [settled_enter hcalls] at htok
    split at htok
    · next heq =>
      right
      rw [hp, htok, heq]
      rfl
    · exact .inl htok
  | goesOn i q p hi hcalls _ hp _ =>
    rw [settled_set hi hcalls] at htok
    split at htok
    · next heq =>
      left
      rw [heq, settled_of_get hi]
      obtain hsame | hnone := hp
      · rwa [← hsame]
      · cases hnone.symm.trans htok
    · exact .inl htok
  | settles i q p hi hcalls _ _ hp =>
    rw [settled_set hi hcalls] at htok
    split at htok
    · next heq =>
      right
      rw [hp, htok, heq]
      rfl
    · exact .inl htok

/-- A call comes to its token in a step if the step decides it. -/
theorem Moves.settles_iff {a : Action} {tok : Token} (h : Moves s s' a) :
    (s.settled j = none ∧ s'.settled j = some tok) ↔ decides s a = some (j, tok) := by
  constructor
  · intro hj
    obtain hold | hdecides := h.settled hj.2
    · cases hj.1.symm.trans hold
    · exact hdecides
  · exact h.decided

/-- A call that wants the lock wanted it before, or is new. -/
theorem Moves.wantsLock {a : Action} {seen : Nat} (h : Moves s s' a) (hj : s'.calls[j]? = some (.wantsLock seen)) :
    s.calls[j]? = some (.wantsLock seen) ∨ (j = s.calls.length ∧ seen = s.obtained.length) := by
  cases h with
  | stays hcalls _ =>
    rw [hcalls] at hj
    exact .inl hj
  | enters p hcalls _ hlock =>
    rw [hcalls] at hj
    obtain ⟨hj, heq⟩ | hj := getElem?_enter_cases hj
    · exact .inr ⟨hj, hlock seen heq.symm⟩
    · exact .inl hj
  | goesOn i q p _ hcalls hlock _ _ =>
    rw [hcalls] at hj
    obtain ⟨_, heq⟩ | ⟨_, hj⟩ := getElem?_set_cases hj
    · exact absurd heq.symm (hlock seen)
    · exact .inl hj
  | settles i q p _ hcalls hlock _ _ =>
    rw [hcalls] at hj
    obtain ⟨_, heq⟩ | ⟨_, hj⟩ := getElem?_set_cases hj
    · exact absurd heq.symm (hlock seen)
    · exact .inl hj

theorem Moves.length_le {a : Action} (h : Moves s s' a) : s.calls.length ≤ s'.calls.length := by
  cases h with
  | stays hcalls _ => simp [hcalls]
  | enters p hcalls _ _ => simp [hcalls]
  | goesOn i q p _ hcalls _ _ _ => simp [hcalls]
  | settles i q p _ hcalls _ _ _ => simp [hcalls]

theorem token_length (hstep : BvConfig.step s .token = some s') : s'.calls.length = s.calls.length + 1 := by
  simp only [BvConfig.step, BvConfig.token] at hstep
  split at hstep
  · cases hstep
  · split at hstep <;> cases hstep <;> simp [State.enter]

theorem taken_eq_some {call : Nat} {tok : Token} : taken s call = some (j, tok) ↔
    s.config.apiConfig.token.expired s.now = .ok false ∧ j = call ∧ tok = s.config.apiConfig.token := by
  unfold taken
  constructor
  · intro h
    split at h
    · next htaken =>
      cases h
      exact ⟨htaken, rfl, rfl⟩
    · cases h
  · intro h
    rw [h.1, h.2.1, h.2.2]

theorem acquire_wantsLock (hstep : BvConfig.step s (.acquire i) = some s') : ∃ seen, s.calls[i]? = some (.wantsLock seen) := by
  simp only [BvConfig.step, BvConfig.acquire] at hstep
  split at hstep
  · next seen hcall _ => exact ⟨seen, hcall⟩
  · cases hstep

/-! ## The tokens there have been -/

def history (config : Config) (s : State) : List Token := config.apiConfig.token :: s.obtained.map ApiConfig.token

/-- The token of a refresh that comes back. -/
def Action.answer : Action → List Token
  | .reply _ (.ok (tok, _)) => [tok]
  | _ => []

theorem history_step {config : Config} {a : Action} (hstep : step s a = some s') :
    history config s' = history config s ++ a.answer := by
  cases a with
  | tick seconds =>
    cases hstep
    simp [history, Action.answer]
  | setMqttUrl url =>
    simp only [BvConfig.step] at hstep
    split at hstep <;> cases hstep
    simp [history, Action.answer]
  | token =>
    simp only [BvConfig.step, BvConfig.token] at hstep
    split at hstep
    · cases hstep
    · split at hstep <;> cases hstep <;> simp [history, Action.answer, State.enter]
  | acquire i =>
    simp only [BvConfig.step, BvConfig.acquire] at hstep
    split at hstep
    · split at hstep <;> cases hstep <;> simp [history, Action.answer, State.setCall]
    · cases hstep
  | reply i resp =>
    simp only [BvConfig.step, BvConfig.reply] at hstep
    split at hstep
    · split at hstep <;> cases hstep <;> simp [history, Action.answer, State.setCall]
    · cases hstep
  | prepare i =>
    simp only [BvConfig.step, BvConfig.prepare] at hstep
    split at hstep <;> cases hstep
    simp [history, Action.answer, State.setCall]
  | load =>
    cases hstep
    unfold BvConfig.load
    split
    · simp [history, Action.answer, State.enter]
    · split <;> simp [history, Action.answer, State.enter]
  | fillIn i net =>
    simp only [BvConfig.step, BvConfig.fillIn] at hstep
    split at hstep
    · split at hstep
      · split at hstep <;> cases hstep <;> simp [history, Action.answer, State.setCall]
      · cases hstep
        simp [history, Action.answer, State.setCall]
    · cases hstep
  | save i covers =>
    simp only [BvConfig.step, BvConfig.save] at hstep
    split at hstep
    · split at hstep <;> cases hstep <;> simp [history, Action.answer, State.setCall]
    · cases hstep

/-- The token of the configuration is the last one. -/
theorem Generations.current {config : Config} (h : Generations config s) :
    (history config s)[s.obtained.length]? = some s.config.apiConfig.token := by
  rw [h.newest]
  unfold history
  obtain hnil | ⟨rest, last, hlast⟩ := List.eq_nil_or_concat s.obtained
  · rw [hnil]
    rfl
  · rw [hlast]
    simp

end

end BvConfig

/-! ## Clients -/

namespace Services

open BvConfig Machine

/-- A client: it asks for the token it is built with, holds one (and repeats with it a request for which another one was
rejected), was told that its token is expired, or asks for another one. -/
inductive Client where
  | connecting (call : Nat)
  | holds (tok : Token) (retryOf : Option Token)
  | rejected (tok : Token)
  | refreshing (rejected : Token) (call : Nat)
  | failed

/-- The token that the API took for expired. -/
def Client.rejectedToken : Client → Option Token
  | .rejected tok => some tok
  | _ => none

structure ApiState where
  shared : State
  clients : List Client

def start (now : Int) (config : Config) : ApiState := ⟨BvConfig.start now config, []⟩

inductive ApiAction where
  | shared (a : Action)
  | connect
  | connected (c : Nat)
  | reject (c : Nat) (ahead : Nat)
  | refresh (c : Nat)
  | answered (c : Nat)

def ApiState.setClient (s : ApiState) (c : Nat) (client : Client) : ApiState := { s with clients := s.clients.set c client }

/-- A client is back from the call for its token: with a new interceptor, or as it was. -/
def connected (s : ApiState) (c : Nat) : Option ApiState :=
  match s.clients[c]? with
  | some (.connecting call) =>
    match s.shared.calls[call]? with
    | some (.done (.token _ tok)) => some (s.setClient c (.holds tok none))
    | some (.done _) => some (s.setClient c .failed)
    | _ => none
  | some (.refreshing rejected call) =>
    match s.shared.calls[call]? with
    | some (.done (.token _ tok)) => some (s.setClient c (.holds tok (some rejected)))
    | some (.done _) => some (s.setClient c (.holds rejected none))
    | _ => none
  | _ => none

def step (s : ApiState) : ApiAction → Option ApiState
  | .shared a => (BvConfig.step s.shared a).map fun shared => { s with shared }
  | .connect =>
    (BvConfig.step s.shared .token).map fun shared =>
      { shared, clients := s.clients ++ [.connecting s.shared.calls.length] }
  | .connected c => connected s c
  | .reject c ahead =>
    match s.clients[c]? with
    | some (.holds tok none) =>
      if ahead ≤ 30 ∧ tok.passed (s.shared.now + ahead) then some (s.setClient c (.rejected tok)) else none
    | _ => none
  | .refresh c =>
    match s.clients[c]? with
    | some (.rejected tok) =>
      (BvConfig.step s.shared .token).map fun shared => { s.setClient c (.refreshing tok s.shared.calls.length) with shared }
    | _ => none
  | .answered c =>
    match s.clients[c]? with
    | some (.holds tok (some _)) => some (s.setClient c (.holds tok none))
    | _ => none

/-! ## Renewal -/

/-- A call that settles on a token takes one whose expiry is not passed, and for a rejected one another one. -/
def Renews (s : ApiState) (a : ApiAction) : Prop :=
  ∀ s', step s a = some s' → ∀ i tok, s.shared.settled i = none → s'.shared.settled i = some tok →
    ¬ tok.passed s.shared.now ∧ ∀ rejected, .refreshing rejected i ∈ s'.clients → tok ≠ rejected

/-- No request is sent again with the token it was rejected for. -/
def RetriesWithNew (s : ApiState) : Prop := ∀ tok rejected, .holds tok (some rejected) ∈ s.clients → tok ≠ rejected

/-- The refreshed token is a new one, its expiry to come. -/
def Fresh (config : Config) (s : ApiState) : ApiAction → Prop
  | .shared (.reply _ (.ok (tok, _))) =>
    ¬ tok.passed s.shared.now ∧ tok ∉ config.apiConfig.token :: s.shared.obtained.map ApiConfig.token
  | _ => True

/-- The token of the configuration is taken for valid. -/
def Taken (s : ApiState) : Prop := s.shared.config.apiConfig.token.expired s.shared.now = .ok false

/-- No call looks at the token of the configuration in the half minute after its expiry, and none does so for a client that
was rejected with that token, except later than that. -/
def Clear (s : ApiState) : ApiAction → Prop
  | .shared .token => Taken s → ¬ s.shared.config.apiConfig.token.passed s.shared.now
  | .shared (.acquire _) => Taken s → ¬ s.shared.config.apiConfig.token.passed s.shared.now
  | .connect => Taken s → ¬ s.shared.config.apiConfig.token.passed s.shared.now
  | .refresh c => Taken s → ¬ s.shared.config.apiConfig.token.passed s.shared.now ∧
      s.clients[c]?.bind Client.rejectedToken ≠ some s.shared.config.apiConfig.token
  | _ => True

instance (s : ApiState) : Decidable (Taken s) := inferInstanceAs (Decidable (_ = _))

instance (s : ApiState) : (a : ApiAction) → Decidable (Clear s a)
  | .shared .token | .shared (.acquire _) | .connect => inferInstanceAs (Decidable (_ → _))
  | .refresh _ => inferInstanceAs (Decidable (_ → _ ∧ _))
  | .shared (.tick _) | .shared (.setMqttUrl _) | .shared (.reply ..) | .shared (.prepare _) | .shared .load
  | .shared (.fillIn ..) | .shared (.save ..) | .connected _ | .reject .. | .answered _ => .isTrue trivial

instance (config : Config) (s : ApiState) : (a : ApiAction) → Decidable (Fresh config s a)
  | .shared (.reply _ (.ok _)) => inferInstanceAs (Decidable (_ ∧ _))
  | .shared (.reply _ (.error _)) => .isTrue trivial
  | .shared (.tick _) | .shared (.setMqttUrl _) | .shared .token | .shared (.acquire _) | .shared (.prepare _) | .shared .load
  | .shared (.fillIn ..) | .shared (.save ..) | .connect | .connected _ | .reject .. | .refresh _ | .answered _ => .isTrue trivial

/-! ## The tokens of the clients -/

variable {config : Config} {s s' : ApiState}

/-- A client has had its token from the configuration; where it is rejected, that was before the call for another one looked
there. -/
def Holding (config : Config) (s : State) : Client → Prop
  | .connecting call => call < s.calls.length
  | .holds tok _ => tok ∈ history config s
  | .rejected tok => tok ∈ history config s
  | .refreshing rejected call => call < s.calls.length ∧ rejected ∈ history config s ∧
      ∀ seen, s.calls[call]? = some (.wantsLock seen) → rejected ∈ (history config s).take (seen + 1)
  | .failed => True

structure ApiInv (config : Config) (s : ApiState) : Prop where
  generations : Generations config s.shared
  nodup : (history config s.shared).Nodup
  settled : ∀ i tok, s.shared.settled i = some tok → tok ∈ history config s.shared
  clients : ∀ client ∈ s.clients, Holding config s.shared client

theorem history_length (config : Config) (s : State) : (history config s).length = s.obtained.length + 1 := by
  simp [history]

theorem current_mem {s : State} (h : Generations config s) : s.config.apiConfig.token ∈ history config s :=
  List.mem_of_getElem? h.current

/-- What a step decides is a token there was, or the one that comes back. -/
theorem decides_mem {s : State} (h : Generations config s) {a : Action} {i : Nat} {tok : Token}
    (hdecides : decides s a = some (i, tok)) : tok ∈ history config s ∨ tok ∈ a.answer := by
  unfold decides at hdecides
  split at hdecides
  · obtain ⟨_, _, rfl⟩ := taken_eq_some.mp hdecides
    exact .inl (current_mem h)
  · obtain ⟨_, _, rfl⟩ := taken_eq_some.mp hdecides
    exact .inl (current_mem h)
  · cases hdecides
    exact .inr (List.mem_singleton.mpr rfl)
  · cases hdecides

/-- What a client holds stays, as the shared configuration goes on. -/
theorem Holding.mono {t t' : State} {a : Action} {client : Client} (h : Holding config t client) (hgen : Generations config t)
    (hstep : BvConfig.step t a = some t') : Holding config t' client := by
  have hmoves := step_moves hstep
  have hhistory : history config t' = history config t ++ a.answer := history_step hstep
  have hmem : ∀ {tok : Token}, tok ∈ history config t → tok ∈ history config t' := fun htok => by
    rw [hhistory]
    exact List.mem_append_left _ htok
  cases client with
  | connecting call => exact Nat.lt_of_lt_of_le h hmoves.length_le
  | holds tok _ => exact hmem h
  | rejected tok => exact hmem h
  | failed => trivial
  | refreshing rejected call =>
    obtain ⟨hcall, hrejected, hseen⟩ := h
    refine ⟨Nat.lt_of_lt_of_le hcall hmoves.length_le, hmem hrejected, fun seen hwants => ?_⟩
    obtain hwants | ⟨heq, _⟩ := hmoves.wantsLock hwants
    · have htake := hseen seen hwants
      rw [hhistory, List.take_append_of_le_length]
      · exact htake
      · have hle := (hgen.calls call _ hwants).1
        rw [history_length]
        omega
    · omega

theorem ApiInv.shared (h : ApiInv config s) {a : Action} {shared : State} (hfresh : Fresh config s (.shared a))
    (hstep : BvConfig.step s.shared a = some shared) : ApiInv config { s with shared } where
  generations := h.generations.step hstep
  nodup := by
    show (history config shared).Nodup
    rw [history_step hstep, List.nodup_append]
    refine ⟨h.nodup, ?_, ?_⟩
    · unfold Action.answer
      split <;> simp
    · intro tok htok other hother heq
      unfold Action.answer at hother
      split at hother
      · rw [List.mem_singleton.mp hother] at heq
        exact hfresh.2 (heq ▸ htok)
      · cases hother
  settled i tok htok := by
    show tok ∈ history config shared
    rw [history_step hstep]
    obtain hold | hdecides := (step_moves hstep).settled htok
    · exact List.mem_append_left _ (h.settled i tok hold)
    · exact List.mem_append.mpr (decides_mem h.generations hdecides)
  clients client hclient := (h.clients client hclient).mono h.generations hstep

/-- A client goes on. -/
theorem ApiInv.setClient (h : ApiInv config s) {c : Nat} {client : Client} (hclient : Holding config s.shared client) :
    ApiInv config (s.setClient c client) where
  generations := h.generations
  nodup := h.nodup
  settled := h.settled
  clients other hother := by
    obtain hother | rfl := List.mem_or_eq_of_mem_set hother
    · exact h.clients other hother
    · exact hclient

theorem ApiInv.connected (h : ApiInv config s) {c : Nat} (hstep : connected s c = some s') : ApiInv config s' := by
  unfold Services.connected at hstep
  have hdone : ∀ {call : Nat} {seen : Option Nat} {tok : Token}, s.shared.calls[call]? = some (.done (.token seen tok)) →
      tok ∈ history config s.shared := fun hcall => h.settled _ _ (settled_of_get hcall)
  split at hstep
  · split at hstep
    · next hcall =>
      cases hstep
      exact h.setClient (hdone hcall)
    · cases hstep
      exact h.setClient trivial
    · cases hstep
  · next rejected call hclient =>
    have hrejected : rejected ∈ history config s.shared := (h.clients _ (List.mem_of_getElem? hclient)).2.1
    split at hstep
    · next hcall =>
      cases hstep
      exact h.setClient (hdone hcall)
    · cases hstep
      exact h.setClient hrejected
    · cases hstep
  · cases hstep

theorem ApiInv.step {a : ApiAction} (h : ApiInv config s) (hfresh : Fresh config s a) (hstep : step s a = some s') :
    ApiInv config s' := by
  cases a with
  | shared a =>
    obtain ⟨shared, hshared, rfl⟩ := Option.map_eq_some_iff.mp hstep
    exact h.shared hfresh hshared
  | connect =>
    obtain ⟨shared, hshared, rfl⟩ := Option.map_eq_some_iff.mp hstep
    have hnext := h.shared (a := .token) trivial hshared
    refine ⟨hnext.generations, hnext.nodup, hnext.settled, fun client hclient => ?_⟩
    obtain hclient | hclient := List.mem_append.mp hclient
    · exact hnext.clients client hclient
    · rw [List.mem_singleton.mp hclient]
      show s.shared.calls.length < shared.calls.length
      rw [token_length hshared]
      omega
  | connected c => exact h.connected hstep
  | reject c ahead =>
    simp only [Services.step] at hstep
    split at hstep
    · next tok hclient =>
      split at hstep
      · cases hstep
        have htok : tok ∈ history config s.shared := h.clients _ (List.mem_of_getElem? hclient)
        exact h.setClient htok
      · cases hstep
    · cases hstep
  | refresh c =>
    simp only [Services.step] at hstep
    split at hstep
    · next tok hclient =>
      obtain ⟨shared, hshared, rfl⟩ := Option.map_eq_some_iff.mp hstep
      have htok : tok ∈ history config s.shared := h.clients _ (List.mem_of_getElem? hclient)
      have hnext := h.shared (a := .token) trivial hshared
      have hhistory : history config shared = history config s.shared := by
        rw [history_step hshared]
        exact List.append_nil _
      refine ⟨hnext.generations, hnext.nodup, hnext.settled, fun client hclient => ?_⟩
      obtain hclient | rfl := List.mem_or_eq_of_mem_set hclient
      · exact hnext.clients client hclient
      · refine ⟨?_, hhistory ▸ htok, fun seen hwants => ?_⟩
        · show s.shared.calls.length < shared.calls.length
          rw [token_length hshared]
          omega
        · obtain hwants | ⟨_, rfl⟩ := (step_moves hshared).wantsLock hwants
          · rw [List.getElem?_eq_none (Nat.le_refl _)] at hwants
            cases hwants
          · show tok ∈ (history config shared).take _
            rw [hhistory, List.take_of_length_le (Nat.le_of_eq (history_length ..))]
            exact htok
    · cases hstep
  | answered c =>
    simp only [Services.step] at hstep
    split at hstep
    · next tok _ hclient =>
      cases hstep
      have htok : tok ∈ history config s.shared := h.clients _ (List.mem_of_getElem? hclient)
      exact h.setClient htok
    · cases hstep

theorem apiInv_start (now : Int) (config : Config) : ApiInv config (start now config) where
  generations := generations_start now config
  nodup := List.nodup_singleton _
  settled i tok htok := by simp [start, BvConfig.start, State.settled] at htok
  clients client hclient := nomatch hclient

/-! ## When they are renewed -/

/-- A call that takes the lock and finds the token valid finds another one than a client that waits for it was rejected with. -/
theorem ApiInv.acquired (h : ApiInv config s) {i seen : Nat} (hcall : s.shared.calls[i]? = some (.wantsLock seen)) (htaken : Taken s)
    {rejected : Token} (hclient : .refreshing rejected i ∈ s.clients) : s.shared.config.apiConfig.token ≠ rejected := by
  intro heq
  obtain ⟨hle, hexpired⟩ := h.generations.calls i _ hcall
  have hlt : seen < s.shared.obtained.length := by
    refine Nat.lt_of_le_of_ne hle fun hsame => ?_
    cases (hexpired hsame).symm.trans htaken
  obtain ⟨_, _, htake⟩ := h.clients _ hclient
  obtain ⟨k, hk, hget⟩ := List.mem_take_iff_getElem.mp (htake seen hcall)
  have hlast := h.generations.current
  obtain ⟨hlen, hlast⟩ := List.getElem?_eq_some_iff.mp hlast
  have hindex : k = s.shared.obtained.length :=
    (List.Nodup.getElem_inj_iff h.nodup).mp (hget.trans (heq.symm.trans hlast.symm))
  omega

/-- What a step of the shared configuration has to decide well. -/
theorem renews_iff_decides {a : ApiAction} {b : Action} {shared : State} (hstep : step s a = some s')
    (hshared : BvConfig.step s.shared b = some shared) (heq : s'.shared = shared) :
    Renews s a ↔ ∀ i tok, decides s.shared b = some (i, tok) →
      ¬ tok.passed s.shared.now ∧ ∀ rejected, .refreshing rejected i ∈ s'.clients → tok ≠ rejected := by
  have hmoves := step_moves hshared
  constructor
  · intro h i tok hdecides
    obtain ⟨hnone, hsome⟩ := hmoves.settles_iff.mpr hdecides
    exact h s' hstep i tok hnone (heq ▸ hsome)
  · intro h t ht i tok hnone hsome
    cases hstep.symm.trans ht
    exact h i tok (hmoves.settles_iff.mp ⟨hnone, heq ▸ hsome⟩)

/-- A step of the clients alone has nothing to decide. -/
theorem renews_of_shared {a : ApiAction} (hstep : step s a = some s') (heq : s'.shared = s.shared) : Renews s a := by
  intro t ht i tok hnone hsome
  cases hstep.symm.trans ht
  rw [heq, hnone] at hsome
  cases hsome

/-- The call is new, so it is none that a client waits for. -/
theorem ApiInv.new_call (h : ApiInv config s) {rejected : Token} : .refreshing rejected s.shared.calls.length ∉ s.clients :=
  fun hmem => Nat.lt_irrefl _ (h.clients _ hmem).1

theorem renews_iff_clear {a : ApiAction} (h : ApiInv config s) (hfresh : Fresh config s a) (hstep : step s a = some s') :
    Renews s a ↔ Clear s a := by
  cases a with
  | shared b =>
    obtain ⟨shared, hshared, rfl⟩ := Option.map_eq_some_iff.mp hstep
    rw [renews_iff_decides hstep hshared rfl]
    cases b with
    | token =>
      constructor
      · intro hrenews htaken
        exact (hrenews _ _ (taken_eq_some.mpr ⟨htaken, rfl, rfl⟩)).1
      · intro hclear i tok hdecides
        obtain ⟨htaken, rfl, rfl⟩ := taken_eq_some.mp hdecides
        exact ⟨hclear htaken, fun rejected hmem => absurd hmem h.new_call⟩
    | acquire i =>
      obtain ⟨seen, hcall⟩ := acquire_wantsLock hshared
      constructor
      · intro hrenews htaken
        exact (hrenews _ _ (taken_eq_some.mpr ⟨htaken, rfl, rfl⟩)).1
      · intro hclear j tok hdecides
        obtain ⟨htaken, rfl, rfl⟩ := taken_eq_some.mp hdecides
        exact ⟨hclear htaken, fun rejected hmem => h.acquired hcall htaken hmem⟩
    | reply i resp =>
      refine ⟨fun _ => trivial, fun _ j tok hdecides => ?_⟩
      cases resp with
      | error e => cases hdecides
      | ok answer =>
        cases hdecides
        refine ⟨hfresh.1, fun rejected hmem heq => ?_⟩
        exact hfresh.2 (heq ▸ (h.clients _ hmem).2.1)
    | _ => exact ⟨fun _ => trivial, fun _ _ _ hdecides => by cases hdecides⟩
  | connect =>
    obtain ⟨shared, hshared, rfl⟩ := Option.map_eq_some_iff.mp hstep
    rw [renews_iff_decides hstep hshared rfl]
    constructor
    · intro hrenews htaken
      exact (hrenews _ _ (taken_eq_some.mpr ⟨htaken, rfl, rfl⟩)).1
    · intro hclear i tok hdecides
      obtain ⟨htaken, rfl, rfl⟩ := taken_eq_some.mp hdecides
      refine ⟨hclear htaken, fun rejected hmem => ?_⟩
      obtain hmem | hmem := List.mem_append.mp hmem
      · exact absurd hmem h.new_call
      · cases List.mem_singleton.mp hmem
  | refresh c =>
    have hstep' := hstep
    simp only [Services.step] at hstep'
    split at hstep'
    · next old hclient =>
      obtain ⟨shared, hshared, rfl⟩ := Option.map_eq_some_iff.mp hstep'
      rw [renews_iff_decides hstep hshared rfl]
      obtain ⟨hlt, _⟩ := List.getElem?_eq_some_iff.mp hclient
      constructor
      · intro hrenews htaken
        obtain ⟨hpassed, hothers⟩ := hrenews _ _ (taken_eq_some.mpr ⟨htaken, rfl, rfl⟩)
        refine ⟨hpassed, fun hsame => ?_⟩
        rw [hclient] at hsame
        have hold : old = s.shared.config.apiConfig.token := Option.some.inj hsame
        exact hothers old (List.mem_set hlt ..) hold.symm
      · intro hclear i tok hdecides
        obtain ⟨htaken, rfl, rfl⟩ := taken_eq_some.mp hdecides
        obtain ⟨hpassed, hothers⟩ := hclear htaken
        refine ⟨hpassed, fun rejected hmem => ?_⟩
        obtain hmem | heq := List.mem_or_eq_of_mem_set hmem
        · exact absurd hmem h.new_call
        · cases heq
          refine fun hsame => hothers ?_
          rw [hclient, hsame]
          rfl
    · cases hstep'
  | connected c =>
    refine ⟨fun _ => trivial, fun _ => renews_of_shared hstep ?_⟩
    simp only [Services.step, Services.connected] at hstep
    split at hstep
    · split at hstep <;> cases hstep <;> rfl
    · split at hstep <;> cases hstep <;> rfl
    · cases hstep
  | reject c ahead =>
    refine ⟨fun _ => trivial, fun _ => renews_of_shared hstep ?_⟩
    simp only [Services.step] at hstep
    split at hstep
    · split at hstep <;> cases hstep
      rfl
    · cases hstep
  | answered c =>
    refine ⟨fun _ => trivial, fun _ => renews_of_shared hstep ?_⟩
    simp only [Services.step] at hstep
    split at hstep <;> cases hstep
    rfl

/-- What a step does: to the shared configuration, at most with a new call for a client, or to a client alone. -/
inductive Effect (s s' : ApiState) : Prop
  | shared (a : Action) (hshared : BvConfig.step s.shared a = some s'.shared)
      (hclients : ∀ client ∈ s'.clients, client ∈ s.clients ∨ client = .connecting s.shared.calls.length ∨
        ∃ tok, client = .refreshing tok s.shared.calls.length)
  | client (c : Nat) (client : Client) (hshared : s'.shared = s.shared) (hclients : s'.clients = s.clients.set c client)
      (hrefreshing : ∀ rejected call, client ≠ .refreshing rejected call)
      (hretry : ∀ tok rejected, client = .holds tok (some rejected) →
        ∃ call, .refreshing rejected call ∈ s.clients ∧ s.shared.settled call = some tok)

theorem step_effect {a : ApiAction} (hstep : step s a = some s') : Effect s s' := by
  cases a with
  | shared b =>
    obtain ⟨shared, hshared, rfl⟩ := Option.map_eq_some_iff.mp hstep
    exact .shared b hshared fun client hmem => .inl hmem
  | connect =>
    obtain ⟨shared, hshared, rfl⟩ := Option.map_eq_some_iff.mp hstep
    refine .shared .token hshared fun client hmem => ?_
    obtain hmem | hmem := List.mem_append.mp hmem
    · exact .inl hmem
    · exact .inr (.inl (List.mem_singleton.mp hmem))
  | refresh c =>
    simp only [Services.step] at hstep
    split at hstep
    · next tok _ =>
      obtain ⟨shared, hshared, rfl⟩ := Option.map_eq_some_iff.mp hstep
      refine .shared .token hshared fun client hmem => ?_
      obtain hmem | heq := List.mem_or_eq_of_mem_set hmem
      · exact .inl hmem
      · exact .inr (.inr ⟨tok, heq⟩)
    · cases hstep
  | connected c =>
    simp only [Services.step, Services.connected] at hstep
    split at hstep
    · split at hstep <;> cases hstep
      · exact .client c _ rfl rfl nofun nofun
      · exact .client c _ rfl rfl nofun nofun
    · next rejected call hclient =>
      split at hstep
      · next hcall =>
        cases hstep
        refine .client c _ rfl rfl nofun fun tok other heq => ?_
        cases heq
        exact ⟨call, List.mem_of_getElem? hclient, settled_of_get hcall⟩
      · cases hstep
        exact .client c _ rfl rfl nofun nofun
      · cases hstep
    · cases hstep
  | reject c ahead =>
    simp only [Services.step] at hstep
    split at hstep
    · split at hstep <;> cases hstep
      exact .client c _ rfl rfl nofun nofun
    · cases hstep
  | answered c =>
    simp only [Services.step] at hstep
    split at hstep <;> cases hstep
    exact .client c _ rfl rfl nofun nofun

/-- A client that waits for another token waited for it before, or waits for a new call. -/
theorem Effect.refreshing {rejected : Token} {call : Nat} (h : Effect s s') (hmem : .refreshing rejected call ∈ s'.clients) :
    .refreshing rejected call ∈ s.clients ∨ call = s.shared.calls.length := by
  cases h with
  | shared a _ hclients =>
    obtain hold | heq | ⟨tok, heq⟩ := hclients _ hmem
    · exact .inl hold
    · cases heq
    · cases heq
      exact .inr rfl
  | client c client _ hclients hrefreshing _ =>
    rw [hclients] at hmem
    obtain hold | heq := List.mem_or_eq_of_mem_set hmem
    · exact .inl hold
    · exact absurd heq.symm (hrefreshing rejected call)

/-- A client that sends a request again did so before, or waited for the token it does so with. -/
theorem Effect.retry {tok rejected : Token} (h : Effect s s') (hmem : .holds tok (some rejected) ∈ s'.clients) :
    .holds tok (some rejected) ∈ s.clients ∨ ∃ call, .refreshing rejected call ∈ s.clients ∧ s.shared.settled call = some tok := by
  cases h with
  | shared a _ hclients =>
    obtain hold | heq | ⟨_, heq⟩ := hclients _ hmem
    · exact .inl hold
    · cases heq
    · cases heq
  | client c client _ hclients _ hretry =>
    rw [hclients] at hmem
    obtain hold | heq := List.mem_or_eq_of_mem_set hmem
    · exact .inl hold
    · exact .inr (hretry tok rejected heq.symm)

/-- A call that has its token had none before, or the same. -/
theorem Effect.settled {call : Nat} {tok : Token} (h : Effect s s') (htok : s'.shared.settled call = some tok) :
    s.shared.settled call = none ∨ s.shared.settled call = some tok := by
  cases h with
  | shared a hshared _ =>
    have hmoves := step_moves hshared
    obtain hold | hdecides := hmoves.settled htok
    · exact .inr hold
    · exact .inl (hmoves.decided hdecides).1
  | client c client hshared _ _ _ => exact .inr (hshared ▸ htok)

/-- No request is, or is to be, sent again with the token it was rejected for. -/
structure Renewed (s : ApiState) : Prop where
  retries : RetriesWithNew s
  refreshing : ∀ rejected call tok, .refreshing rejected call ∈ s.clients → s.shared.settled call = some tok → tok ≠ rejected

theorem Renewed.step {a : ApiAction} (h : Renewed s) (hrenews : Renews s a) (hstep : step s a = some s') : Renewed s' where
  retries tok rejected hmem := by
    obtain hmem | ⟨call, hmem, hsettled⟩ := (step_effect hstep).retry hmem
    · exact h.retries tok rejected hmem
    · exact h.refreshing rejected call tok hmem hsettled
  refreshing rejected call tok hmem hsettled := by
    obtain hnone | hsame := (step_effect hstep).settled hsettled
    · exact (hrenews s' hstep call tok hnone hsettled).2 rejected hmem
    · obtain hold | rfl := (step_effect hstep).refreshing hmem
      · exact h.refreshing rejected call tok hold hsame
      · rw [settled_length] at hsame
        cases hsame

/-- **Tokens are renewed in time** exactly where no call looks at the token of the configuration in the half minute after its
expiry, and none does so for a client that was rejected with this token, except later than that. Then no request is sent again
with the token it was rejected for. -/
theorem tokens_renewed_iff {now : Int} {config : Config} {acts : List ApiAction} {s : ApiState}
    (hfresh : Along step (Fresh config) (start now config) acts) (hrun : run step (start now config) acts = some s) :
    (Along step Renews (start now config) acts ↔ Along step Clear (start now config) acts) ∧
      (Along step Renews (start now config) acts → RetriesWithNew s) := by
  constructor
  · exact along_congr_along step (I := ApiInv config) (fun _ _ _ h hf hs => renews_iff_clear h hf hs)
      (fun _ _ _ h hf hs => h.step hf hs) (apiInv_start now config) hfresh hrun
  · intro hrenews
    have hstart : Renewed (start now config) := ⟨fun _ _ hmem => (nomatch hmem), fun _ _ _ hmem => (nomatch hmem)⟩
    exact (run_invariant step (fun _ _ _ h hok hs => Renewed.step h hok hs) hstart hrenews hrun).retries

/-- A call saves the configuration. -/
def saved (call : Nat) : List ApiAction := .shared (.prepare call) :: List.replicate 7 (.shared (.save call true))

/-- A client is built with a token that is long expired, and rejected with the next one long after it expired. -/
def renewedTwice : List ApiAction :=
  [.connect, .shared (.acquire 0), .shared (.reply 0 renewal)] ++ saved 0 ++
    [.connected 0, .shared (.tick 1000), .reject 0 0, .refresh 0, .shared (.acquire 1),
      .shared (.reply 1 (.ok (⟨"t2", .ok 3000⟩, "r2")))] ++ saved 1 ++ [.connected 0]

theorem tokens_renewed_twice : ∃ s, run step (start 100 stale) renewedTwice = some s ∧
    Along step Renews (start 100 stale) renewedTwice ∧ RetriesWithNew s := by
  have hruns : (run step (start 100 stale) renewedTwice).isSome = true := by decide
  have hfresh : Along step (Fresh stale) (start 100 stale) renewedTwice := by decide
  have hclear : Along step Clear (start 100 stale) renewedTwice := by decide
  obtain ⟨s, hrun⟩ := Option.isSome_iff_exists.mp hruns
  obtain ⟨hiff, hretries⟩ := tokens_renewed_iff hfresh hrun
  exact ⟨s, hrun, hiff.mpr hclear, hretries (hiff.mpr hclear)⟩

/-- A token that expires at 1000. -/
def current : Config := { stale with apiConfig := ⟨⟨"t1", .ok 1000⟩, "r1", "https://api"⟩ }

/-- Ten seconds before, the API takes the token for expired. -/
def rejectedEarly : List ApiAction := [.connect, .connected 0, .reject 0 30, .refresh 0, .connected 0]

/-- **The rejected token again**: the request is sent again with the token it was rejected for. -/
theorem rejected_token_again : ¬ ∀ (now : Int) (config : Config) (acts : List ApiAction) (s : ApiState),
    Along step (Fresh config) (start now config) acts → run step (start now config) acts = some s →
    Along step Renews (start now config) acts ∧ RetriesWithNew s := by
  intro h
  let token : Token := ⟨"t1", .ok 1000⟩
  have hruns : (run step (start 990 current) rejectedEarly).map (·.clients) = some [.holds token (some token)] := rfl
  obtain ⟨s, hrun, hclients⟩ := Option.map_eq_some_iff.mp hruns
  have hretries := (h 990 current rejectedEarly s (by decide) hrun).2
  refine hretries token token ?_ rfl
  rw [hclients]
  exact List.mem_singleton_self _

end Services

end Blockvisor
