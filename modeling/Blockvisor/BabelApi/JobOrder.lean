/-
Jobs that a plugin creates and starts one after another, and the order in which
the manager runs them. `Layers` is about a plan: what is to be done before a job
comes earlier in the plan, and is among the job's dependencies or to be done
before one of these. `Ordered` is about the registry: a job of the plan that
has begun has all done that is to be done before it.

Passes keep the order, by `Layers`, unless one ends a job for a dependency that
is broken (`Ordered.pass`); and so do the calls that create and start the next
job (`Following.attempt`), since nothing waits yet for what is created last.

`lax` says what counts as done: a job that succeeded, or one that is over.
-/
import Blockvisor.BabelApi.PluginRun

namespace Blockvisor

open Machine RhaiPlugin Script

/-! ## Plans -/

def JobState.done (lax : Bool) : JobState → Bool
  | .inactive (.finished exitCode _) => lax || exitCode = some 0
  | .inactive .stopped => lax
  | _ => false

/-- The job has had its dependencies met; one that is Stopped may have had, if it was started. -/
def JobState.begun (lax started : Bool) : JobState → Bool
  | .active _ => true
  | .inactive .running => true
  | .inactive (.finished exitCode _) => lax || exitCode = some 0
  | .inactive .stopped => lax && started
  | .inactive (.pending _) => false

theorem JobState.done_decided {lax : Bool} {state : JobState} (h : state.done lax = true) : state.decided = true := by
  cases state with
  | active pid => cases h
  | inactive status =>
    cases status with
    | finished exitCode message => rfl
    | stopped => rfl
    | running => cases h
    | pending waitingFor => cases h

theorem JobState.decided_done {state : JobState} (h : state.decided = true) : state.done true = true := by
  cases state with
  | active pid => cases h
  | inactive status =>
    cases status with
    | finished exitCode message => simp [JobState.done]
    | stopped => rfl
    | running => cases h
    | pending waitingFor => cases h

theorem JobState.done_begun {lax started : Bool} {state : JobState} (h : state.done lax = true) (hstarted : lax = true → started = true) :
    state.begun lax started = true := by
  cases state with
  | active pid => cases h
  | inactive status =>
    cases status with
    | finished exitCode message => exact h
    | stopped =>
      have hlax : lax = true := h
      simp [JobState.begun, hlax, hstarted hlax]
    | running => cases h
    | pending waitingFor => cases h

theorem JobState.succeeded_done {job : Job} (lax : Bool) (h : JobSlot.Succeeded job) : job.state.done lax = true := by
  obtain ⟨message, hstate⟩ := h
  rw [hstate]
  simp [JobState.done]

theorem JobState.succeeded_begun {job : Job} (lax started : Bool) (h : JobSlot.Succeeded job) :
    job.state.begun lax started = true := by
  obtain ⟨message, hstate⟩ := h
  rw [hstate]
  simp [JobState.begun]

/-- What is to be done before a job of the plan comes before it there, and the job depends on it, or on
something it is to be done before. -/
def Layers (lax : Bool) (after : String → List String) (plan : JobPlan) : Prop :=
  ∀ first name config rest, plan = first ++ (name, config) :: rest → ∀ d ∈ after name, d ∈ names plan →
    d ∈ names first ∧ ∃ d' ∈ names first, (d' ∈ config.needs.getD [] ∨ lax = true ∧ d' ∈ config.waitFor.getD []) ∧
      (d' = d ∨ d ∈ after d')

/-- Before these jobs there is nothing to be done. -/
theorem Layers.of_none {lax : Bool} {after : String → List String} {plan : JobPlan} (h : ∀ name ∈ names plan, after name = []) :
    Layers lax after plan := by
  intro first name config rest hplan d hd
  have hmem : name ∈ names plan := by
    rw [hplan]
    exact List.mem_map_of_mem (f := Prod.fst) (List.mem_append_right first List.mem_cons_self)
  rw [h name hmem] at hd
  cases hd

/-- A plan goes on with jobs before which only earlier ones are to be done. -/
theorem Layers.append {lax : Bool} {after : String → List String} {front back : JobPlan} (hfront : Layers lax after front)
    (hlater : ∀ name ∈ names front, ∀ d ∈ after name, d ∉ names back)
    (hback : ∀ name config, (name, config) ∈ back → ∀ d ∈ after name, d ∈ names (front ++ back) → d ∈ names front ∧
      ∃ d' ∈ names front, (d' ∈ config.needs.getD [] ∨ lax = true ∧ d' ∈ config.waitFor.getD []) ∧ (d' = d ∨ d ∈ after d')) :
    Layers lax after (front ++ back) := by
  intro first name config rest hplan d hd hmem
  have hlate : ∀ {more : JobPlan}, first = front ++ more → back = more ++ (name, config) :: rest →
      d ∈ names first ∧ ∃ d' ∈ names first, (d' ∈ config.needs.getD [] ∨ lax = true ∧ d' ∈ config.waitFor.getD []) ∧
        (d' = d ∨ d ∈ after d') := by
    intro more hfirst hsplit
    have hcreated : (name, config) ∈ back := hsplit ▸ List.mem_append_right more List.mem_cons_self
    obtain ⟨hbefore, d', hd', hdep⟩ := hback name config hcreated d hd hmem
    have hsub : ∀ n ∈ names front, n ∈ names first := fun n hn => by
      rw [hfirst, names_append]
      exact List.mem_append_left _ hn
    exact ⟨hsub d hbefore, d', hsub d' hd', hdep⟩
  cases List.append_eq_append_iff.mp hplan with
  | inl hlonger =>
    obtain ⟨more, hfirst, hsplit⟩ := hlonger
    exact hlate hfirst hsplit
  | inr hshorter =>
    obtain ⟨more, hsplit, hrest⟩ := hshorter
    cases more with
    | nil =>
      have hfirst : first = front ++ [] := by rw [hsplit, List.append_nil, List.append_nil]
      exact hlate hfirst hrest.symm
    | cons job more =>
      cases hrest
      have hname : name ∈ names front := by
        rw [hsplit]
        exact List.mem_map_of_mem (f := Prod.fst) (List.mem_append_right first List.mem_cons_self)
      rw [names_append] at hmem
      have hdmem : d ∈ names front := (List.mem_append.mp hmem).resolve_right (hlater name hname d hd)
      exact hfront first name config more hsplit d hd hdmem

/-! ## The registry -/

/-- The jobs created so far: those that were started, and one that may not have been. -/
def createdPlan (started : JobPlan) (fresh : Option (String × Engine.JobConfig)) : JobPlan := started ++ fresh.toList

/-- The registry has the jobs created so far, the others but the free ones do not run, and what begun
was in order. -/
structure Ordered (lax : Bool) (after : String → List String) (free : String → Prop) (started : JobPlan)
    (fresh : Option (String × Engine.JobConfig)) (deps : String → Option Job) : Prop where
  config : ∀ name config, (name, config) ∈ createdPlan started fresh → ∃ state, deps name = some ⟨managerConfig config, state⟩
  others : ∀ name, ¬ free name → name ∉ names (createdPlan started fresh) → ∀ job, deps name = some job →
    job.state = .inactive .stopped
  order : ∀ name ∈ names (createdPlan started fresh), ∀ job, deps name = some job →
    job.state.begun lax (decide (name ∈ names started)) = true →
    ∀ d ∈ after name, d ∈ names (createdPlan started fresh) → ∃ job', deps d = some job' ∧ job'.state.done lax = true

section

variable {lax : Bool} {after : String → List String} {free : String → Prop} {plan started : JobPlan}
  {fresh : Option (String × Engine.JobConfig)} {deps deps' : String → Option Job} {breaks : String → Bool}

theorem mem_names_of {name : String} {config : Engine.JobConfig} {plan : JobPlan} (h : (name, config) ∈ plan) : name ∈ names plan :=
  List.mem_map_of_mem (f := Prod.fst) h

theorem names_createdPlan : names (createdPlan started fresh) = names started ++ names fresh.toList := names_append _ _

theorem mem_newest {name : String} {config : Engine.JobConfig} : name ∈ names (createdPlan started (some (name, config))) := by
  rw [names_createdPlan]
  exact List.mem_append_right _ (List.mem_singleton_self name)

/-- Where a created job stands in the plan: those before it have been started. -/
theorem created_split (hbegins : createdPlan started fresh <+: plan) {name : String} (h : name ∈ names (createdPlan started fresh)) :
    ∃ first config rest, plan = first ++ (name, config) :: rest ∧ (name, config) ∈ createdPlan started fresh ∧
      ∀ d ∈ names first, d ∈ names started := by
  obtain ⟨last, hplan⟩ := hbegins
  obtain ⟨⟨n, config⟩, hmem, heq⟩ := List.mem_map.mp h
  cases heq
  cases List.mem_append.mp hmem with
  | inl hstarted =>
    obtain ⟨first, rest, hsplit⟩ := List.append_of_mem hstarted
    refine ⟨first, config, rest ++ (fresh.toList ++ last), ?_, hmem, fun d hd => ?_⟩
    · rw [← hplan, createdPlan, hsplit]
      simp
    · rw [hsplit, names_append]
      exact List.mem_append_left _ hd
  | inr hfresh =>
    refine ⟨started, config, last, ?_, hmem, fun d hd => hd⟩
    rw [← hplan, createdPlan, Option.mem_toList.mp hfresh]
    simp

theorem Layers.of_created (h : Layers lax after plan) (hbegins : createdPlan started fresh <+: plan) {name d : String}
    (hname : name ∈ names (createdPlan started fresh)) (hd : d ∈ after name) (hmem : d ∈ names plan) :
    ∃ config, (name, config) ∈ createdPlan started fresh ∧ d ∈ names started ∧ ∃ d' ∈ names started,
      (d' ∈ config.needs.getD [] ∨ lax = true ∧ d' ∈ config.waitFor.getD []) ∧ (d' = d ∨ d ∈ after d') := by
  obtain ⟨first, config, rest, hplan, hcreated, hfirst⟩ := created_split hbegins hname
  obtain ⟨hbefore, d', hd', hdep, hway⟩ := h first name config rest hplan d hd hmem
  exact ⟨config, hcreated, hfirst d hbefore, d', hfirst d' hd', hdep, hway⟩

theorem names_begins (hbegins : createdPlan started fresh <+: plan) {d : String} (h : d ∈ names (createdPlan started fresh)) :
    d ∈ names plan :=
  (hbegins.sublist.map Prod.fst).subset h

/-- What a job that is Pending waits for has begun in order, if its dependencies are met. -/
theorem Ordered.met (h : Ordered lax after free started fresh deps) (hlayers : Layers lax after plan)
    (hbegins : createdPlan started fresh <+: plan) {name : String} (hname : name ∈ names (createdPlan started fresh)) {job : Job}
    (hjob : deps name = some job) (hmet : JobSlot.DepsMet deps job.config) {d : String} (hd : d ∈ after name)
    (hmem : d ∈ names (createdPlan started fresh)) : ∃ job', deps d = some job' ∧ job'.state.done lax = true := by
  obtain ⟨config, hcreated, -, d', hd', hdep, hway⟩ := hlayers.of_created hbegins hname hd (names_begins hbegins hmem)
  obtain ⟨state, hconfig⟩ := h.config name config hcreated
  rw [hjob] at hconfig
  cases hconfig
  have hcreated' : d' ∈ names (createdPlan started fresh) := by
    rw [names_createdPlan]
    exact List.mem_append_left _ hd'
  have hdone : ∃ job', deps d' = some job' ∧ job'.state.done lax = true ∧ job'.state.begun lax (decide (d' ∈ names started)) = true := by
    cases hdep with
    | inl hneeds =>
      obtain ⟨job', hjob', hsucceeded⟩ := hmet.needs d' hneeds
      exact ⟨job', hjob', JobState.succeeded_done lax hsucceeded, JobState.succeeded_begun lax _ hsucceeded⟩
    | inr hwaits =>
      obtain ⟨hlax, hwaits⟩ := hwaits
      subst hlax
      obtain ⟨job', hjob', hdecided⟩ := hmet.waitFor d' hwaits
      have hdone := JobState.decided_done hdecided
      exact ⟨job', hjob', hdone, JobState.done_begun hdone fun _ => decide_eq_true hd'⟩
  obtain ⟨job', hjob', hdone, hbegun⟩ := hdone
  cases hway with
  | inl heq => exact heq ▸ ⟨job', hjob', hdone⟩
  | inr hd => exact h.order d' hcreated' job' hjob' hbegun d hd hmem

/-- **A pass keeps the order**, unless it ends a job for a broken dependency before the others are done. -/
theorem Ordered.pass (h : Ordered lax after free started fresh deps) (hlayers : Layers lax after plan)
    (hbegins : createdPlan started fresh <+: plan)
    (hmove : ∀ name, (deps name = none → deps' name = none) ∧
      ∀ job, deps name = some job → ∃ job', deps' name = some job' ∧ JobMoves name deps (breaks name) job job')
    (hbroken : lax = true → ∀ name, breaks name = true → ∀ d ∈ after name, ∀ job, deps d = some job → job.state.decided = true) :
    Ordered lax after free started fresh deps' := by
  have hback : ∀ {name : String} {job' : Job}, deps' name = some job' → ∃ job, deps name = some job ∧ JobMoves name deps (breaks name) job job' := by
    intro name job' hjob'
    cases hjob : deps name with
    | none =>
      rw [(hmove name).1 hjob] at hjob'
      cases hjob'
    | some job =>
      obtain ⟨job'', hjob'', hmoves⟩ := (hmove name).2 job hjob
      rw [hjob''] at hjob'
      cases hjob'
      exact ⟨job, rfl, hmoves⟩
  -- what is done stays so
  have hstays : ∀ {d : String}, (∃ job', deps d = some job' ∧ job'.state.done lax = true) →
      ∃ job', deps' d = some job' ∧ job'.state.done lax = true := by
    intro d hd
    obtain ⟨job, hjob, hdone⟩ := hd
    obtain ⟨job', hjob', hmoves⟩ := (hmove d).2 job hjob
    rw [hmoves.decided (JobState.done_decided hdone)] at hjob'
    exact ⟨job, hjob', hdone⟩
  refine ⟨fun name config hmem => ?_, fun name hfree hnot job' hjob' => ?_, fun name hname job' hjob' hbegun d hd hmem => ?_⟩
  · obtain ⟨state, hjob⟩ := h.config name config hmem
    obtain ⟨job', hjob', hmoves⟩ := (hmove name).2 _ hjob
    have hconfig : job'.config = managerConfig config := hmoves.config
    exact ⟨job'.state, by rw [hjob', ← hconfig]⟩
  · obtain ⟨job, hjob, hmoves⟩ := hback hjob'
    have hstate := h.others name hfree hnot job hjob
    rw [hmoves.decided (by rw [hstate]; rfl), hstate]
  · obtain ⟨job, hjob, hmoves⟩ := hback hjob'
    apply hstays
    cases hmoves with
    | kept => exact h.order name hname _ hjob hbegun d hd hmem
    | launched hstate hdeps hpast =>
      exact h.met hlayers hbegins hname hjob (JobSlot.depsFinished_ok hdeps) hd hmem
    | broken hstate hbreaks =>
      have hlax : lax = true := by simpa [JobState.begun] using hbegun
      have hdecided := hbroken hlax name hbreaks d hd
      obtain ⟨⟨_, config⟩, hcreated, heq⟩ := List.mem_map.mp hmem
      cases heq
      obtain ⟨state, hjob'⟩ := h.config _ config hcreated
      refine ⟨_, hjob', ?_⟩
      rw [hlax]
      exact JobState.decided_done (hdecided _ hjob')
    | again hstate hpast =>
      refine h.order name hname _ hjob ?_ d hd hmem
      cases hstate with
      | inl hactive =>
        obtain ⟨pid, hactive⟩ := hactive
        rw [hactive]
        rfl
      | inr hrunning =>
        rw [hrunning]
        rfl

/-- A job that is not created yet may become Stopped. -/
theorem Ordered.aside (h : Ordered lax after free started fresh deps) {name : String}
    (hnot : name ∉ names (createdPlan started fresh)) (hothers : ∀ n, n ≠ name → deps' n = deps n)
    (hthis : ∀ job, deps' name = some job → deps name = some job ∨ job.state = .inactive .stopped) :
    Ordered lax after free started fresh deps' := by
  have hcreated : ∀ {n : String}, n ∈ names (createdPlan started fresh) → deps' n = deps n := fun {n} hn =>
    hothers n fun heq => hnot (heq ▸ hn)
  refine ⟨fun n config hmem => ?_, fun n hfree hn job hjob => ?_, fun n hn job hjob hbegun d hd hmem => ?_⟩
  · rw [hcreated (mem_names_of hmem)]
    exact h.config n config hmem
  · by_cases heq : n = name
    · subst heq
      cases hthis job hjob with
      | inl hold => exact h.others n hfree hn job hold
      | inr hstopped => exact hstopped
    · rw [hothers n heq] at hjob
      exact h.others n hfree hn job hjob
  · rw [hcreated hn] at hjob
    rw [hcreated hmem]
    exact h.order n hn job hjob hbegun d hd hmem

/-- Nothing created so far waits for the job created last. -/
theorem Layers.newest (h : Layers lax after plan) (hnodup : (names plan).Nodup) {name n : String} {config : Engine.JobConfig}
    (hbegins : createdPlan started (some (name, config)) <+: plan) (hn : n ∈ names (createdPlan started (some (name, config)))) :
    name ∉ after n ∧ name ∉ names started := by
  have hnot : name ∉ names started := by
    have hcreated := hnodup.sublist (hbegins.sublist.map Prod.fst)
    have hcreated : (names (createdPlan started (some (name, config)))).Nodup := hcreated
    rw [names_createdPlan] at hcreated
    exact fun hmem => (List.nodup_append.mp hcreated).2.2 name hmem name (List.mem_singleton_self name) rfl
  refine ⟨fun hafter => ?_, hnot⟩
  have hmem : name ∈ names plan := names_begins hbegins mem_newest
  obtain ⟨-, -, hstarted, -⟩ := h.of_created hbegins hn hafter hmem
  exact hnot hstarted

/-- The next job is created. -/
theorem Ordered.create (h : Ordered lax after free started none deps) (hlayers : Layers lax after plan) (hnodup : (names plan).Nodup)
    {name : String} {config : Engine.JobConfig} (hbegins : createdPlan started (some (name, config)) <+: plan)
    (hothers : ∀ n, n ≠ name → deps' n = deps n) (hthis : deps' name = some ⟨managerConfig config, .inactive .stopped⟩) :
    Ordered lax after free started (some (name, config)) deps' := by
  have hnot : name ∉ names started := (hlayers.newest hnodup hbegins mem_newest).2
  have hsplit : ∀ {n : String}, n ∈ names (createdPlan started (some (name, config))) → n ∈ names started ∨ n = name := by
    intro n hn
    rw [names_createdPlan] at hn
    exact (List.mem_append.mp hn).imp_right fun hn => by simpa [names] using hn
  have hold : ∀ {n : String}, n ∈ names started → deps' n = deps n ∧ n ∈ names (createdPlan started none) := fun {n} hn =>
    ⟨hothers n fun heq => hnot (heq ▸ hn), by rw [names_createdPlan]; exact List.mem_append_left _ hn⟩
  refine ⟨fun n c hmem => ?_, fun n hfree hn job hjob => ?_, fun n hn job hjob hbegun d hd hmem => ?_⟩
  · cases List.mem_append.mp hmem with
    | inl hstarted =>
      rw [(hold (mem_names_of hstarted)).1]
      exact h.config n c (List.mem_append_left _ hstarted)
    | inr hfresh =>
      have heq : (n, c) = (name, config) := by simpa using hfresh
      cases heq
      exact ⟨_, hthis⟩
  · have hne : n ≠ name := fun heq => hn (heq ▸ mem_newest)
    rw [hothers n hne] at hjob
    refine h.others n hfree (fun hmem => hn ?_) job hjob
    rw [names_createdPlan] at hmem ⊢
    exact List.mem_append_left _ (by simpa [names] using hmem)
  · have hfresh := (hlayers.newest hnodup hbegins hn).1
    have hdone : d ∈ names started := by
      cases hsplit hmem with
      | inl hstarted => exact hstarted
      | inr heq => exact absurd (heq ▸ hd) hfresh
    cases hsplit hn with
    | inl hstarted =>
      rw [(hold hstarted).1] at hjob
      rw [(hold hdone).1]
      rw [decide_eq_true hstarted] at hbegun
      exact h.order n (hold hstarted).2 job hjob (by rw [decide_eq_true hstarted]; exact hbegun) d hd (hold hdone).2
    | inr heq =>
      -- a job just created has not begun
      rw [heq, hthis] at hjob
      cases hjob
      rw [heq, decide_eq_false hnot] at hbegun
      simp [JobState.begun] at hbegun

/-- The job created last may be made Pending. -/
theorem Ordered.pend {name : String} {config : Engine.JobConfig} (h : Ordered lax after free started (some (name, config)) deps) (hlayers : Layers lax after plan)
    (hnodup : (names plan).Nodup) (hbegins : createdPlan started (some (name, config)) <+: plan)
    (hothers : ∀ n, n ≠ name → deps' n = deps n)
    (hthis : deps' name = deps name ∨
      ∃ job waitingFor, deps name = some job ∧ deps' name = some { job with state := .inactive (.pending waitingFor) }) :
    Ordered lax after free started (some (name, config)) deps' := by
  refine ⟨fun n c hn => ?_, fun n hfree hn job hjob => ?_, fun n hn job hjob hbegun d hd hdmem => ?_⟩
  · obtain ⟨state, hjob⟩ := h.config n c hn
    by_cases heq : n = name
    · subst heq
      cases hthis with
      | inl hsame => exact ⟨state, hsame ▸ hjob⟩
      | inr hpending =>
        obtain ⟨job, waitingFor, hold, hnew⟩ := hpending
        rw [hjob] at hold
        cases hold
        exact ⟨_, hnew⟩
    · exact ⟨state, (hothers n heq).trans hjob⟩
  · rw [hothers n fun heq => hn (heq ▸ mem_newest)] at hjob
    exact h.others n hfree hn job hjob
  · have hne : d ≠ name := fun heq => (hlayers.newest hnodup hbegins hn).1 (heq ▸ hd)
    rw [hothers d hne]
    by_cases heq : n = name
    · subst heq
      cases hthis with
      | inl hsame => exact h.order n hn job (hsame ▸ hjob) hbegun d hd hdmem
      | inr hpending =>
        obtain ⟨old, waitingFor, -, hnew⟩ := hpending
        rw [hnew] at hjob
        cases hjob
        cases hbegun
    · rw [hothers n heq] at hjob
      exact h.order n hn job hjob hbegun d hd hdmem

/-- The job created last counts as started once it is not Stopped. -/
theorem Ordered.start {name : String} {config : Engine.JobConfig} (h : Ordered lax after free started (some (name, config)) deps)
    (hstate : ∀ job, deps name = some job → job.state ≠ .inactive .stopped) :
    Ordered lax after free (started ++ [(name, config)]) none deps := by
  have hsame : createdPlan (started ++ [(name, config)]) none = createdPlan started (some (name, config)) := List.append_nil _
  refine ⟨?_, ?_, fun n hn job hjob hbegun => ?_⟩
  · rw [hsame]
    exact h.config
  · rw [hsame]
    exact h.others
  · rw [hsame] at hn ⊢
    refine h.order n hn job hjob ?_
    by_cases heq : n = name
    · subst heq
      have hnot := hstate job hjob
      revert hbegun hnot
      cases job.state with
      | active pid => exact fun h _ => h
      | inactive status =>
        cases status with
        | finished exitCode message => exact fun h _ => h
        | stopped => exact fun _ h => absurd rfl h
        | running => exact fun h _ => h
        | pending waitingFor => exact fun h _ => h
    · have hiff : n ∈ names (started ++ [(name, config)]) ↔ n ∈ names started := by simp [names, heq]
      rw [decide_eq_decide.mpr hiff] at hbegun
      exact hbegun

end

/-! ## Programs that create jobs -/

/-- A call has no more to follow. -/
def Ends {c : EngineCall} {α : Type} (k : c.Reply → PluginM α) : Prop := ∀ err, ∃ err', k (.error err) = .done (.error err')

/-- The calls about jobs are those of `create_and_start_job`, and one that fails ends the program. -/
inductive Tidy {α : Type} : PluginM α → Prop
  | done (r : Except String α) : Tidy (.done r)
  | quiet {c : EngineCall} {k : c.Reply → PluginM α} (hc : c.ofJobs = false) (h : ∀ reply, Tidy (k reply)) : Tidy (.call c k)
  | job {name : String} {config : Engine.JobConfig} {k : EngineCall.Reply (.createJob name config) → PluginM α}
    {k' : EngineCall.Reply (.startJob name) → PluginM α} (hfail : Ends k) (hok : k (.ok ()) = .call (.startJob name) k')
    (hfail' : Ends k') (h : Tidy (k' (.ok ()))) : Tidy (.call (.createJob name config) k)

theorem Tidy.bind {α β : Type} {p : PluginM α} {f : α → PluginM β} (h : Tidy p) (hf : ∀ a, Tidy (f a)) : Tidy (p >>= f) := by
  have hends : ∀ {c : EngineCall} {k : c.Reply → PluginM α}, Ends k → Ends fun reply => Script.bind f (k reply) := by
    intro c k hk err
    obtain ⟨err', heq⟩ := hk err
    refine ⟨err', ?_⟩
    show Script.bind f (k (.error err)) = _
    rw [heq]
    rfl
  show Tidy (Script.bind f p)
  induction h with
  | done r =>
    cases r with
    | ok a => exact hf a
    | error e => exact .done _
  | quiet hc h ih => exact .quiet hc ih
  | job hfail hok hfail' h ih => exact .job (hends hfail) (by rw [hok]; rfl) (hends hfail') ih

theorem Tidy.pure {α : Type} (a : α) : Tidy (Pure.pure a : PluginM α) := .done _

theorem Tidy.forM {β : Type} {f : β → PluginM Unit} (h : ∀ b, Tidy (f b)) (bs : List β) : Tidy (bs.forM f) := by
  induction bs with
  | nil => exact .done _
  | cons b bs ih => exact (h b).bind (f := fun _ => bs.forM f) fun _ => ih

theorem Tidy.engine {c : EngineCall} (h : c.ofJobs = false) : Tidy (RhaiPlugin.engine c) := .quiet h fun reply => .done reply

theorem createAndStartJob_tidy (name : String) (config : Engine.JobConfig) : Tidy (createAndStartJob name config) :=
  .job (fun err => ⟨err, rfl⟩) rfl (fun err => ⟨err, rfl⟩) (.done _)

theorem runJobs_tidy (jobs : Option (List PluginConfig.Job)) (needs : List String) : Tidy (runJobs jobs needs) := by
  cases jobs with
  | none => exact .pure _
  | some jobs => exact (Tidy.forM (fun job => createAndStartJob_tidy _ _) jobs).bind fun _ => .pure _

theorem runActions_tidy (actions : Option PluginConfig.Actions) (needs : List String) : Tidy (runActions actions needs) := by
  cases actions with
  | none => exact .pure _
  | some actions =>
    refine (Tidy.forM (fun command => ?_) actions.commands).bind fun _ => runJobs_tidy (some actions.jobs) needs
    refine (Tidy.engine (c := .runSh command) rfl).bind (f := fun resp : ShResponse => if resp.exitCode ≠ 0 then _ else _) fun resp => ?_
    split
    · exact .done _
    · exact .pure _

theorem startServices_tidy (services : List PluginConfig.Service) (needs waitFor : List String) :
    Tidy (startServices services needs waitFor) :=
  Tidy.forM (fun _ => createAndStartJob_tidy _ _) services

/-- Where a program is after a call: between two jobs, or about to start the one it has created, or over. -/
inductive Position (script : PluginM Unit) : Option (String × Engine.JobConfig) → Prop
  | between (h : Tidy script) : Position script none
  | starting {name : String} {config : Engine.JobConfig} {k : EngineCall.Reply (.startJob name) → PluginM Unit}
    (hscript : script = .call (.startJob name) k) (hfail : Ends k) (h : Tidy (k (.ok ()))) : Position script (some (name, config))
  | ended {fresh : Option (String × Engine.JobConfig)} {r : Except String Unit} (hscript : script = .done r) : Position script fresh

/-- A program of which every run creates the jobs of a plan in layers, or the first of them; some are in
every plan. -/
structure InLayers (lax : Bool) (after : String → List String) (sure : List String) (base : PluginM Unit) : Prop where
  tidy : Tidy base
  plans : ∀ log r, Runs base log r →
    ∃ plan, (names plan).Nodup ∧ Layers lax after plan ∧ created log <+: plan ∧ ∀ d ∈ sure, d ∈ names plan

/-- A script is what is left of an orderly program, and the registry is what it has made of it. -/
def Following (lax : Bool) (after : String → List String) (free : String → Prop) (base script : PluginM Unit)
    (deps : String → Option Job) : Prop :=
  ∃ log started fresh, Resumes base log script ∧ created log = createdPlan started fresh ∧ Position script fresh ∧
    Ordered lax after free started fresh deps

section

variable {lax : Bool} {after : String → List String} {free : String → Prop} {sure : List String} {base script : PluginM Unit}
  {deps : String → Option Job}

theorem InLayers.plan (h : InLayers lax after sure base) {log : Log EngineCall.Reply} (hresumes : Resumes base log script) :
    ∃ plan, (names plan).Nodup ∧ Layers lax after plan ∧ created log <+: plan ∧ ∀ d ∈ sure, d ∈ names plan := by
  obtain ⟨plan, hnodup, hlayers, hbegins, hsure⟩ := h.plans _ _ (hresumes _ _ (runs_replay allOk script))
  rw [created_append] at hbegins
  exact ⟨plan, hnodup, hlayers, (List.prefix_append _ _).trans hbegins, hsure⟩

/-- The program begins. -/
theorem InLayers.begin (h : InLayers lax after sure base)
    (hothers : ∀ name, ¬ free name → ∀ job, deps name = some job → job.state = .inactive .stopped) :
    Following lax after free base base deps :=
  ⟨[], [], none, Resumes.refl base, rfl, .between h.tidy,
    ⟨by simp [createdPlan], fun name hfree _ => hothers name hfree, by simp [createdPlan, names]⟩⟩

theorem created_none {c : EngineCall} {reply : c.Reply} (h : ∀ name config, c ≠ .createJob name config) : created [⟨c, reply⟩] = [] := by
  cases c with
  | createJob name config => exact absurd rfl (h name config)
  | _ => rfl

theorem created_error {c : EngineCall} {err : String} : created [⟨c, .error err⟩] = [] := by
  cases c <;> rfl

/-- The log grows by a call that creates nothing. -/
theorem created_same {log : Log EngineCall.Reply} {c : EngineCall} {reply : c.Reply} (h : created [⟨c, reply⟩] = []) :
    created (log ++ [⟨c, reply⟩]) = created log := by
  rw [created_append, h, List.append_nil]

theorem Following.giveUp {c : EngineCall} {k : c.Reply → PluginM Unit} (h : Following lax after free base (.call c k) deps)
    (err : String) : Following lax after free base (k (.error err)) deps := by
  obtain ⟨log, started, fresh, hresumes, hcreated, hposition, hordered⟩ := h
  refine ⟨_, started, fresh, hresumes.call (.error err), (created_same created_error).trans hcreated, ?_, hordered⟩
  cases hposition with
  | between h =>
    cases h with
    | quiet hc h => exact .between (h _)
    | job hfail hok hfail' h =>
      obtain ⟨err', heq⟩ := hfail err
      exact .ended heq
  | starting hscript hfail h =>
    cases hscript
    obtain ⟨err', heq⟩ := hfail err
    exact .ended heq
  | ended hscript => cases hscript

theorem Following.reply {c : EngineCall} {k : c.Reply → PluginM Unit} (h : Following lax after free base (.call c k) deps)
    (hc : c.ofJobs = false) (reply : c.Reply) : Following lax after free base (k reply) deps := by
  obtain ⟨log, started, fresh, hresumes, hcreated, hposition, hordered⟩ := h
  have hsame : created (log ++ [⟨c, reply⟩]) = created log := by
    refine created_same (created_none fun name config heq => ?_)
    rw [heq] at hc
    cases hc
  refine ⟨_, started, fresh, hresumes.call reply, hsame.trans hcreated, ?_, hordered⟩
  cases hposition with
  | between h =>
    cases h with
    | quiet hc h => exact .between (h _)
    | job hfail hok hfail' h => cases hc
  | starting hscript hfail h =>
    cases hscript
    cases hc
  | ended hscript => cases hscript

/-- A pass, likewise; what it may not do is said of the jobs created so far. -/
theorem Following.pass (h : Following lax after free base script deps) (hbase : InLayers lax after sure base)
    {deps' : String → Option Job} {breaks : String → Bool}
    (hmove : ∀ name, (deps name = none → deps' name = none) ∧
      ∀ job, deps name = some job → ∃ job', deps' name = some job' ∧ JobMoves name deps (breaks name) job job')
    (hbroken : lax = true → ∀ name, breaks name = true → ∀ d ∈ after name, ∀ job, deps d = some job → job.state.decided = true) :
    Following lax after free base script deps' := by
  obtain ⟨log, started, fresh, hresumes, hcreated, hposition, hordered⟩ := h
  obtain ⟨plan, hnodup, hlayers, hbegins, -⟩ := hbase.plan hresumes
  refine ⟨log, started, fresh, hresumes, hcreated, hposition, hordered.pass hlayers (hcreated ▸ hbegins) hmove hbroken⟩

theorem attempt_create {s jobs : JobsSt} {name : String} {config : Engine.JobConfig} {env : JobCallEnv} {answer : Option Unit}
    (h : attemptCall s (.createJob name config) env = some (answer, jobs)) :
    ∃ env, jobs = s.create name (managerConfig config) env ∧ answer = answerOf (s.createRun name (managerConfig config) env).1 := by
  cases env with
  | create env =>
    obtain ⟨s', hs', heq⟩ := Option.map_eq_some_iff.mp h
    cases heq
    exact ⟨env, (JobsSt.step_does hs').2, rfl⟩
  | _ => cases h

theorem attempt_start {s jobs : JobsSt} {name : String} {env : JobCallEnv} {answer : Option Unit}
    (h : attemptCall s (.startJob name) env = some (answer, jobs)) :
    ∃ save, jobs = s.start name save ∧ answer = answerOf (s.startRun name save).1 := by
  cases env with
  | start save =>
    obtain ⟨s', hs', heq⟩ := Option.map_eq_some_iff.mp h
    cases heq
    exact ⟨save, (JobsSt.step_does hs').2, rfl⟩
  | _ => cases h

theorem attempt_stop {s jobs : JobsSt} {name : String} {env : JobCallEnv} {answer : Option Unit}
    (h : attemptCall s (.stopJob name) env = some (answer, jobs)) :
    ∃ env, jobs = s.stop name env ∧ answer = answerOf (s.stopRun name env).1 := by
  cases env with
  | stop env =>
    obtain ⟨s', hs', heq⟩ := Option.map_eq_some_iff.mp h
    cases heq
    exact ⟨env, (JobsSt.step_does hs').2, rfl⟩
  | _ => cases h

theorem attempt_stopAll {s jobs : JobsSt} {env : JobCallEnv} {answer : Option Unit}
    (h : attemptCall s .stopAllJobs env = some (answer, jobs)) :
    ∃ order env, order.Perm s.names ∧ jobs = s.stopAll order env ∧ answer = answerOf (s.stopAllRun order env).1 := by
  cases env with
  | stopAll order env =>
    obtain ⟨s', hs', heq⟩ := Option.map_eq_some_iff.mp h
    cases heq
    have hd := JobsSt.step_does hs'
    exact ⟨order, env, hd.2.1, hd.2.2, rfl⟩
  | _ => cases h

/-- A manager that is gone stays so. -/
theorem attempt_gone {s jobs : JobsSt} (hregistered : Registered s) {c : EngineCall} {env : JobCallEnv} {answer : Option c.Answer}
    (h : attemptCall s c env = some (answer, jobs)) (hgone : s.phase = .gone) : jobs.phase = .gone := by
  cases c with
  | createJob name config =>
    obtain ⟨env, heq, -⟩ := attempt_create h
    rw [heq]
    cases JobsSt.create_client s name (managerConfig config) env with
    | inl hkilled => exact hkilled.1
    | inr hclient => exact hclient.1.trans hgone
  | startJob name =>
    obtain ⟨save, heq, -⟩ := attempt_start h
    rw [heq]
    rcases JobsSt.start_client s name save with hkilled | hsame | hpending
    · exact hkilled.1
    · exact hsame.1.1.trans hgone
    · obtain ⟨job, status, -, -, hclient⟩ := hpending
      exact hclient.1.trans hgone
  | stopJob name =>
    obtain ⟨env, heq, -⟩ := attempt_stop h
    rw [heq]
    rcases JobsSt.stop_client s name env with hkilled | hsame | hstopped
    · exact hkilled.1
    · exact hsame.1.1.trans hgone
    · obtain ⟨job, -, hclient⟩ := hstopped
      exact hclient.1.trans hgone
  | stopAllJobs =>
    obtain ⟨order, env, hperm, heq, -⟩ := attempt_stopAll h
    rw [heq]
    cases JobsSt.stopAll_client hregistered hperm env with
    | inl hkilled => exact hkilled.1
    | inr hclient => exact hclient.1.trans hgone
  | getJobs =>
    cases env with
    | none =>
      simp only [attemptCall] at h
      split at h
      · cases h
        exact hgone
      · cases h
    | _ => cases h
  | _ => cases env <;> cases h

/-- **An attempt at a call keeps the order**, and so does its answer. -/
theorem Following.attempt {s jobs : JobsSt} {c : EngineCall} {k : c.Reply → PluginM Unit}
    (h : Following lax after free base (.call c k) s.deps) (hbase : InLayers lax after sure base) {env : JobCallEnv}
    {answer : Option c.Answer} (hattempt : attemptCall s c env = some (answer, jobs)) :
    jobs.phase = .gone ∨ (Following lax after free base (.call c k) jobs.deps ∧
      ∀ a, answer = some a → Following lax after free base (k (.ok a)) jobs.deps) := by
  obtain ⟨log, started, fresh, hresumes, hcreated, hposition, hordered⟩ := h
  cases hposition with
  | ended hscript => cases hscript
  | between h =>
    cases h with
    | quiet hc h =>
      -- the call is not about jobs
      unfold attemptCall at hattempt
      split at hattempt
      case h_6 => cases hattempt
      all_goals cases hc
    | @job name config k k' hfail hok hfail' h =>
      obtain ⟨env, hstep, hanswer⟩ := attempt_create hattempt
      have hlog : created (log ++ [⟨.createJob name config, .ok ()⟩]) = createdPlan started (some (name, config)) := by
        rw [created_append, hcreated]
        show (started ++ []) ++ [(name, config)] = started ++ [(name, config)]
        rw [List.append_nil]
      obtain ⟨plan, hnodup, hlayers, hbegins, -⟩ := hbase.plan (hresumes.call (.ok ()))
      rw [hlog] at hbegins
      have hnot : name ∉ names (createdPlan started none) := by
        rw [names_createdPlan]
        exact fun hmem => (hlayers.newest hnodup hbegins mem_newest).2 (by simpa [names] using hmem)
      rw [hstep, hanswer]
      cases JobsSt.create_client s name (managerConfig config) env with
      | inl hkilled => exact .inl hkilled.1
      | inr hclient =>
        obtain ⟨-, hothers, hthis⟩ := hclient
        refine .inr ⟨⟨log, started, none, hresumes, hcreated, .between (.job hfail hok hfail' h),
          hordered.aside hnot hothers fun job hjob => ?_⟩, fun a ha => ?_⟩
        · rw [hthis] at hjob
          split at hjob
          · cases hjob
            exact .inr rfl
          · exact .inl hjob
        · unfold answerOf at ha
          split at ha
          · rename_i hreturned
            rw [if_pos hreturned] at hthis
            exact ⟨_, started, some (name, config), hresumes.call (.ok ()), hlog, .starting hok hfail' h,
              hordered.create hlayers hnodup hbegins hothers hthis⟩
          · cases ha
  | @starting name config k' hscript hfail h =>
    cases hscript
    obtain ⟨save, hstep, hanswer⟩ := attempt_start hattempt
    obtain ⟨plan, hnodup, hlayers, hbegins, -⟩ := hbase.plan hresumes
    rw [hcreated] at hbegins
    rw [hstep, hanswer]
    have hlog : created (log ++ [⟨.startJob name, .ok ()⟩]) = createdPlan (started ++ [(name, config)]) none := by
      rw [created_same (created_none fun _ _ heq => by cases heq), hcreated]
      exact (List.append_nil _).symm
    have hgoes : ∀ {deps : String → Option Job}, Ordered lax after free started (some (name, config)) deps →
        ((s.startRun name save).1.isOk = true → ∀ job, deps name = some job → job.state ≠ .inactive .stopped) →
        Following lax after free base (.call (.startJob name) k') deps ∧
          ∀ a, answerOf (s.startRun name save).1 = some a → Following lax after free base (k' (.ok a)) deps := by
      intro deps hordered hstate
      refine ⟨⟨log, started, some (name, config), hresumes, hcreated, .starting rfl hfail h, hordered⟩, fun a ha => ?_⟩
      unfold answerOf at ha
      split at ha
      · rename_i hreturned
        exact ⟨_, _, none, hresumes.call (.ok ()), hlog, .between h, hordered.start (hstate hreturned)⟩
      · cases ha
    rcases JobsSt.start_client s name save with hkilled | hsame | hpending
    · exact .inl hkilled.1
    · obtain ⟨⟨-, hothers, hthis⟩, hactive⟩ := hsame
      refine .inr (hgoes (hordered.pend hlayers hnodup hbegins hothers (.inl hthis)) fun hok job hjob => ?_)
      obtain ⟨job', pid, hjob', hstate⟩ := hactive hok
      rw [hthis, hjob'] at hjob
      cases hjob
      rw [hstate]
      exact fun heq => by cases heq
    · obtain ⟨job, status, hjob, hstate, -, hothers, hthis⟩ := hpending
      refine .inr (hgoes (hordered.pend hlayers hnodup hbegins hothers (.inr ⟨job, _, hjob, hthis⟩)) fun _ job' hjob' => ?_)
      rw [hthis] at hjob'
      cases hjob'
      exact fun heq => by cases heq

/-- Some run of the script creates the job. -/
def MayCreate (script : PluginM Unit) (name : String) : Prop := ∃ log r, Runs script log r ∧ name ∈ names (created log)

/-- **A job that is due has all done before it** that is to be done before it, as far as it was created,
and what was not is Stopped and not created any more. -/
theorem Following.due {s : JobsSt} (h : Following lax after free base script s.deps) (hbase : InLayers lax after sure base)
    {name d : String} (hfree : ¬ free name) (hdue : s.due name = true) (hd : d ∈ after name) :
    ¬ MayCreate script d ∧ (d ∈ sure → ∃ job, s.deps d = some job ∧ job.state.done lax = true) ∧
      (¬ free d → ∀ job, s.deps d = some job → job.state.done lax = true ∨ job.state = .inactive .stopped) := by
  obtain ⟨log, started, fresh, hresumes, hcreated, -, hordered⟩ := h
  obtain ⟨plan, hnodup, hlayers, hbegins, hsure⟩ := hbase.plan hresumes
  rw [hcreated] at hbegins
  obtain ⟨job, hjob, hstate⟩ := JobsSt.due_cases hdue
  have hname : name ∈ names (createdPlan started fresh) := by
    by_contra hnot
    have hstopped := hordered.others name hfree hnot job hjob
    rw [hstopped] at hstate
    rcases hstate with ⟨pid, hactive⟩ | hrunning | ⟨⟨waitingFor, hpending⟩, -⟩
    · cases hactive
    · cases hrunning
    · cases hpending
  have hdone : d ∈ names (createdPlan started fresh) → ∃ job', s.deps d = some job' ∧ job'.state.done lax = true := by
    intro hmem
    rcases hstate with ⟨pid, hactive⟩ | hrunning | ⟨-, hdeps⟩
    · exact hordered.order name hname job hjob (by rw [hactive]; rfl) d hd hmem
    · exact hordered.order name hname job hjob (by rw [hrunning]; rfl) d hd hmem
    · exact hordered.met hlayers hbegins hname hjob (JobSlot.depsFinished_ok hdeps) hd hmem
  have hbefore : ∀ {plan : JobPlan}, Layers lax after plan → createdPlan started fresh <+: plan → d ∈ names plan →
      d ∈ names (createdPlan started fresh) := by
    intro plan hlayers hbegins hmem
    obtain ⟨-, -, hstarted, -⟩ := hlayers.of_created hbegins hname hd hmem
    rw [names_createdPlan]
    exact List.mem_append_left _ hstarted
  refine ⟨fun hmay => ?_, fun hmust => hdone (hbefore hlayers hbegins (hsure d hmust)), fun hnot job' hjob' => ?_⟩
  · obtain ⟨log', r, hrun, hmem⟩ := hmay
    obtain ⟨plan', hnodup', hlayers', hbegins', -⟩ := hbase.plans _ _ (hresumes log' r hrun)
    rw [created_append, hcreated] at hbegins'
    have hplan : d ∈ names plan' := (hbegins'.sublist.map Prod.fst).subset (by
      rw [List.map_append]
      exact List.mem_append_right _ hmem)
    have hcreated' := hbefore hlayers' ((List.prefix_append _ _).trans hbegins') hplan
    have hall : (names (createdPlan started fresh ++ created log')).Nodup := hnodup'.sublist (hbegins'.sublist.map Prod.fst)
    rw [names_append] at hall
    exact (List.nodup_append.mp hall).2.2 d hcreated' d hmem rfl
  · by_cases hmem : d ∈ names (createdPlan started fresh)
    · obtain ⟨job'', hjob'', hstate''⟩ := hdone hmem
      rw [hjob''] at hjob'
      cases hjob'
      exact .inl hstate''
    · exact .inr (hordered.others d hnot hmem job' hjob')

end

end Blockvisor
