/-
Run flags (`run_flag.rs`) and the trees that `child_flag` makes of them. Flags
that are clones of each other receive on one channel; `stop` sends to the
channel of the flag and to those of its children, and to no others.

`Flags.step` takes flags of any number of owners through their calls, in any
order. `clone` and `child_flag` are made of two steps, between which other
owners may act: the receiver of the new flag, and the state it starts in. What
`stop` sends is one step, as the lock on the senders makes it.

`stop_complete_iff`: a history stops the whole subtree of each flag it stops
exactly when no stop leaves a flag two levels down, or more, running; and
whatever it stops has been stopped, or has an ancestor that has.
-/
import Blockvisor.Lib.Machine
import Mathlib.Logic.Function.Basic

namespace Blockvisor

open Machine

/-- A broadcast channel: the channels its flags send to and the messages sent on it. The channel it
is a child of, and whether one of its flags was stopped, are ghosts. -/
structure FlagChannel where
  parent : Option Nat
  txs : List Nat
  sent : Nat
  stopped : Bool

/-- A flag: what it last knew, its channel, and the messages its receiver has passed. A flag that is
being made has a maker, whose state it is to take over. -/
structure RunFlag where
  run : Bool
  channel : Nat
  seen : Nat
  maker : Option Nat

/-- The channels `0 .. channels` and the flags `0 .. flags`. -/
structure Flags where
  channels : Nat
  channel : Nat → FlagChannel
  flags : Nat
  flag : Nat → RunFlag

namespace Flags

def init : Flags := ⟨0, fun _ => ⟨none, [], 0, false⟩, 0, fun _ => ⟨false, 0, 0, none⟩⟩

/-- A message, or the loss of one, is waiting for the receiver. -/
def pending (s : Flags) (f : RunFlag) : Bool := f.seen < (s.channel f.channel).sent

/-- `RunFlag::load`: the value returned; it is also what the flag then knows. -/
def load (s : Flags) (f : RunFlag) : Bool := f.run && !s.pending f

/-- `RunFlag::wait` returns. -/
def waitReturns (s : Flags) (f : RunFlag) : Bool := !f.run || s.pending f

/-- The flag is made, and not borrowed by a call of its own. -/
def free (s : Flags) (i : Nat) : Prop := i < s.flags ∧ (s.flag i).maker = none ∧ ∀ j < s.flags, (s.flag j).maker ≠ some i

instance (s : Flags) (i : Nat) : Decidable (s.free i) := by unfold free; infer_instance

def setFlag (s : Flags) (i : Nat) (f : RunFlag) : Flags := { s with flag := Function.update s.flag i f }

def addFlag (s : Flags) (f : RunFlag) : Flags := { s with flags := s.flags + 1, flag := Function.update s.flag s.flags f }

/-- A channel of its own. -/
def addRoot (s : Flags) : Flags :=
  { s with channels := s.channels + 1, channel := Function.update s.channel s.channels ⟨none, [s.channels], 0, false⟩ }

/-- `RunFlag::default`. -/
def default (s : Flags) : Flags := s.addRoot.addFlag ⟨true, s.channels, 0, none⟩

/-- `RunFlag::clone` of flag `i`, its receiver. -/
def beginClone (s : Flags) (i : Nat) : Flags :=
  s.addFlag ⟨false, (s.flag i).channel, (s.channel (s.flag i).channel).sent, some i⟩

/-- The channel of a new child, known to its parent's. -/
def addChannel (s : Flags) (parent : Nat) : Flags :=
  { s with
    channels := s.channels + 1
    channel := Function.update
      (Function.update s.channel parent { s.channel parent with txs := (s.channel parent).txs ++ [s.channels] })
      s.channels ⟨some parent, [s.channels], 0, false⟩ }

/-- `RunFlag::child_flag` of flag `i`, its channel. -/
def beginChild (s : Flags) (i : Nat) : Flags :=
  (s.addChannel (s.flag i).channel).addFlag ⟨false, s.channels, 0, some i⟩

/-- The flag `j` takes over what its maker `i` loads. -/
def finish (s : Flags) (i j : Nat) : Flags :=
  let run := s.load (s.flag i)
  (s.setFlag i { s.flag i with run }).setFlag j { s.flag j with run, maker := none }

/-- `RunFlag::stop`. -/
def stop (s : Flags) (i : Nat) : Flags :=
  let c := (s.flag i).channel
  { s with
    channel := fun k =>
      { s.channel k with
        sent := if k ∈ (s.channel c).txs then (s.channel k).sent + 1 else (s.channel k).sent
        stopped := (s.channel k).stopped || k = c }
    flag := Function.update s.flag i { s.flag i with run := false } }

inductive Act where
  | default
  | beginClone (i : Nat)
  | beginChild (i : Nat)
  | finish (j : Nat)
  | load (i : Nat)
  | wait (i : Nat)
  | stop (i : Nat)

def step (s : Flags) : Act → Option Flags
  | .default => some s.default
  | .beginClone i => if s.free i then some (s.beginClone i) else none
  | .beginChild i => if s.free i then some (s.beginChild i) else none
  | .finish j =>
    if j < s.flags then
      match (s.flag j).maker with
      | some i => some (s.finish i j)
      | none => none
    else none
  | .load i => if s.free i then some (s.setFlag i { s.flag i with run := s.load (s.flag i) }) else none
  | .wait i =>
    if s.free i ∧ s.waitReturns (s.flag i) then some (s.setFlag i { s.flag i with run := false }) else none
  | .stop i => if s.free i then some (s.stop i) else none

/-! ## Subtrees -/

def parent (s : Flags) (k : Nat) : Option Nat := (s.channel k).parent

/-- `k` is in the subtree of `a`. -/
inductive Within (parent : Nat → Option Nat) (a : Nat) : Nat → Prop where
  | self : Within parent a a
  | child {k p : Nat} (hp : parent k = some p) (h : Within parent a p) : Within parent a k

/-- `k` is two levels or more below `a`. -/
def Deep (parent : Nat → Option Nat) (a k : Nat) : Prop :=
  ∃ p q, parent k = some p ∧ parent p = some q ∧ Within parent a q

/-- Every flag in the subtree of a stopped one knows, and does not wait. -/
def Complete (s : Flags) : Prop :=
  ∀ i < s.flags, (s.flag i).maker = none → ∀ a, Within s.parent a (s.flag i).channel → (s.channel a).stopped →
    s.load (s.flag i) = false ∧ s.waitReturns (s.flag i) = true

/-- A flag is stopped only with its own subtree, or a subtree it is in. -/
def Contained (s : Flags) : Prop :=
  ∀ i < s.flags, (s.flag i).maker = none → s.load (s.flag i) = false →
    ∃ a, Within s.parent a (s.flag i).channel ∧ (s.channel a).stopped

/-- No stop leaves a flag two levels below it, or more, running. -/
def StopsShallow (s : Flags) : Act → Prop
  | .stop i => ∀ j < s.flags, (s.flag j).maker = none → Deep s.parent (s.flag i).channel (s.flag j).channel →
      s.load (s.flag j) = false
  | _ => True

theorem load_eq_false {s : Flags} {f : RunFlag} : s.load f = false ↔ f.run = false ∨ s.pending f = true := by
  simp only [load, Bool.and_eq_false_iff, Bool.not_eq_false']

theorem waitReturns_eq_load (s : Flags) (f : RunFlag) : s.waitReturns f = !s.load f := by
  simp [waitReturns, load]

section

variable {parent parent' : Nat → Option Nat} {n a k : Nat}

theorem Within.le (hparent : ∀ k < n, ∀ p, parent k = some p → p < k) (h : Within parent a k) (hk : k < n) : a ≤ k := by
  induction h with
  | self => exact Nat.le_refl _
  | child hp _ ih =>
    have hlt := hparent _ hk _ hp
    have hle := ih (by omega)
    omega

/-- New channels change nothing about the old ones. -/
theorem Within.of_agree (hparent : ∀ k < n, ∀ p, parent k = some p → p < k) (hsame : ∀ k < n, parent k = parent' k)
    (h : Within parent a k) (hk : k < n) : Within parent' a k := by
  induction h with
  | self => exact .self
  | child hp _ ih => exact .child (hsame _ hk ▸ hp) (ih (Nat.lt_trans (hparent _ hk _ hp) hk))

/-- The subtree of a channel is the channel, its children, and what is deeper. -/
theorem Within.cases_depth (h : Within parent a k) : k = a ∨ parent k = some a ∨ Deep parent a k := by
  cases h with
  | self => exact .inl rfl
  | child hp h =>
    cases h with
    | self => exact .inr (.inl hp)
    | child hq h => exact .inr (.inr ⟨_, _, hp, hq, h⟩)

theorem Deep.child {p : Nat} (hp : parent k = some p) (h : Deep parent a p) : Deep parent a k := by
  obtain ⟨q, r, hq, hr, h⟩ := h
  exact ⟨p, q, hp, hq, .child hr h⟩

theorem Deep.within (h : Deep parent a k) : Within parent a k := by
  obtain ⟨p, q, hp, hq, h⟩ := h
  exact .child hp (.child hq h)

end

/-! ## The invariants -/

/-- The channels form a forest, each sending to itself and its children, and the flags are on them. -/
structure Formed (s : Flags) : Prop where
  parent : ∀ k < s.channels, ∀ p, s.parent k = some p → p < k
  txs : ∀ k < s.channels, ∀ m, m ∈ (s.channel k).txs ↔ m = k ∨ (m < s.channels ∧ s.parent m = some k)
  channel : ∀ i < s.flags, (s.flag i).channel < s.channels
  seen : ∀ i < s.flags, (s.flag i).seen ≤ (s.channel (s.flag i).channel).sent
  maker : ∀ j < s.flags, ∀ i, (s.flag j).maker = some i → i < s.flags ∧ (s.flag i).maker = none ∧
    ((s.flag j).channel = (s.flag i).channel ∨ s.parent (s.flag j).channel = some (s.flag i).channel)

/-- What was sent or is known comes from a stop of a subtree it is in. -/
structure Caused (s : Flags) : Prop where
  sent : ∀ k < s.channels, 0 < (s.channel k).sent → ∃ a, Within s.parent a k ∧ (s.channel a).stopped
  run : ∀ i < s.flags, (s.flag i).maker = none → (s.flag i).run = false →
    ∃ a, Within s.parent a (s.flag i).channel ∧ (s.channel a).stopped

/-- The flag knows that it is stopped, or will when it is made. -/
def Told (s : Flags) (f : RunFlag) : Prop :=
  match f.maker with
  | none => s.load f = false
  | some i => s.load (s.flag i) = false ∨ s.pending f = true

def AllTold (s : Flags) : Prop :=
  ∀ i < s.flags, ∀ a, Within s.parent a (s.flag i).channel → (s.channel a).stopped → s.Told (s.flag i)

theorem Caused.contained {s : Flags} (hformed : s.Formed) (h : s.Caused) : s.Contained := by
  intro i hi hmade hload
  rcases load_eq_false.mp hload with hrun | hpending
  · exact h.run i hi hmade hrun
  · refine h.sent _ (hformed.channel i hi) ?_
    simp only [pending, decide_eq_true_eq] at hpending
    omega

theorem AllTold.complete {s : Flags} (h : s.AllTold) : s.Complete := by
  intro i hi hmade a ha hstopped
  have htold := h i hi a ha hstopped
  simp only [Told, hmade] at htold
  exact ⟨htold, by rw [waitReturns_eq_load, htold]; rfl⟩

/-! ## Steps that change one flag -/

theorem setFlag_flag (s : Flags) (i : Nat) (f : RunFlag) (j : Nat) :
    (s.setFlag i f).flag j = if j = i then f else s.flag j := by
  simp [setFlag, Function.update_apply]

/-- The flag `i` gets to know what it loads. -/
def know (s : Flags) (i : Nat) : Flags := s.setFlag i { s.flag i with run := s.load (s.flag i) }

/-- The flag `j` is made with what its maker `i` loads. -/
def make (s : Flags) (i j : Nat) : Flags := s.setFlag j { s.flag j with run := s.load (s.flag i), maker := none }

theorem know_same (s : Flags) (i j : Nat) :
    ((s.know i).flag j).channel = (s.flag j).channel ∧ ((s.know i).flag j).seen = (s.flag j).seen ∧
      ((s.know i).flag j).maker = (s.flag j).maker := by
  rw [know, setFlag_flag]
  by_cases hj : j = i
  · subst hj
    simp
  · simp [hj]

theorem know_load (s : Flags) (i j : Nat) : (s.know i).load ((s.know i).flag j) = s.load (s.flag j) := by
  show s.load ((s.know i).flag j) = _
  rw [know, setFlag_flag]
  by_cases hj : j = i
  · subst hj
    rw [if_pos rfl]
    show (s.load (s.flag j) && !s.pending (s.flag j)) = s.load (s.flag j)
    simp [load]
  · rw [if_neg hj]

theorem formed_know {s : Flags} (h : s.Formed) (i : Nat) : (s.know i).Formed := by
  refine ⟨h.parent, h.txs, fun j hj => ?_, fun j hj => ?_, fun j hj m hm => ?_⟩
  · rw [(s.know_same i j).1]
    exact h.channel j hj
  · rw [(s.know_same i j).1, (s.know_same i j).2.1]
    exact h.seen j hj
  · rw [(s.know_same i j).2.2] at hm
    rw [(s.know_same i j).1, (s.know_same i m).1, (s.know_same i m).2.2]
    exact h.maker j hj m hm

theorem caused_know {s : Flags} (hformed : s.Formed) (h : s.Caused) {i : Nat} : (s.know i).Caused := by
  refine ⟨h.sent, fun j hj hmade hrun => ?_⟩
  rw [(s.know_same i j).2.2] at hmade
  rw [(s.know_same i j).1]
  refine h.contained hformed j hj hmade ?_
  rw [← know_load s i j]
  exact load_eq_false.mpr (.inl hrun)

theorem allTold_know {s : Flags} (h : s.AllTold) (i : Nat) : (s.know i).AllTold := by
  intro j hj a ha hstopped
  rw [(s.know_same i j).1] at ha
  have htold := h j hj a ha hstopped
  unfold Told at htold ⊢
  rw [(s.know_same i j).2.2]
  split
  · rename_i hmade
    rw [hmade] at htold
    rw [know_load]
    exact htold
  · rename_i m hmaker
    rw [hmaker] at htold
    rw [know_load]
    refine htold.imp id fun hp => ?_
    unfold pending at hp ⊢
    rw [(s.know_same i j).1, (s.know_same i j).2.1]
    exact hp

/-- A flag with a maker makes no other. -/
theorem Formed.not_maker {s : Flags} (h : s.Formed) {i j k : Nat} (hj : (s.flag j).maker = some i) (hk : k < s.flags) :
    (s.flag k).maker ≠ some j := by
  intro hkj
  rw [(h.maker k hk j hkj).2.1] at hj
  cases hj

theorem formed_make {s : Flags} (h : s.Formed) {i j : Nat} (hmaker : (s.flag j).maker = some i) : (s.make i j).Formed := by
  have hsame : ∀ k, ((s.make i j).flag k).channel = (s.flag k).channel ∧ ((s.make i j).flag k).seen = (s.flag k).seen := by
    intro k
    rw [make, setFlag_flag]
    by_cases hk : k = j
    · subst hk
      simp
    · simp [hk]
  refine ⟨h.parent, h.txs, fun k hk => ?_, fun k hk => ?_, fun k hk m hm => ?_⟩
  · rw [(hsame k).1]
    exact h.channel k hk
  · rw [(hsame k).1, (hsame k).2]
    exact h.seen k hk
  · rw [(hsame k).1, (hsame m).1]
    rw [make, setFlag_flag] at hm ⊢
    by_cases hkj : k = j
    · simp [hkj] at hm
    · rw [if_neg hkj] at hm
      have hmj : m ≠ j := fun hmj => h.not_maker hmaker hk (hmj ▸ hm)
      rw [if_neg hmj]
      exact h.maker k hk m hm

/-- What a flag's maker is in the subtree of, the flag is in the subtree of. -/
theorem Formed.within_maker {s : Flags} (h : s.Formed) {i j a : Nat} (hj : j < s.flags) (hmaker : (s.flag j).maker = some i)
    (ha : Within s.parent a (s.flag i).channel) : Within s.parent a (s.flag j).channel := by
  rcases (h.maker j hj i hmaker).2.2 with hc | hp
  · rw [hc]
    exact ha
  · exact .child hp ha

theorem caused_make {s : Flags} (hformed : s.Formed) (h : s.Caused) {i j : Nat} (hj : j < s.flags)
    (hmaker : (s.flag j).maker = some i) : (s.make i j).Caused := by
  refine ⟨h.sent, fun k hk hmade hrun => ?_⟩
  rw [make, setFlag_flag] at hmade hrun ⊢
  by_cases hkj : k = j
  · subst hkj
    rw [if_pos rfl] at hrun ⊢
    obtain ⟨hi, hmade', _⟩ := hformed.maker k hk i hmaker
    obtain ⟨a, ha, hstopped⟩ := h.contained hformed i hi hmade' hrun
    exact ⟨a, hformed.within_maker hk hmaker ha, hstopped⟩
  · rw [if_neg hkj] at hmade hrun ⊢
    exact h.run k hk hmade hrun

theorem allTold_make {s : Flags} (hformed : s.Formed) (h : s.AllTold) {i j : Nat}
    (hmaker : (s.flag j).maker = some i) : (s.make i j).AllTold := by
  intro k hk a ha hstopped
  unfold Told
  rw [make, setFlag_flag] at ha ⊢
  by_cases hkj : k = j
  · subst hkj
    rw [if_pos rfl] at ha ⊢
    have htold := h k hk a ha hstopped
    rw [Told, hmaker] at htold
    exact load_eq_false.mpr htold
  · rw [if_neg hkj] at ha ⊢
    have htold := h k hk a ha hstopped
    unfold Told at htold
    split
    · rename_i hmade
      rw [hmade] at htold
      exact htold
    · rename_i m hm
      rw [hm] at htold
      have hmj : m ≠ j := fun hmj => hformed.not_maker hmaker hk (hmj ▸ hm)
      rw [setFlag_flag, if_neg hmj]
      exact htold

theorem finish_eq {s : Flags} (h : s.Formed) {i j : Nat} (hj : j < s.flags) (hmaker : (s.flag j).maker = some i) :
    s.finish i j = (s.know i).make i j := by
  have hij : j ≠ i := by
    intro hij
    subst hij
    rw [(h.maker j hj j hmaker).2.1] at hmaker
    cases hmaker
  unfold finish make
  rw [know_load, show (s.know i).flag j = s.flag j by rw [know, setFlag_flag, if_neg hij]]
  rfl

/-! ## Steps that add a flag -/

theorem addFlag_flag (s : Flags) (f : RunFlag) (j : Nat) :
    (s.addFlag f).flag j = if j = s.flags then f else s.flag j := by
  simp [addFlag, Function.update_apply]

/-- A flag that is added to formed channels. -/
theorem formed_addFlag {s : Flags} (h : s.Formed) {f : RunFlag} (hchannel : f.channel < s.channels)
    (hseen : f.seen ≤ (s.channel f.channel).sent)
    (hmaker : ∀ i, f.maker = some i → i < s.flags ∧ (s.flag i).maker = none ∧
      (f.channel = (s.flag i).channel ∨ s.parent f.channel = some (s.flag i).channel)) : (s.addFlag f).Formed := by
  refine ⟨h.parent, h.txs, fun j hj => ?_, fun j hj => ?_, fun j hj m hm => ?_⟩
  · rw [addFlag_flag]
    split
    · exact hchannel
    · exact h.channel j (by simp only [addFlag] at hj; omega)
  · rw [addFlag_flag]
    split
    · exact hseen
    · exact h.seen j (by simp only [addFlag] at hj; omega)
  · rw [addFlag_flag] at hm
    have hold : m < s.flags ∧ (s.flag m).maker = none ∧
        (((s.addFlag f).flag j).channel = (s.flag m).channel ∨
          s.parent ((s.addFlag f).flag j).channel = some (s.flag m).channel) := by
      rw [addFlag_flag]
      by_cases hjn : j = s.flags
      · rw [if_pos hjn] at hm ⊢
        exact hmaker m hm
      · rw [if_neg hjn] at hm ⊢
        exact h.maker j (by simp only [addFlag] at hj; omega) m hm
    have hsame : (s.addFlag f).flag m = s.flag m := by
      rw [addFlag_flag, if_neg (Nat.ne_of_lt hold.1)]
    rw [hsame]
    exact ⟨Nat.lt_succ_of_lt hold.1, hold.2⟩

theorem caused_addFlag {s : Flags} (h : s.Caused) {f : RunFlag} (hrun : f.maker = none → f.run = true) :
    (s.addFlag f).Caused := by
  refine ⟨h.sent, fun j hj hmade hfalse => ?_⟩
  rw [addFlag_flag] at hmade hfalse ⊢
  by_cases hjn : j = s.flags
  · rw [if_pos hjn] at hmade hfalse
    rw [hrun hmade] at hfalse
    cases hfalse
  · rw [if_neg hjn] at hmade hfalse ⊢
    exact h.run j (by simp only [addFlag] at hj; omega) hmade hfalse

theorem allTold_addFlag {s : Flags} (hformed : s.Formed) (h : s.AllTold) {f : RunFlag}
    (hf : ∀ a, Within s.parent a f.channel → (s.channel a).stopped → ∃ i < s.flags, f.maker = some i ∧ s.load (s.flag i) = false) :
    (s.addFlag f).AllTold := by
  intro j hj a ha hstopped
  unfold Told
  rw [addFlag_flag] at ha ⊢
  by_cases hjn : j = s.flags
  · rw [if_pos hjn] at ha ⊢
    obtain ⟨i, hi, hmaker, hload⟩ := hf a ha hstopped
    rw [hmaker]
    refine .inl ?_
    rw [addFlag_flag, if_neg (Nat.ne_of_lt hi)]
    exact hload
  · rw [if_neg hjn] at ha ⊢
    have hj' : j < s.flags := by
      simp only [addFlag] at hj
      omega
    have htold := h j hj' a ha hstopped
    unfold Told at htold
    split
    · rename_i hmade
      rw [hmade] at htold
      exact htold
    · rename_i m hm
      rw [hm] at htold
      rw [addFlag_flag, if_neg (Nat.ne_of_lt (hformed.maker j hj' m hm).1)]
      exact htold

/-! ## Steps that add a channel -/

/-- The channels of `s'` are those of `s` and one more, a child of `p`. -/
structure Extends (s s' : Flags) (p : Option Nat) : Prop where
  channels : s'.channels = s.channels + 1
  flags : s'.flags = s.flags
  flag : s'.flag = s.flag
  old : ∀ k < s.channels, s'.parent k = s.parent k ∧ (s'.channel k).sent = (s.channel k).sent ∧
    (s'.channel k).stopped = (s.channel k).stopped
  txs : ∀ k < s.channels, ∀ m, m ∈ (s'.channel k).txs ↔ m ∈ (s.channel k).txs ∨ (m = s.channels ∧ p = some k)
  new : s'.channel s.channels = ⟨p, [s.channels], 0, false⟩
  above : ∀ q, p = some q → q < s.channels

theorem extends_addRoot (s : Flags) : Extends s s.addRoot none := by
  refine ⟨rfl, rfl, rfl, fun k hk => ?_, fun k hk m => ?_, ?_, fun q hq => (by cases hq)⟩
  · simp [addRoot, parent, Nat.ne_of_lt hk]
  · simp [addRoot, Nat.ne_of_lt hk]
  · simp [addRoot]

theorem extends_addChannel {s : Flags} {p : Nat} (hp : p < s.channels) : Extends s (s.addChannel p) (some p) := by
  refine ⟨rfl, rfl, rfl, fun k hk => ?_, fun k hk m => ?_, ?_, fun q hq => (by cases hq; exact hp)⟩
  · by_cases hkp : k = p
    · subst hkp
      simp [addChannel, parent, Nat.ne_of_lt hk]
    · simp [addChannel, parent, Nat.ne_of_lt hk, hkp]
  · by_cases hkp : k = p
    · subst hkp
      simp [addChannel, Nat.ne_of_lt hk]
    · simp [addChannel, Nat.ne_of_lt hk, hkp, Ne.symm hkp]
  · simp [addChannel]

section

variable {s s' : Flags} {p : Option Nat}

theorem Extends.within (h : Extends s s' p) (hs : s.Formed) {a k : Nat} (hk : k < s.channels) :
    Within s'.parent a k ↔ Within s.parent a k := by
  have hsame : ∀ k < s.channels, s.parent k = s'.parent k := fun k hk => (h.old k hk).1.symm
  constructor
  · intro ha
    refine ha.of_agree (n := s.channels) (fun k hk q hq => ?_) (fun k hk => (hsame k hk).symm) hk
    exact hs.parent k hk q (hsame k hk ▸ hq)
  · intro ha
    exact ha.of_agree hs.parent hsame hk

theorem Extends.load (h : Extends s s' p) (hs : s.Formed) {i : Nat} (hi : i < s.flags) :
    s'.load (s'.flag i) = s.load (s.flag i) ∧ s'.pending (s'.flag i) = s.pending (s.flag i) := by
  have hsent := (h.old _ (hs.channel i hi)).2.1
  simp only [Flags.load, pending, h.flag, hsent, and_self]

theorem formed_extends (h : Extends s s' p) (hs : s.Formed) : s'.Formed := by
  have hnew : s'.parent s.channels = p := by rw [parent, h.new]
  have hlt : ∀ k, k < s'.channels → k < s.channels ∨ k = s.channels := fun k hk => by
    rw [h.channels] at hk
    omega
  refine ⟨fun k hk q hq => ?_, fun k hk m => ?_, fun i hi => ?_, fun i hi => ?_, fun j hj i hi => ?_⟩
  · rcases hlt k hk with hk | rfl
    · rw [(h.old k hk).1] at hq
      exact hs.parent k hk q hq
    · rw [hnew] at hq
      exact h.above q hq
  · rw [h.channels]
    rcases hlt k hk with hk | rfl
    · rw [h.txs k hk, hs.txs k hk]
      constructor
      · rintro ((hm | ⟨hm, hp⟩) | ⟨rfl, rfl⟩)
        · exact .inl hm
        · exact .inr ⟨Nat.lt_succ_of_lt hm, (h.old m hm).1.trans hp⟩
        · exact .inr ⟨Nat.lt_succ_self _, hnew⟩
      · rintro (hm | ⟨hm, hp⟩)
        · exact .inl (.inl hm)
        · rcases Nat.lt_succ_iff_lt_or_eq.mp hm with hm | rfl
          · exact .inl (.inr ⟨hm, (h.old m hm).1 ▸ hp⟩)
          · exact .inr ⟨rfl, hnew ▸ hp⟩
    · rw [h.new]
      simp only [List.mem_singleton]
      constructor
      · exact .inl
      · rintro (hm | ⟨hm, hp⟩)
        · exact hm
        · -- nothing is a child of a channel that is new
          exfalso
          rcases Nat.lt_succ_iff_lt_or_eq.mp hm with hm | rfl
          · rw [(h.old m hm).1] at hp
            exact Nat.lt_asymm hm (hs.parent m hm _ hp)
          · rw [hnew] at hp
            exact Nat.lt_irrefl _ (h.above _ hp)
  · rw [h.flags] at hi
    rw [h.flag, h.channels]
    exact Nat.lt_succ_of_lt (hs.channel i hi)
  · rw [h.flags] at hi
    rw [h.flag, (h.old _ (hs.channel i hi)).2.1]
    exact hs.seen i hi
  · rw [h.flags] at hj ⊢
    rw [h.flag] at hi ⊢
    rw [(h.old _ (hs.channel j hj)).1]
    exact hs.maker j hj i hi

theorem caused_extends (h : Extends s s' p) (hs : s.Formed) (hc : s.Caused) : s'.Caused := by
  have hcause : ∀ k < s.channels, (∃ a, Within s.parent a k ∧ (s.channel a).stopped) →
      ∃ a, Within s'.parent a k ∧ (s'.channel a).stopped := by
    intro k hk ⟨a, ha, hstopped⟩
    exact ⟨a, (h.within hs hk).mpr ha, (h.old a (Nat.lt_of_le_of_lt (ha.le hs.parent hk) hk)).2.2.trans hstopped⟩
  refine ⟨fun k hk hsent => ?_, fun i hi hmade hrun => ?_⟩
  · rw [h.channels] at hk
    rcases Nat.lt_succ_iff_lt_or_eq.mp hk with hk | rfl
    · rw [(h.old k hk).2.1] at hsent
      exact hcause k hk (hc.sent k hk hsent)
    · rw [h.new] at hsent
      exact absurd hsent (Nat.lt_irrefl _)
  · rw [h.flags] at hi
    rw [h.flag] at hmade hrun ⊢
    exact hcause _ (hs.channel i hi) (hc.run i hi hmade hrun)

theorem allTold_extends (h : Extends s s' p) (hs : s.Formed) (ht : s.AllTold) : s'.AllTold := by
  intro i hi a ha hstopped
  rw [h.flags] at hi
  have hk := hs.channel i hi
  rw [h.flag, h.within hs hk] at ha
  rw [(h.old a (Nat.lt_of_le_of_lt (ha.le hs.parent hk) hk)).2.2] at hstopped
  have htold := ht i hi a ha hstopped
  unfold Told at htold ⊢
  rw [h.flag]
  split
  · rename_i hmade
    rw [hmade] at htold
    rw [← h.flag, (h.load hs hi).1]
    exact htold
  · rename_i m hm
    rw [hm] at htold
    rw [← h.flag, (h.load hs hi).2, (h.load hs (hs.maker i hi m hm).1).1]
    exact htold

end

/-! ## Stopping -/

section

variable {s : Flags} {i : Nat}

theorem stop_flag (s : Flags) (i j : Nat) :
    (s.stop i).flag j = if j = i then { s.flag i with run := false } else s.flag j := by
  simp [stop, Function.update_apply]

theorem stop_sent (s : Flags) (i k : Nat) : ((s.stop i).channel k).sent =
    if k ∈ (s.channel (s.flag i).channel).txs then (s.channel k).sent + 1 else (s.channel k).sent := rfl

theorem stop_same (s : Flags) (i j : Nat) : ((s.stop i).flag j).channel = (s.flag j).channel ∧
    ((s.stop i).flag j).seen = (s.flag j).seen ∧ ((s.stop i).flag j).maker = (s.flag j).maker := by
  rw [stop_flag]
  by_cases hj : j = i
  · subst hj
    simp
  · simp [hj]

theorem sent_le_stop (s : Flags) (i k : Nat) : (s.channel k).sent ≤ ((s.stop i).channel k).sent := by
  rw [stop_sent]
  split <;> omega

theorem formed_stop (h : s.Formed) (i : Nat) : (s.stop i).Formed := by
  refine ⟨h.parent, h.txs, fun j hj => ?_, fun j hj => ?_, fun j hj m hm => ?_⟩
  · rw [(s.stop_same i j).1]
    exact h.channel j hj
  · rw [(s.stop_same i j).1, (s.stop_same i j).2.1]
    exact Nat.le_trans (h.seen j hj) (sent_le_stop s i _)
  · rw [(s.stop_same i j).2.2] at hm
    rw [(s.stop_same i j).1, (s.stop_same i m).1, (s.stop_same i m).2.2]
    exact h.maker j hj m hm

theorem caused_stop (hformed : s.Formed) (h : s.Caused) (hi : i < s.flags) : (s.stop i).Caused := by
  have hself : ((s.stop i).channel (s.flag i).channel).stopped := by
    simp [stop]
  have hold : ∀ a, (s.channel a).stopped → ((s.stop i).channel a).stopped := by
    intro a ha
    simp [stop, ha]
  refine ⟨fun k hk hsent => ?_, fun j hj hmade hrun => ?_⟩
  · rw [stop_sent] at hsent
    split at hsent
    · rename_i htx
      refine ⟨_, ?_, hself⟩
      rcases (hformed.txs _ (hformed.channel i hi) k).mp htx with rfl | ⟨_, hp⟩
      · exact .self
      · exact .child hp .self
    · obtain ⟨a, ha, hstopped⟩ := h.sent k hk hsent
      exact ⟨a, ha, hold a hstopped⟩
  · rw [stop_flag] at hmade hrun ⊢
    by_cases hji : j = i
    · rw [if_pos hji]
      exact ⟨_, .self, hself⟩
    · rw [if_neg hji] at hmade hrun ⊢
      obtain ⟨a, ha, hstopped⟩ := h.run j hj hmade hrun
      exact ⟨a, ha, hold a hstopped⟩

/-- What is stopped stays stopped. -/
theorem load_stop {j : Nat} (h : s.load (s.flag j) = false) : (s.stop i).load ((s.stop i).flag j) = false := by
  rcases load_eq_false.mp h with hrun | hpending
  · refine load_eq_false.mpr (.inl ?_)
    rw [stop_flag]
    by_cases hj : j = i
    · rw [if_pos hj]
    · rw [if_neg hj]
      exact hrun
  · refine load_eq_false.mpr (.inr ?_)
    simp only [pending, decide_eq_true_eq] at hpending ⊢
    rw [(s.stop_same i j).1, (s.stop_same i j).2.1]
    exact Nat.lt_of_lt_of_le hpending (sent_le_stop s i _)

/-- A message is waiting on the channels a stop sends to. -/
theorem pending_stop (hformed : s.Formed) {j : Nat} (hj : j < s.flags)
    (htx : (s.flag j).channel ∈ (s.channel (s.flag i).channel).txs) : (s.stop i).pending ((s.stop i).flag j) = true := by
  simp only [pending, decide_eq_true_eq]
  rw [(s.stop_same i j).1, (s.stop_same i j).2.1, stop_sent, if_pos htx]
  exact Nat.lt_succ_of_le (hformed.seen j hj)

theorem allTold_stop (hformed : s.Formed) (h : s.AllTold) (hi : i < s.flags) (hshallow : StopsShallow s (.stop i)) :
    (s.stop i).AllTold := by
  intro j hj a ha hstopped
  rw [(s.stop_same i j).1] at ha
  unfold Told
  rw [(s.stop_same i j).2.2]
  by_cases hold : (s.channel a).stopped
  · -- stopped before
    have htold := h j hj a ha hold
    unfold Told at htold
    split
    · rename_i hmade
      rw [hmade] at htold
      exact load_stop htold
    · rename_i m hm
      rw [hm] at htold
      refine htold.imp load_stop fun hp => ?_
      simp only [pending, decide_eq_true_eq] at hp ⊢
      rw [(s.stop_same i j).1, (s.stop_same i j).2.1]
      exact Nat.lt_of_lt_of_le hp (sent_le_stop s i _)
  · have hac : a = (s.flag i).channel := by
      simpa [stop, hold] using hstopped
    subst hac
    have htx : ∀ k, k < s.channels → k = (s.flag i).channel ∨ s.parent k = some (s.flag i).channel →
        k ∈ (s.channel (s.flag i).channel).txs := fun k hk hkc =>
      (hformed.txs _ (hformed.channel i hi) k).mpr (hkc.imp id fun hp => ⟨hk, hp⟩)
    rcases ha.cases_depth with hk | hk | hdeep
    · -- the channel stopped
      have hp := pending_stop (i := i) hformed hj (htx _ (hformed.channel j hj) (.inl hk))
      split
      · exact load_eq_false.mpr (.inr hp)
      · exact .inr hp
    · -- a child of it
      have hp := pending_stop (i := i) hformed hj (htx _ (hformed.channel j hj) (.inr hk))
      split
      · exact load_eq_false.mpr (.inr hp)
      · exact .inr hp
    · -- deeper: a flag that is made is stopped already, and one that is being made has such a maker,
      -- or one that the stop reaches
      split
      · rename_i hmade
        exact load_stop (hshallow j hj hmade hdeep)
      · rename_i m hm
        obtain ⟨hmlt, hmmade, hchannel⟩ := hformed.maker j hj m hm
        left
        rcases hchannel with hsame | hparent
        · rw [hsame] at hdeep
          exact load_stop (hshallow m hmlt hmmade hdeep)
        · obtain ⟨p, q, hp, hq, hqa⟩ := hdeep
          cases hparent.symm.trans hp
          have hmw : Within s.parent (s.flag i).channel (s.flag m).channel := .child hq hqa
          rcases hmw.cases_depth with hk | hk | hdeep
          · exact load_eq_false.mpr (.inr (pending_stop hformed hmlt (htx _ (hformed.channel m hmlt) (.inl hk))))
          · exact load_eq_false.mpr (.inr (pending_stop hformed hmlt (htx _ (hformed.channel m hmlt) (.inr hk))))
          · exact load_stop (hshallow m hmlt hmmade hdeep)

/-- A stop that leaves a deeper flag running leaves the subtree incomplete. -/
theorem not_complete_stop (hformed : s.Formed) (hi : i < s.flags) (hdeep : ¬ StopsShallow s (.stop i)) :
    ¬ (s.stop i).Complete := by
  intro hcomplete
  refine hdeep fun j hj hmade hd => ?_
  have hload := (hcomplete j hj (by rw [(s.stop_same i j).2.2]; exact hmade) (s.flag i).channel
    (by rw [(s.stop_same i j).1]; exact hd.within) (by simp [stop])).1
  -- a parent is older than its children, so what is deep is neither the channel nor a child of it
  obtain ⟨p, q, hp, hq, hqa⟩ := hd
  have hj' := hformed.channel j hj
  have hpj := hformed.parent _ hj' _ hp
  have hqp := hformed.parent p (by omega) q hq
  have hle := hqa.le hformed.parent (by omega)
  have hji : j ≠ i := by
    intro hji
    subst hji
    omega
  have hnot : (s.flag j).channel ∉ (s.channel (s.flag i).channel).txs := by
    intro htx
    rcases (hformed.txs _ (hformed.channel i hi) _).mp htx with hk | ⟨_, hk⟩
    · omega
    · have := Option.some.inj (hp.symm.trans hk)
      omega
  rw [stop_flag, if_neg hji] at hload
  unfold load pending at hload ⊢
  rw [stop_sent, if_neg hnot] at hload
  exact hload

end

/-! ## Histories -/

theorem know_of_wait {s : Flags} {i : Nat} (h : s.waitReturns (s.flag i) = true) :
    s.setFlag i { s.flag i with run := false } = s.know i := by
  rw [waitReturns_eq_load, Bool.not_eq_true'] at h
  rw [know, h]

/-- What a step does, and when. -/
def Does (s s' : Flags) : Act → Prop
  | .default => s' = s.default
  | .beginClone i => s.free i ∧ s' = s.beginClone i
  | .beginChild i => s.free i ∧ s' = s.beginChild i
  | .finish j => ∃ i, j < s.flags ∧ (s.flag j).maker = some i ∧ s' = s.finish i j
  | .load i => s' = s.know i
  | .wait i => s' = s.know i
  | .stop i => s.free i ∧ s' = s.stop i

theorem step_some {s s' : Flags} {a : Act} (h : s.step a = some s') : s.Does s' a := by
  cases a with
  | default => exact (Option.some.inj h).symm
  | beginClone i =>
    simp only [step, Option.ite_none_right_eq_some] at h
    exact ⟨h.1, (Option.some.inj h.2).symm⟩
  | beginChild i =>
    simp only [step, Option.ite_none_right_eq_some] at h
    exact ⟨h.1, (Option.some.inj h.2).symm⟩
  | finish j =>
    simp only [step, Option.ite_none_right_eq_some] at h
    obtain ⟨hj, h⟩ := h
    split at h
    · rename_i i hmaker
      exact ⟨i, hj, hmaker, (Option.some.inj h).symm⟩
    · cases h
  | load i =>
    simp only [step, Option.ite_none_right_eq_some] at h
    exact (Option.some.inj h.2).symm
  | wait i =>
    simp only [step, Option.ite_none_right_eq_some] at h
    exact (Option.some.inj h.2).symm.trans (know_of_wait h.1.2)
  | stop i =>
    simp only [step, Option.ite_none_right_eq_some] at h
    exact ⟨h.1, (Option.some.inj h.2).symm⟩

theorem formed_beginClone {s : Flags} (h : s.Formed) {i : Nat} (hi : s.free i) : (s.beginClone i).Formed :=
  formed_addFlag h (h.channel i hi.1) (Nat.le_refl _) fun m hm => by
    cases hm
    exact ⟨hi.1, hi.2.1, .inl rfl⟩

theorem formed_beginChild {s : Flags} (h : s.Formed) {i : Nat} (hi : s.free i) : (s.beginChild i).Formed := by
  have hext := extends_addChannel (h.channel i hi.1)
  refine formed_addFlag (formed_extends hext h) ?_ (Nat.zero_le _) fun m hm => ?_
  · rw [hext.channels]
    exact Nat.lt_succ_self _
  · cases hm
    refine ⟨hi.1, hi.2.1, .inr ?_⟩
    rw [parent, hext.new]
    rfl

theorem formed_step (s : Flags) (a : Act) (s' : Flags) (h : s.Formed) (hs : s.step a = some s') : s'.Formed := by
  cases a with
  | default =>
    obtain rfl := step_some hs
    have hext := extends_addRoot s
    refine formed_addFlag (formed_extends hext h) ?_ (Nat.zero_le _) fun m hm => (by cases hm)
    rw [hext.channels]
    exact Nat.lt_succ_self _
  | beginClone i =>
    obtain ⟨hi, rfl⟩ := step_some hs
    exact formed_beginClone h hi
  | beginChild i =>
    obtain ⟨hi, rfl⟩ := step_some hs
    exact formed_beginChild h hi
  | finish j =>
    obtain ⟨i, hj, hmaker, rfl⟩ := step_some hs
    rw [finish_eq h hj hmaker]
    exact formed_make (formed_know h i) (by rw [(s.know_same i j).2.2]; exact hmaker)
  | load i =>
    obtain rfl := step_some hs
    exact formed_know h i
  | wait i =>
    obtain rfl := step_some hs
    exact formed_know h i
  | stop i =>
    obtain ⟨_, rfl⟩ := step_some hs
    exact formed_stop h i

theorem caused_step (s : Flags) (a : Act) (s' : Flags) (hformed : s.Formed) (h : s.Caused) (hs : s.step a = some s') :
    s'.Caused := by
  cases a with
  | default =>
    obtain rfl := step_some hs
    exact caused_addFlag (caused_extends (extends_addRoot s) hformed h) fun _ => rfl
  | beginClone i =>
    obtain ⟨_, rfl⟩ := step_some hs
    exact caused_addFlag h fun hm => (by cases hm)
  | beginChild i =>
    obtain ⟨hi, rfl⟩ := step_some hs
    exact caused_addFlag (caused_extends (extends_addChannel (hformed.channel i hi.1)) hformed h) fun hm => (by cases hm)
  | finish j =>
    obtain ⟨i, hj, hmaker, rfl⟩ := step_some hs
    rw [finish_eq hformed hj hmaker]
    exact caused_make (formed_know hformed i) (caused_know hformed h) hj (by rw [(s.know_same i j).2.2]; exact hmaker)
  | load i =>
    obtain rfl := step_some hs
    exact caused_know hformed h
  | wait i =>
    obtain rfl := step_some hs
    exact caused_know hformed h
  | stop i =>
    obtain ⟨hi, rfl⟩ := step_some hs
    exact caused_stop hformed h hi.1

theorem allTold_step (s : Flags) (a : Act) (s' : Flags) (hformed : s.Formed) (h : s.AllTold) (hshallow : s.StopsShallow a)
    (hs : s.step a = some s') : s'.AllTold := by
  cases a with
  | default =>
    obtain rfl := step_some hs
    have hext := extends_addRoot s
    refine allTold_addFlag (formed_extends hext hformed) (allTold_extends hext hformed h) fun a ha hstopped => ?_
    -- the new channel is in no subtree but its own, which is not stopped
    have hnew : s.addRoot.parent s.channels = none := by rw [parent, hext.new]
    rcases ha.cases_depth with hk | hk | ⟨p, _, hp, _⟩
    · rw [← hk, hext.new] at hstopped
      cases hstopped
    · cases hnew.symm.trans hk
    · cases hnew.symm.trans hp
  | beginClone i =>
    obtain ⟨hi, rfl⟩ := step_some hs
    refine allTold_addFlag hformed h fun a ha hstopped => ⟨i, hi.1, rfl, ?_⟩
    exact (h.complete i hi.1 hi.2.1 a ha hstopped).1
  | beginChild i =>
    obtain ⟨hi, rfl⟩ := step_some hs
    have hext := extends_addChannel (hformed.channel i hi.1)
    have htold := allTold_extends hext hformed h
    refine allTold_addFlag (formed_extends hext hformed) htold fun a ha hstopped => ⟨i, hi.1, rfl, ?_⟩
    have hnew : (s.addChannel (s.flag i).channel).parent s.channels = some (s.flag i).channel := by rw [parent, hext.new]
    cases ha with
    | self =>
      rw [hext.new] at hstopped
      cases hstopped
    | child hp ha =>
      cases hnew.symm.trans hp
      exact (htold.complete i hi.1 hi.2.1 a ha hstopped).1
  | finish j =>
    obtain ⟨i, hj, hmaker, rfl⟩ := step_some hs
    rw [finish_eq hformed hj hmaker]
    exact allTold_make (formed_know hformed i) (allTold_know h i) (by rw [(s.know_same i j).2.2]; exact hmaker)
  | load i =>
    obtain rfl := step_some hs
    exact allTold_know h i
  | wait i =>
    obtain rfl := step_some hs
    exact allTold_know h i
  | stop i =>
    obtain ⟨hi, rfl⟩ := step_some hs
    exact allTold_stop hformed h hi.1 hshallow

theorem formed_init : init.Formed :=
  ⟨fun k hk => absurd hk (Nat.not_lt_zero k), fun k hk => absurd hk (Nat.not_lt_zero k),
    fun i hi => absurd hi (Nat.not_lt_zero i), fun i hi => absurd hi (Nat.not_lt_zero i),
    fun i hi => absurd hi (Nat.not_lt_zero i)⟩

theorem formed_run {acts : List Act} {s : Flags} (hrun : run step init acts = some s) : s.Formed :=
  run_invariant_all step formed_step formed_init hrun

theorem caused_run {acts : List Act} {s : Flags} (hrun : run step init acts = some s) : s.Caused := by
  have hinit : init.Formed ∧ init.Caused :=
    ⟨formed_init, fun k hk => absurd hk (Nat.not_lt_zero k), fun i hi => absurd hi (Nat.not_lt_zero i)⟩
  refine (run_invariant_all step (I := fun s => s.Formed ∧ s.Caused) (fun s a s' h hs => ?_) hinit hrun).2
  exact ⟨formed_step s a s' h.1 hs, caused_step s a s' h.1 h.2 hs⟩

theorem allTold_run {acts : List Act} {s : Flags} (hshallow : Along step StopsShallow init acts)
    (hrun : run step init acts = some s) : s.AllTold := by
  have hinit : init.Formed ∧ init.AllTold := ⟨formed_init, fun i hi => absurd hi (Nat.not_lt_zero i)⟩
  refine (run_invariant step (I := fun s => s.Formed ∧ s.AllTold) (fun s a s' h hok hs => ?_) hinit hshallow hrun).2
  exact ⟨formed_step s a s' h.1 hs, allTold_step s a s' h.1 h.2 hok hs⟩

/-- A history all of whose states are complete has only shallow stops. -/
theorem along_of_complete : ∀ {acts : List Act} {s t : Flags}, s.Formed → run step s acts = some t →
    (∀ acts₁ acts₂ s₁, acts = acts₁ ++ acts₂ → run step s acts₁ = some s₁ → s₁.Complete) →
      Along step StopsShallow s acts := by
  intro acts
  induction acts with
  | nil => intro s t _ _ _; trivial
  | cons a acts ih =>
    intro s t hformed hrun hall
    simp only [run] at hrun
    cases hs : s.step a with
    | none => simp [hs] at hrun
    | some s₁ =>
      simp only [hs] at hrun
      have hcomplete : s₁.Complete := hall [a] acts s₁ rfl (by simp [run, hs])
      refine ⟨?_, ?_⟩
      · cases a with
        | stop i =>
          obtain ⟨hi, rfl⟩ := step_some hs
          by_cases hshallow : s.StopsShallow (.stop i)
          · exact hshallow
          · exact absurd hcomplete (not_complete_stop hformed hi.1 hshallow)
        | _ => trivial
      · simp only [hs]
        refine ih (formed_step s a s₁ hformed hs) hrun fun acts₁ acts₂ s₂ heq hrun₁ => ?_
        exact hall (a :: acts₁) acts₂ s₂ (by rw [heq]; rfl) (by simp [run, hs, hrun₁])

/-- **Run flags propagate a stop two levels.** All states of a history are complete, each stop having
reached the whole subtree of its flag, exactly when no stop leaves a flag two levels below it, or
more, running. No stop reaches beyond the subtree. -/
theorem stop_complete_iff {acts : List Act} {s : Flags} (hrun : run step init acts = some s) :
    (Along step StopsShallow init acts ↔
      ∀ acts₁ acts₂ s₁, acts = acts₁ ++ acts₂ → run step init acts₁ = some s₁ → s₁.Complete) ∧
      s.Contained := by
  refine ⟨⟨fun hshallow acts₁ acts₂ s₁ heq hrun₁ => ?_, along_of_complete formed_init hrun⟩, ?_⟩
  · subst heq
    exact (allTold_run ((along_append step hrun₁).mp hshallow).1 hrun₁).complete
  · exact (caused_run hrun).contained (formed_run hrun)

/-- A flag, its child, and the child of that. -/
def threeLevels : List Act := [.default, .beginChild 0, .finish 1, .beginChild 1, .finish 2]

theorem stop_complete_iff_child :
    ∃ s, run step init (threeLevels ++ [.stop 1]) = some s ∧
      (Along step StopsShallow init (threeLevels ++ [.stop 1]) ↔
        ∀ acts₁ acts₂ s₁, threeLevels ++ [.stop 1] = acts₁ ++ acts₂ → run step init acts₁ = some s₁ → s₁.Complete) ∧
      s.Contained := by
  obtain ⟨s, hrun⟩ : ∃ s, run step init (threeLevels ++ [.stop 1]) = some s := ⟨_, rfl⟩
  exact ⟨s, hrun, stop_complete_iff hrun⟩

/-- **A stop does not reach the children of its children.** -/
theorem stop_incomplete : ∃ s, run step init (threeLevels ++ [.stop 0]) = some s ∧ ¬ s.Complete := by
  refine ⟨_, rfl, fun hcomplete => ?_⟩
  have hdeep := hcomplete 2 (by decide) rfl 0 (.child rfl (.child rfl .self)) rfl
  exact absurd hdeep.1 (by decide)

end Flags

end Blockvisor
