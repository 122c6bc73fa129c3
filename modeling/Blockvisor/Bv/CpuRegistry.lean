/-
The free cores of the host (`CpuRegistry`). Cores are taken from the end of
the list and given back to its end.
-/
import Mathlib.Data.List.Perm.Basic
import Mathlib.Data.List.Perm.Subperm

namespace Blockvisor

abbrev CpuRegistry := List Nat

namespace CpuRegistry

def new (availableCpus : Nat) : CpuRegistry := List.range availableCpus

/-- The cores acquired, and the registry without them. -/
def acquire (r : CpuRegistry) (count : Nat) : Except String (List Nat × CpuRegistry) :=
  if r.length < count then .error "not enough cpu cores"
  else .ok (r.drop (r.length - count), r.take (r.length - count))

def markAcquired (r : CpuRegistry) (cpus : List Nat) : CpuRegistry := r.filter (· ∉ cpus)

def release (r : CpuRegistry) (cpus : List Nat) : CpuRegistry := r ++ cpus

theorem acquire_ok {r r' : CpuRegistry} {count : Nat} {cpus : List Nat} (h : r.acquire count = .ok (cpus, r')) :
    r' ++ cpus = r ∧ cpus.length = count := by
  unfold acquire at h
  split at h
  · cases h
  · rename_i hlen
    cases h
    refine ⟨List.take_append_drop _ _, ?_⟩
    rw [List.length_drop]
    omega

/-- Marking cores that are all there, once, takes just these out. -/
theorem markAcquired_perm {r cpus : List Nat} (hr : r.Nodup) (hcpus : cpus.Nodup) (hsub : ∀ c ∈ cpus, c ∈ r) :
    (markAcquired r cpus ++ cpus).Perm r := by
  refine (List.perm_ext_iff_of_nodup ?_ hr).mpr fun c => ?_
  · refine List.nodup_append.mpr ⟨hr.filter _, hcpus, ?_⟩
    intro a ha b hb hab
    subst hab
    simp [markAcquired, hb] at ha
  · simp only [markAcquired, List.mem_append, List.mem_filter, decide_not, Bool.not_eq_true', decide_eq_false_iff_not]
    constructor
    · rintro (⟨hc, _⟩ | hc)
      · exact hc
      · exact hsub c hc
    · intro hc
      by_cases hin : c ∈ cpus
      · exact .inr hin
      · exact .inl ⟨hc, hin⟩

end CpuRegistry

end Blockvisor
