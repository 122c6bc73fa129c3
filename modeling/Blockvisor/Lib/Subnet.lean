/-
Ranges of addresses, and subnets. An address is a bit vector; a subnet is the
block of addresses that agree in their first bits, with its first one.

A range lists its addresses in order (`map_toNat_range`), so each once, and
taking the ends off gives the range between them (`range_inner`).
-/
import Mathlib.Algebra.Group.Nat.Defs
import Mathlib.Data.List.Nodup
import Mathlib.Data.List.Range
import Mathlib.Data.Nat.Basic

namespace Subnet

variable {w : Nat} {a b x : BitVec w}

/-- The addresses from one to another, both among them. -/
def range (a b : BitVec w) : List (BitVec w) := (List.range (b.toNat + 1 - a.toNat)).map fun i => a + BitVec.ofNat w i

theorem map_toNat_range (a b : BitVec w) : (range a b).map BitVec.toNat = List.range' a.toNat (b.toNat + 1 - a.toNat) := by
  unfold range
  rw [List.map_map, List.range'_eq_map_range]
  refine List.map_congr_left fun i hi => ?_
  have hlt := List.mem_range.mp hi
  have hb := b.isLt
  show (a + BitVec.ofNat w i).toNat = a.toNat + i
  rw [BitVec.toNat_add, BitVec.toNat_ofNat, Nat.add_mod_mod, Nat.mod_eq_of_lt (by omega)]

theorem toNat_injective : Function.Injective (BitVec.toNat (w := w)) := fun _ _ => BitVec.eq_of_toNat_eq

theorem mem_range : x ∈ range a b ↔ a.toNat ≤ x.toNat ∧ x.toNat ≤ b.toNat := by
  rw [← List.mem_map_of_injective toNat_injective, map_toNat_range, List.mem_range'_1]
  omega

theorem nodup_range (a b : BitVec w) : (range a b).Nodup := by
  refine List.Nodup.of_map BitVec.toNat ?_
  rw [map_toNat_range]
  exact List.nodup_range'

/-- A list of addresses that are a range. -/
theorem eq_range {l : List (BitVec w)} (h : l.map BitVec.toNat = List.range' a.toNat (b.toNat + 1 - a.toNat)) : l = range a b :=
  toNat_injective.list_map (h.trans (map_toNat_range a b).symm)

theorem toNat_add_one (h : a.toNat + 1 < 2 ^ w) : (a + 1#w).toNat = a.toNat + 1 := by
  have hone : (1#w).toNat = 1 := by
    rw [BitVec.toNat_ofNat, Nat.mod_eq_of_lt (by omega)]
  rw [BitVec.toNat_add, hone, Nat.mod_eq_of_lt h]

theorem toNat_sub_one (h : 0 < b.toNat) : (b - 1#w).toNat = b.toNat - 1 := by
  have hb := b.isLt
  have hone : (1#w).toNat = 1 := by
    rw [BitVec.toNat_ofNat, Nat.mod_eq_of_lt (by omega)]
  rw [BitVec.toNat_sub_of_le (by rw [BitVec.le_def, hone]; omega), hone]

/-- The addresses between two that are not next to each other. -/
theorem range_inner (h : a.toNat + 2 ≤ b.toNat) : (range a b).tail.dropLast = range (a + 1#w) (b - 1#w) := by
  have hb := b.isLt
  refine eq_range ?_
  rw [List.map_dropLast, List.map_tail, map_toNat_range, toNat_add_one (by omega), toNat_sub_one (by omega), List.tail_range']
  obtain ⟨n, hn⟩ : ∃ n, b.toNat + 1 - a.toNat - 1 = n + 1 := ⟨b.toNat - a.toNat - 1, by omega⟩
  rw [hn, List.range'_concat, List.dropLast_concat]
  congr 1
  omega

/-- The first and the last one, when these are two. -/
theorem range_ends (h : a.toNat < b.toNat) : (range a b).head? = some a ∧ (range a b).tail.getLast? = some b := by
  constructor
  · refine Option.map_injective toNat_injective ?_
    rw [← List.head?_map, map_toNat_range, List.head?_range', if_neg (by omega)]
    rfl
  · refine Option.map_injective toNat_injective ?_
    rw [← List.getLast?_map, List.map_tail, map_toNat_range, List.tail_range', List.getLast?_range', if_neg (by omega)]
    show some _ = some _
    congr 1
    omega

theorem range_self (a : BitVec w) : range a a = [a] := by
  refine (eq_range ?_).symm
  rw [Nat.add_sub_cancel_left]
  rfl

/-! ## Subnets -/

/-- The addresses that agree with the first one in the first bits; the others are zero in it. -/
structure Cidr (w : Nat) where
  first : BitVec w
  bits : Nat
  bits_le : bits ≤ w
  aligned : 2 ^ (w - bits) ∣ first.toNat

variable (c : Cidr w)

def Cidr.last : BitVec w := c.first + BitVec.ofNat w (2 ^ (w - c.bits) - 1)

def Cidr.iter : List (BitVec w) := range c.first c.last

theorem Cidr.toNat_last : c.last.toNat = c.first.toNat + (2 ^ (w - c.bits) - 1) := by
  have hpos : 0 < 2 ^ (w - c.bits) := Nat.two_pow_pos _
  have hle : 2 ^ (w - c.bits) ≤ 2 ^ w := Nat.pow_le_pow_right (by omega) (Nat.sub_le ..)
  have hlt := c.first.isLt
  -- both are multiples of the size, so the block ends within the addresses
  have hend : c.first.toNat + 2 ^ (w - c.bits) ≤ 2 ^ w := by
    obtain ⟨k, hk⟩ := c.aligned
    obtain ⟨n, hn⟩ : 2 ^ (w - c.bits) ∣ 2 ^ w := Nat.pow_dvd_pow 2 (Nat.sub_le ..)
    rw [hk, hn] at hlt ⊢
    have hkn : k < n := Nat.lt_of_mul_lt_mul_left hlt
    calc 2 ^ (w - c.bits) * k + 2 ^ (w - c.bits) = 2 ^ (w - c.bits) * (k + 1) := by rw [Nat.mul_add, Nat.mul_one]
      _ ≤ 2 ^ (w - c.bits) * n := Nat.mul_le_mul_left _ hkn
  unfold Cidr.last
  rw [BitVec.toNat_add, BitVec.toNat_ofNat, Nat.add_mod_mod, Nat.mod_eq_of_lt (by omega)]

theorem Cidr.mem_iter {x : BitVec w} : x ∈ c.iter ↔ c.first.toNat ≤ x.toNat ∧ x.toNat ≤ c.last.toNat := mem_range

/-- As many addresses as the other bits can make. -/
theorem Cidr.first_lt_last {k : Nat} (h : c.bits + k ≤ w) : c.first.toNat + (2 ^ k - 1) ≤ c.last.toNat := by
  have hle : 2 ^ k ≤ 2 ^ (w - c.bits) := Nat.pow_le_pow_right (by omega) (by omega)
  rw [c.toNat_last]
  omega

theorem Cidr.last_eq_first (h : c.bits = w) : c.last = c.first := by
  refine BitVec.eq_of_toNat_eq ?_
  rw [c.toNat_last, h, Nat.sub_self]
  rfl

end Subnet
