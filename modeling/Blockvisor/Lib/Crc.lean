/-
Cyclic redundancy checks of a register of `w` bits, most significant bit
first: a byte is added to the top of the register, which is then shifted out
by eight steps of division by the polynomial.

The register is linear in what it is fed with (`steps_xor`), and a step loses
nothing as long as the polynomial has a constant term (`step_injective`). So
up to `w` bits of consecutive bytes can be read back from the register they
lead to (`feed_word`, `word_injective`), and a change within them shows in
every checksum (`Crc.burst`).
-/
import Mathlib.Data.List.Basic

structure Crc (w : Nat) where
  poly : BitVec w
  init : BitVec w
  xorout : BitVec w
  deriving DecidableEq, Repr

namespace Crc

variable {w : Nat} (crc : Crc w)

/-- One bit is shifted out. -/
def step (r : BitVec w) : BitVec w := if r.msb then r <<< 1 ^^^ crc.poly else r <<< 1

def steps : Nat → BitVec w → BitVec w
  | 0, r => r
  | n + 1, r => steps n (crc.step r)

/-- A byte at the top of the register. -/
def top (b : UInt8) : BitVec w := b.toBitVec.setWidth w <<< (w - 8)

def feedByte (r : BitVec w) (b : UInt8) : BitVec w := crc.steps 8 (r ^^^ top b)

/-- `Digest::update`. -/
def update (r : BitVec w) (bytes : List UInt8) : BitVec w := bytes.foldl crc.feedByte r

/-- `Digest::finalize`. -/
def finalize (r : BitVec w) : BitVec w := r ^^^ crc.xorout

def checksum (bytes : List UInt8) : BitVec w := crc.finalize (crc.update crc.init bytes)

theorem update_append (r : BitVec w) (a b : List UInt8) : crc.update r (a ++ b) = crc.update (crc.update r a) b := by
  simp [update]

/-- A digest fed piece by piece is that of the whole. -/
theorem update_flatten (r : BitVec w) (parts : List (List UInt8)) : parts.foldl crc.update r = crc.update r parts.flatten := by
  induction parts generalizing r with
  | nil => rfl
  | cons part parts ih => rw [List.foldl_cons, ih, List.flatten_cons, update_append]

/-! ## The register -/

theorem xor_xor_xor_comm (a b c d : BitVec w) : a ^^^ b ^^^ (c ^^^ d) = a ^^^ c ^^^ (b ^^^ d) := by
  rw [BitVec.xor_assoc, BitVec.xor_assoc, ← BitVec.xor_assoc b, BitVec.xor_comm b c, BitVec.xor_assoc c]

theorem step_xor (a b : BitVec w) : crc.step (a ^^^ b) = crc.step a ^^^ crc.step b := by
  unfold step
  rw [BitVec.msb_xor, BitVec.shiftLeft_xor_distrib]
  cases a.msb with
  | false =>
    cases b.msb with
    | false => rfl
    | true => simp [BitVec.xor_assoc]
  | true =>
    cases b.msb with
    | false =>
      simp only [if_true, Bool.xor_false, Bool.false_eq_true, if_false]
      rw [BitVec.xor_assoc, BitVec.xor_comm (b <<< 1), ← BitVec.xor_assoc]
    | true =>
      simp only [if_true, Bool.xor_self, Bool.false_eq_true, if_false]
      rw [xor_xor_xor_comm, BitVec.xor_self, BitVec.xor_zero]

theorem steps_xor (n : Nat) (a b : BitVec w) : crc.steps n (a ^^^ b) = crc.steps n a ^^^ crc.steps n b := by
  induction n generalizing a b with
  | zero => rfl
  | succ n ih => rw [steps, step_xor, ih, steps, steps]

theorem steps_add (m n : Nat) (r : BitVec w) : crc.steps (m + n) r = crc.steps n (crc.steps m r) := by
  induction m generalizing r with
  | zero => rw [Nat.zero_add, steps]
  | succ m ih => rw [Nat.succ_add, steps, ih, steps]

/-- What has room at the top is only shifted. -/
theorem steps_shift {n : Nat} {r : BitVec w} (h : ∀ i, w ≤ i + n → r.getLsbD i = false) : crc.steps n r = r <<< n := by
  induction n generalizing r with
  | zero => simp [steps]
  | succ n ih =>
    have hmsb : r.msb = false := by
      rw [BitVec.msb_eq_getLsbD_last]
      exact h _ (by omega)
    have hstep : crc.step r = r <<< 1 := by rw [step, hmsb]; simp
    rw [steps, hstep, ih, ← BitVec.shiftLeft_add, Nat.add_comm]
    intro i hi
    rw [BitVec.getLsbD_shiftLeft]
    by_cases hi0 : i < 1
    · simp [hi0]
    · rw [h (i - 1) (by omega)]
      simp

/-! ## Bursts -/

/-- The polynomial has a constant term. -/
def Odd : Prop := crc.poly.getLsbD 0 = true

variable {crc}

theorem step_eq_zero (hodd : crc.Odd) {r : BitVec w} (h : crc.step r = 0#w) : r = 0#w := by
  unfold step at h
  split at h
  · have h0 : (r <<< 1 ^^^ crc.poly).getLsbD 0 = false := by rw [h]; simp
    rw [BitVec.getLsbD_xor, hodd] at h0
    simp at h0
  · rename_i hmsb
    apply BitVec.eq_of_getLsbD_eq
    intro i hi
    rw [BitVec.getLsbD_zero]
    by_cases hlast : i + 1 < w
    · have hshift : (r <<< 1).getLsbD (i + 1) = false := by rw [h, BitVec.getLsbD_zero]
      simpa only [BitVec.getLsbD_shiftLeft, hlast, decide_true, Bool.true_and, Nat.add_sub_cancel, Nat.not_lt.mpr (Nat.le_add_left 1 i),
        decide_false, Bool.not_false] using hshift
    · rw [show i = w - 1 by omega, ← BitVec.msb_eq_getLsbD_last]
      simpa using hmsb

theorem step_injective (hodd : crc.Odd) {a b : BitVec w} (h : crc.step a = crc.step b) : a = b := by
  refine BitVec.xor_eq_zero_iff.mp (step_eq_zero hodd ?_)
  rw [step_xor, h, BitVec.xor_self]

theorem steps_injective (hodd : crc.Odd) {n : Nat} {a b : BitVec w} (h : crc.steps n a = crc.steps n b) : a = b := by
  induction n generalizing a b with
  | zero => exact h
  | succ n ih => exact step_injective hodd (ih h)

/-- Bytes, the first of them at the top of the register. -/
def word : List UInt8 → BitVec w
  | [] => 0
  | b :: bytes => top b ^^^ word bytes >>> 8

theorem getLsbD_top {b : UInt8} {i : Nat} (hi : i + 8 < w) : (top b : BitVec w).getLsbD i = false := by
  simp [top, BitVec.getLsbD_shiftLeft]
  omega

/-- What `n` bytes do not reach of the register is zero. -/
theorem getLsbD_word {bytes : List UInt8} {i : Nat} (hi : i + 8 * bytes.length < w) : (word bytes : BitVec w).getLsbD i = false := by
  induction bytes generalizing i with
  | nil => simp [word]
  | cons b bytes ih =>
    rw [List.length_cons] at hi
    rw [word, BitVec.getLsbD_xor, getLsbD_top (by omega), BitVec.getLsbD_ushiftRight, ih (by omega)]
    rfl

theorem word_shift {bytes : List UInt8} (h : 8 * (bytes.length + 1) ≤ w) : (word bytes : BitVec w) >>> 8 <<< 8 = word bytes := by
  apply BitVec.eq_of_getLsbD_eq
  intro i hi
  rw [BitVec.getLsbD_shiftLeft]
  by_cases h8 : i < 8
  · rw [getLsbD_word (by omega)]
    simp [h8]
  · simp [hi, h8, show 8 + (i - 8) = i by omega]

/-- Bytes one by one are their word at once. -/
theorem feed_word {bytes : List UInt8} (h : 8 * bytes.length ≤ w) (r : BitVec w) :
    crc.update r bytes = crc.steps (8 * bytes.length) (r ^^^ word bytes) := by
  induction bytes generalizing r with
  | nil => simp [update, word, steps]
  | cons b bytes ih =>
    rw [List.length_cons] at h
    have hroom : crc.steps 8 (word bytes >>> 8) = word bytes := by
      rw [steps_shift, word_shift h]
      intro i hi
      rw [BitVec.getLsbD_ushiftRight]
      exact BitVec.getLsbD_of_ge _ _ (by omega)
    calc crc.update r (b :: bytes) = crc.update (crc.feedByte r b) bytes := rfl
      _ = crc.steps (8 * bytes.length) (crc.steps 8 (r ^^^ top b) ^^^ word bytes) := ih (by omega) _
      _ = crc.steps (8 * bytes.length) (crc.steps 8 (r ^^^ word (b :: bytes))) := by
        rw [word, ← BitVec.xor_assoc, steps_xor crc 8 _ (word bytes >>> 8), hroom]
      _ = crc.steps (8 * (b :: bytes).length) (r ^^^ word (b :: bytes)) := by
        rw [← steps_add, List.length_cons, Nat.mul_succ, Nat.add_comm]

theorem word_injective {a b : List UInt8} (hlen : a.length = b.length) (h : 8 * a.length ≤ w) (hword : (word a : BitVec w) = word b) :
    a = b := by
  induction a generalizing b with
  | nil => exact (List.length_eq_zero_iff.mp hlen.symm).symm
  | cons x a ih =>
    cases b with
    | nil => cases hlen
    | cons y b =>
      rw [List.length_cons] at h
      rw [List.length_cons, List.length_cons, Nat.add_right_cancel_iff] at hlen
      have hbits : ∀ i, i < w → ((top x : BitVec w).getLsbD i ^^ (word a : BitVec w).getLsbD (8 + i)) =
          ((top y : BitVec w).getLsbD i ^^ (word b : BitVec w).getLsbD (8 + i)) := by
        intro i _
        have := congrArg (fun r => BitVec.getLsbD r i) hword
        simpa [word] using this
      have hxy : x = y := by
        apply UInt8.toBitVec_inj.mp
        apply BitVec.eq_of_getLsbD_eq
        intro i hi
        have := hbits (w - 8 + i) (by omega)
        rw [BitVec.getLsbD_of_ge (word a) _ (by omega), BitVec.getLsbD_of_ge (word b) _ (by omega)] at this
        simpa [top, show w - 8 + i < w by omega, show i < w by omega, show ¬ w - 8 + i < w - 8 by omega] using this
      subst hxy
      rw [ih hlen (by omega)]
      apply BitVec.eq_of_getLsbD_eq
      intro i hi
      by_cases h8 : i < 8
      · rw [getLsbD_word (by omega), getLsbD_word (by omega)]
      · have := hbits (i - 8) (by omega)
        simpa [show 8 + (i - 8) = i by omega] using this

theorem update_injective (hodd : crc.Odd) {bytes : List UInt8} {r s : BitVec w} (h : crc.update r bytes = crc.update s bytes) : r = s := by
  induction bytes generalizing r s with
  | nil => exact h
  | cons b bytes ih =>
    have hfed : crc.feedByte r b = crc.feedByte s b := ih h
    exact (BitVec.xor_left_inj _).mp (steps_injective hodd hfed)

/-- **A checksum tells bursts.** Contents that differ within as many consecutive bytes as the
register holds, and nowhere else, have different checksums. -/
theorem burst (hodd : crc.Odd) {first a b last : List UInt8} (hlen : a.length = b.length) (h : 8 * a.length ≤ w)
    (hsum : crc.checksum (first ++ a ++ last) = crc.checksum (first ++ b ++ last)) : a = b := by
  have hfinal : crc.update crc.init (first ++ a ++ last) = crc.update crc.init (first ++ b ++ last) := by
    simpa only [checksum, finalize, BitVec.xor_left_inj] using hsum
  rw [update_append, update_append, update_append, update_append] at hfinal
  have hregister := update_injective hodd hfinal
  generalize crc.update crc.init first = r at hregister
  have hb : 8 * b.length ≤ w := by rw [← hlen]; exact h
  rw [feed_word h, feed_word hb, ← hlen] at hregister
  exact word_injective hlen h ((BitVec.xor_right_inj _).mp (steps_injective hodd hregister))

end Crc
