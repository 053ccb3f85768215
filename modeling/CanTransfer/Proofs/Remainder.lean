import Mathlib.Algebra.CharP.Two
import Mathlib.Algebra.Field.ZMod
import Mathlib.Algebra.Polynomial.Div
import Mathlib.Tactic.LinearCombination
import CanTransfer.Proofs.Register

/-!
# The register as a remainder

Bits are read as the coefficients of polynomials over the field with two elements. Bytes that are fed
to the register multiply what it holds by a power of x and add themselves, shifted by the width of
the register; of the sum, the register keeps the remainder modulo the generator.

* `polynomialOf`, `coeff_polynomialOf` — the polynomial with given coefficients, highest first.
* `Bytes.toPolynomial`, `Crc.toPolynomial`, `Crc.generator` — a byte string, a register, and the
  polynomial by which the register divides.
* `Crc.toPolynomial_feedBit` — one bit, which may cost one subtraction of the generator.
* `Crc.exists_quotient` — many bits, and the quotient that is lost on the way.
* `Crc.addAll_eq_remainder` — feeding bytes is division with remainder.
-/

set_option autoImplicit false

namespace CanTransfer

open Polynomial

/-! ## Bits as coefficients -/

/-- The coefficient that a bit stands for. -/
def coefficientOf (bit : Bool) : ZMod 2 := if bit then 1 else 0

theorem coefficientOf_xor (a b : Bool) :
    coefficientOf (a ^^ b) = coefficientOf a + coefficientOf b := by
  cases a <;> cases b <;> rfl

theorem coefficientOf_eq_one_iff {bit : Bool} : coefficientOf bit = 1 ↔ bit = true := by
  cases bit <;> simp [coefficientOf]

/-- The polynomial with the given coefficients, highest first. -/
noncomputable def polynomialOf : List Bool → (ZMod 2)[X]
  | [] => 0
  | bit :: rest => C (coefficientOf bit) * X ^ rest.length + polynomialOf rest

theorem polynomialOf_append (a b : List Bool) :
    polynomialOf (a ++ b) = polynomialOf a * X ^ b.length + polynomialOf b := by
  induction a with
  | nil => simp [polynomialOf]
  | cons bit a ih =>
    rw [List.cons_append, polynomialOf, ih, polynomialOf, List.length_append, pow_add]
    ring

theorem polynomialOf_replicate_false (n : Nat) : polynomialOf (List.replicate n false) = 0 := by
  induction n with
  | zero => rfl
  | succ n ih => simp [List.replicate_succ, polynomialOf, ih, coefficientOf]

/-- The last bit is the constant term. -/
theorem coeff_polynomialOf (bits : List Bool) (i : Nat) :
    (polynomialOf bits).coeff i = coefficientOf (bits.reverse.getD i false) := by
  induction bits with
  | nil => rfl
  | cons bit rest ih =>
    rw [polynomialOf, coeff_add, coeff_C_mul_X_pow, ih, List.reverse_cons,
      List.getD_eq_getElem?_getD, List.getD_eq_getElem?_getD]
    rcases Nat.lt_trichotomy i rest.length with hlt | rfl | hgt
    · rw [if_neg (by omega), zero_add, List.getElem?_append_left (by simpa using hlt)]
    · simp [coefficientOf]
    · have hshort : rest.reverse.length < i := by rwa [List.length_reverse]
      rw [if_neg (by omega), zero_add, List.getElem?_eq_none (Nat.le_of_lt hshort),
        List.getElem?_eq_none (by rwa [List.length_append])]

/-- A byte string as a polynomial: the first bit of the first byte is the highest coefficient. -/
noncomputable def Bytes.toPolynomial (bytes : Bytes) : (ZMod 2)[X] := polynomialOf bytes.bits

namespace Crc

/-- A register as a polynomial of degree less than sixteen. -/
noncomputable def toPolynomial (r : Crc) : (ZMod 2)[X] := polynomialOf r.coefficients

/-- The polynomial by which the register divides. -/
noncomputable def generator : (ZMod 2)[X] := X ^ 16 + X ^ 12 + X ^ 5 + 1

theorem coeff_toPolynomial (r : Crc) (i : Nat) :
    r.toPolynomial.coeff i = coefficientOf (r.getLsbD i) := by
  rw [toPolynomial, coeff_polynomialOf, List.getD_eq_getElem?_getD]
  congr 1
  by_cases hi : i < 16
  · rw [List.getElem?_reverse (by simpa using hi), length_coefficients, coefficients,
      List.getElem?_map, List.getElem?_range (by omega), BitVec.getLsbD_eq_getMsbD,
      decide_eq_true hi]
    rfl
  · have hlength : r.coefficients.reverse.length = 16 := by simp
    rw [List.getElem?_eq_none (by omega), BitVec.getLsbD_of_ge r i (by omega)]
    rfl

theorem degree_toPolynomial_lt (r : Crc) : r.toPolynomial.degree < (16 : Nat) := by
  rw [degree_lt_iff_coeff_zero]
  intro i hi
  rw [coeff_toPolynomial, BitVec.getLsbD_of_ge r i hi]
  rfl

theorem toPolynomial_xor (r s : Crc) :
    (r ^^^ s).toPolynomial = r.toPolynomial + s.toPolynomial := by
  ext i
  rw [coeff_add, coeff_toPolynomial, coeff_toPolynomial, coeff_toPolynomial, BitVec.getLsbD_xor,
    coefficientOf_xor]

theorem toPolynomial_highBit (bit : Bool) :
    (highBit bit).toPolynomial = C (coefficientOf bit) * X ^ 15 := by
  have hcoefficients : (highBit bit).coefficients = bit :: List.replicate 15 false := by
    cases bit <;> decide
  rw [toPolynomial, hcoefficients, polynomialOf, polynomialOf_replicate_false, add_zero,
    List.length_replicate]

theorem toPolynomial_reduction (carry : Bool) :
    (reduction carry).toPolynomial = C (coefficientOf carry) * polynomial.toPolynomial := by
  cases carry with
  | true => simp [reduction, coefficientOf]
  | false =>
    have hcoefficients : (reduction false).coefficients = List.replicate 16 false := by decide
    rw [toPolynomial, hcoefficients, polynomialOf_replicate_false]
    simp [coefficientOf]

/-- The register holds the generator without its highest term. -/
theorem generator_eq : generator = X ^ 16 + polynomial.toPolynomial := by
  have hcoefficients : polynomial.coefficients =
      [false, false, false, true, false, false, false, false, false, false, true, false, false,
        false, false, true] := by decide
  rw [generator, toPolynomial, hcoefficients]
  simp [polynomialOf, coefficientOf, add_assoc]

theorem generator_monic : generator.Monic := by
  rw [generator_eq]
  exact monic_X_pow_add (degree_toPolynomial_lt polynomial)

theorem degree_generator : generator.degree = (16 : Nat) := by
  have hlow : polynomial.toPolynomial.degree < (X ^ 16 : (ZMod 2)[X]).degree := by
    rw [degree_X_pow]
    exact degree_toPolynomial_lt polynomial
  rw [generator_eq, degree_add_eq_left_of_degree_lt hlow, degree_X_pow]

/-! ## Division, bit by bit -/

/-- A shift multiplies by x. The bit that is shifted out says whether the generator is subtracted. -/
theorem toPolynomial_shift (r : Crc) :
    (shift r).toPolynomial + generator * C (coefficientOf r.msb) = r.toPolynomial * X := by
  have hleft : C (coefficientOf r.msb) * X ^ 16 + toPolynomial (r <<< 1) =
      r.toPolynomial * X := by
    have hmoved := congrArg polynomialOf (coefficients_shiftLeft r)
    have hlast : polynomialOf [false] = 0 := polynomialOf_replicate_false 1
    rw [polynomialOf, polynomialOf_append, length_coefficients, hlast, List.length_singleton,
      pow_one, add_zero] at hmoved
    exact hmoved
  have htwice := CharTwo.add_self_eq_zero (C (coefficientOf r.msb) * polynomial.toPolynomial)
  rw [shift_eq_reduction, toPolynomial_xor, toPolynomial_reduction, generator_eq]
  linear_combination hleft + htwice

/-- A bit that is fed enters as a coefficient of x^16. -/
theorem toPolynomial_feedBit (r : Crc) (bit : Bool) :
    ∃ q, (feedBit r bit).toPolynomial + generator * q =
      r.toPolynomial * X + C (coefficientOf bit) * X ^ 16 := by
  have hshift := toPolynomial_shift (r ^^^ highBit bit)
  rw [toPolynomial_xor, toPolynomial_highBit] at hshift
  refine ⟨_, hshift.trans ?_⟩
  ring

/-- Bits that are fed leave their sum with what was there, up to a multiple of the generator. -/
theorem exists_quotient (r : Crc) (bits : List Bool) :
    ∃ q, (feedBits r bits).toPolynomial + generator * q =
      r.toPolynomial * X ^ bits.length + polynomialOf bits * X ^ 16 := by
  induction bits generalizing r with
  | nil => exact ⟨0, by simp [feedBits, polynomialOf]⟩
  | cons bit rest ih =>
    obtain ⟨carry, hbit⟩ := toPolynomial_feedBit r bit
    obtain ⟨q, hrest⟩ := ih (feedBit r bit)
    refine ⟨q + carry * X ^ rest.length, ?_⟩
    have hfeed : feedBits r (bit :: rest) = feedBits (feedBit r bit) rest := rfl
    rw [hfeed, polynomialOf, List.length_cons]
    linear_combination hrest + X ^ rest.length * hbit

/-- **The register holds a remainder.** Fed with `n` bytes `m`, a register `v` becomes the remainder
of v x^(8n) + m x^16 modulo the generator, and its bits are the coefficients of it. -/
theorem addAll_eq_remainder (v : Crc) (bytes : Bytes) :
    (addAll v bytes).toPolynomial =
        (v.toPolynomial * X ^ (8 * bytes.length) + bytes.toPolynomial * X ^ 16) %ₘ generator ∧
      ∀ i, (addAll v bytes).getLsbD i = true ↔
        ((v.toPolynomial * X ^ (8 * bytes.length) + bytes.toPolynomial * X ^ 16) %ₘ
          generator).coeff i = 1 := by
  have hremainder : (addAll v bytes).toPolynomial =
      (v.toPolynomial * X ^ (8 * bytes.length) + bytes.toPolynomial * X ^ 16) %ₘ generator := by
    obtain ⟨q, hq⟩ := exists_quotient v bytes.bits
    rw [← addAll_eq_feedBits, Bytes.length_bits] at hq
    have hdegree : (addAll v bytes).toPolynomial.degree < generator.degree := by
      rw [degree_generator]
      exact degree_toPolynomial_lt _
    exact (div_modByMonic_unique q _ generator_monic ⟨hq, hdegree⟩).2.symm
  refine ⟨hremainder, ?_⟩
  intro i
  rw [← hremainder, coeff_toPolynomial, coefficientOf_eq_one_iff]

end Crc

end CanTransfer
