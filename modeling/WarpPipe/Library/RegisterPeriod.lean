import Mathlib.Algebra.BigOperators.Ring.List
import Mathlib.GroupTheory.OrderOfElement
import WarpPipe.Library.ShiftRegister

/-!
How far a register that shifts right runs before it returns to where it was. A register is a
polynomial modulo the one that it divides by, and a step without a message multiplies by `x`, so
that products of registers jump far ahead and the steps until the return are the order of `x`.
-/

namespace ShiftRegister

variable {w : Nat}

theorem idle_add (poly reg : BitVec w) (first second : Nat) :
    idle poly reg (first + second) = idle poly (idle poly reg first) second := by
  rw [idle, List.replicate_add, lsbRun_append]
  rfl

theorem idle_comm (poly reg : BitVec w) (first second : Nat) :
    idle poly (idle poly reg first) second = idle poly (idle poly reg second) first := by
  rw [← idle_add, ← idle_add, Nat.add_comm]

def one (w : Nat) : BitVec w := word w (List.replicate (w - 1) false ++ [true])

theorem lsbStep_true (poly reg : BitVec w) :
    lsbStep poly reg true = lsbStep poly reg false ^^^ poly := by
  have step := lsbStep_xor poly reg 0#w false true
  have bit : lsbStep poly 0#w true = poly := by simp [lsbStep]
  rwa [BitVec.xor_zero, bit] at step

theorem idle_one (poly : BitVec w) (some : 0 < w) : idle poly (one w) w = poly := by
  have length : (List.replicate (w - 1) false ++ [true]).length = w := by
    rw [List.length_append, List.length_replicate, List.length_singleton]
    omega
  have run := lsbRun_eq_idle poly 0#w length.le
  rw [BitVec.zero_xor, length, lsbRun_append] at run
  rw [one, ← run]
  change lsbStep poly (idle poly 0#w (w - 1)) true = poly
  rw [idle_zero, lsbStep_true]
  simp [lsbStep]

/-- The product of two registers: Horner's rule over the bits of the left one. -/
def times (poly left right : BitVec w) : BitVec w :=
  (bitsOf left).foldl (fun sum bit => lsbStep poly sum false ^^^ if bit then right else 0#w) 0#w

theorem times_idle (poly left right : BitVec w) (count : Nat) :
    times poly left (idle poly right count) = idle poly (times poly left right) count := by
  have horner : ∀ (bits : List Bool) (sum : BitVec w),
      bits.foldl
        (fun sum bit => lsbStep poly sum false ^^^ if bit then idle poly right count else 0#w)
        (idle poly sum count) =
      idle poly
        (bits.foldl (fun sum bit => lsbStep poly sum false ^^^ if bit then right else 0#w) sum)
        count := by
    intro bits
    induction bits with
    | nil =>
        intro sum
        rfl
    | cons bit bits ih =>
        intro sum
        rw [List.foldl_cons, List.foldl_cons, ← ih, idle_xor]
        have shifted : idle poly (lsbStep poly sum false) count =
            lsbStep poly (idle poly sum count) false :=
          idle_comm poly sum 1 count
        rw [shifted]
        cases bit with
        | true => rfl
        | false => rw [if_neg Bool.false_ne_true, if_neg Bool.false_ne_true, idle_zero]
  have product := horner (bitsOf left) 0#w
  rwa [idle_zero] at product

theorem times_one {poly : BitVec w} (constant : poly.msb = true) (some : 0 < w) (left : BitVec w) :
    times poly left (one w) = left := by
  have run : times poly left poly = lsbRun poly 0#w (bitsOf left) := by
    rw [times, lsbRun]
    congr 1
    funext sum bit
    cases bit with
    | true => rw [if_pos rfl, lsbStep_true]
    | false => rw [if_neg Bool.false_ne_true, BitVec.xor_zero]
  have ahead : idle poly (times poly left (one w)) w = idle poly left w := by
    rw [← times_idle, idle_one poly some, run, lsbRun_eq_idle _ _ (length_bitsOf left).le,
      length_bitsOf, word_bitsOf, BitVec.setWidth_eq, BitVec.zero_xor]
  exact (idle_inj constant).mp ahead

theorem times_powers {poly : BitVec w} (constant : poly.msb = true) (some : 0 < w)
    (first second : Nat) :
    times poly (idle poly (one w) first) (idle poly (one w) second) =
      idle poly (one w) (first + second) := by
  rw [times_idle, times_one constant some, ← idle_add]

def power (poly : BitVec w) : Nat → Nat → BitVec w
  | 0, _ => one w
  | bits + 1, exponent =>
    let half := power poly bits (exponent / 2)
    let square := times poly half half
    if exponent % 2 = 1 then lsbStep poly square false else square

theorem power_eq {poly : BitVec w} (constant : poly.msb = true) (some : 0 < w) {bits exponent : Nat}
    (fits : exponent < 2 ^ bits) : power poly bits exponent = idle poly (one w) exponent := by
  induction bits generalizing exponent with
  | zero =>
      have zero : exponent = 0 := by omega
      rw [zero]
      rfl
  | succ bits ih =>
      have half := ih (show exponent / 2 < 2 ^ bits by omega)
      have square := times_powers constant some (exponent / 2) (exponent / 2)
      simp only [power, half, square]
      by_cases odd : exponent % 2 = 1
      · rw [if_pos odd]
        have step := idle_add poly (one w) (exponent / 2 + exponent / 2) 1
        rw [show exponent / 2 + exponent / 2 + 1 = exponent by omega] at step
        rw [step]
        rfl
      · rw [if_neg odd, show exponent / 2 + exponent / 2 = exponent by omega]

/-! The order of `x`. -/

def shift (poly : BitVec w) : Function.End (BitVec w) := fun reg => lsbStep poly reg false

theorem shift_pow (poly reg : BitVec w) (count : Nat) :
    (shift poly ^ count) reg = idle poly reg count := by
  induction count generalizing reg with
  | zero => rfl
  | succ count ih =>
      rw [pow_succ]
      exact ih (shift poly reg)

theorem shift_pow_eq_one_iff {poly : BitVec w} (constant : poly.msb = true) (some : 0 < w)
    {count : Nat} :
    shift poly ^ count = 1 ↔ idle poly (one w) count = one w := by
  constructor
  · intro identity
    rw [← shift_pow, identity]
    rfl
  · intro returns
    funext reg
    rw [shift_pow]
    have product := times_idle poly reg (one w) count
    rw [returns, times_one constant some] at product
    exact product.symm

/-- The order of `x`, from its prime factors and the powers that leave out one of them each. -/
theorem orderOf_shift {poly : BitVec w} (constant : poly.msb = true) (some : 0 < w) (bits : Nat)
    {factors : List Nat} (primes : ∀ factor ∈ factors, factor.Prime)
    (fits : factors.prod < 2 ^ bits) (returns : power poly bits factors.prod = one w)
    (notBefore : ∀ factor ∈ factors, power poly bits (factors.prod / factor) ≠ one w) :
    orderOf (shift poly) = factors.prod := by
  have positive : 0 < factors.prod := by
    refine Nat.pos_of_ne_zero (List.prod_ne_zero ?_)
    intro member
    exact Nat.not_prime_zero (primes 0 member)
  refine orderOf_eq_of_pow_and_pow_div_prime positive ?_ ?_
  · rw [shift_pow_eq_one_iff constant some, ← power_eq constant some fits]
    exact returns
  · intro prime isPrime divides identity
    obtain ⟨factor, member, divided⟩ := isPrime.prime.dvd_prod_iff.mp divides
    rw [(Nat.prime_dvd_prime_iff_eq isPrime (primes factor member)).mp divided,
      shift_pow_eq_one_iff constant some,
      ← power_eq constant some (Nat.lt_of_le_of_lt (Nat.div_le_self _ _) fits)] at identity
    exact notBefore factor member identity

def Pair (distance : Nat) (bits : List Bool) : Prop :=
  0 < distance ∧ ∃ start, start + distance < bits.length ∧
    ∀ index, bits.getD index false = true ↔ index = start ∨ index = start + distance

theorem pair_split {distance : Nat} {bits : List Bool} (pair : Pair distance bits) :
    ∃ before after, bits = List.replicate before false ++ true ::
      (List.replicate (distance - 1) false ++ true :: List.replicate after false) := by
  obtain ⟨positive, start, inside, set⟩ := pair
  refine ⟨start, bits.length - (start + distance + 1), ?_⟩
  apply List.ext_getElem
  · simp only [List.length_append, List.length_cons, List.length_replicate]
    omega
  · intro index bound other
    rw [← List.getD_eq_getElem bits false bound, Bool.eq_iff_iff, set index]
    simp only [List.getElem_append, List.getElem_cons, List.getElem_replicate,
      List.length_replicate]
    by_cases before : index < start
    · simp [before]
      omega
    · by_cases first : index - start = 0
      · simp [before, first]
        omega
      · by_cases between : index - start - 1 < distance - 1
        · simp [before, first, between]
          omega
        · simp [before, first, between]
          omega

theorem idle_poly_iff {poly : BitVec w} (constant : poly.msb = true) (some : 0 < w) (count : Nat) :
    idle poly poly count = poly ↔ shift poly ^ count = 1 := by
  have ahead : idle poly (idle poly (one w) count) w = idle poly poly count := by
    rw [idle_comm, idle_one poly some]
  rw [shift_pow_eq_one_iff constant some]
  constructor
  · intro returns
    have same : idle poly (idle poly (one w) count) w = idle poly (one w) w := by
      rw [ahead, returns, idle_one poly some]
    exact (idle_inj constant).mp same
  · intro returns
    rw [← ahead, returns, idle_one poly some]

theorem lsbRun_pair {poly : BitVec w} (constant : poly.msb = true) (some : 0 < w) {distance : Nat}
    {bits : List Bool} (pair : Pair distance bits) :
    lsbRun poly 0#w bits = 0#w ↔ shift poly ^ distance = 1 := by
  have positive := pair.1
  obtain ⟨before, after, rfl⟩ := pair_split pair
  have first : lsbStep poly (idle poly 0#w before) true = poly := by
    rw [idle_zero, lsbStep_true]
    simp [lsbStep]
  have second : lsbStep poly (idle poly poly (distance - 1)) false = idle poly poly distance := by
    have step := idle_add poly poly (distance - 1) 1
    rw [Nat.sub_add_cancel positive] at step
    exact step.symm
  rw [lsbRun_append, lsbRun_cons]
  change lsbRun poly (lsbStep poly (idle poly 0#w before) true) _ = 0#w ↔ _
  rw [first, lsbRun_append, lsbRun_cons]
  change idle poly (lsbStep poly (idle poly poly (distance - 1)) true) after = 0#w ↔ _
  rw [lsbStep_true, second, ← idle_poly_iff constant some]
  constructor
  · intro zero
    exact BitVec.xor_eq_zero_iff.mp (idle_eq_zero constant zero)
  · intro returns
    rw [returns, BitVec.xor_self, idle_zero]

end ShiftRegister
