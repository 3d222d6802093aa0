import Mathlib.Data.BitVec
import Mathlib.Data.List.GetD

/-!
Shift registers that divide a stream of bits by a polynomial over GF(2), in both directions, for any
width. A register that shifts right is the mirror image of one that shifts left. Both are linear,
and with the constant term of the polynomial set they lose nothing, so that no short burst of bits
leaves a register at zero.
-/

namespace ShiftRegister

variable {w v : Nat}

/-- The register shifts towards its most significant bit, where the next bit of the message comes
in. -/
def msbStep (poly reg : BitVec w) (bit : Bool) : BitVec w :=
  reg <<< 1 ^^^ if reg.msb ^^ bit then poly else 0#w

def lsbStep (poly reg : BitVec w) (bit : Bool) : BitVec w :=
  reg >>> 1 ^^^ if reg.getLsbD 0 ^^ bit then poly else 0#w

def msbRun (poly reg : BitVec w) (bits : List Bool) : BitVec w := bits.foldl (msbStep poly) reg

def lsbRun (poly reg : BitVec w) (bits : List Bool) : BitVec w := bits.foldl (lsbStep poly) reg

theorem lsbRun_cons (poly reg : BitVec w) (bit : Bool) (bits : List Bool) :
    lsbRun poly reg (bit :: bits) = lsbRun poly (lsbStep poly reg bit) bits := rfl

theorem lsbRun_append (poly reg : BitVec w) (first second : List Bool) :
    lsbRun poly reg (first ++ second) = lsbRun poly (lsbRun poly reg first) second := by
  rw [lsbRun, List.foldl_append]
  rfl

theorem getLsbD_lsbStep (poly reg : BitVec w) (bit : Bool) (index : Nat) :
    (lsbStep poly reg bit).getLsbD index =
      (reg.getLsbD (index + 1) ^^ ((reg.getLsbD 0 ^^ bit) && poly.getLsbD index)) := by
  rw [lsbStep, BitVec.getLsbD_xor, BitVec.getLsbD_ushiftRight, Nat.add_comm]
  cases reg.getLsbD 0 ^^ bit <;> simp

theorem reverse_msbStep (poly reg : BitVec w) (bit : Bool) :
    (msbStep poly reg bit).reverse = lsbStep poly.reverse reg.reverse bit := by
  have first : reg.reverse.getLsbD 0 = reg.msb := by rw [BitVec.getLsbD_reverse, BitVec.msb]
  apply BitVec.eq_of_getLsbD_eq
  intro index bound
  rw [getLsbD_lsbStep, first, BitVec.getLsbD_reverse, BitVec.getLsbD_reverse,
    BitVec.getLsbD_reverse, msbStep, BitVec.getMsbD_xor, BitVec.getMsbD_shiftLeft]
  cases reg.msb ^^ bit <;> simp

theorem reverse_msbRun (poly reg : BitVec w) (bits : List Bool) :
    (msbRun poly reg bits).reverse = lsbRun poly.reverse reg.reverse bits := by
  induction bits generalizing reg with
  | nil => rfl
  | cons bit bits ih =>
      rw [lsbRun_cons, ← reverse_msbStep]
      exact ih (msbStep poly reg bit)

theorem lsbRun_eq_reverse (poly reg : BitVec w) (bits : List Bool) :
    lsbRun poly reg bits = (msbRun poly.reverse reg.reverse bits).reverse := by
  rw [reverse_msbRun, BitVec.reverse_reverse_eq, BitVec.reverse_reverse_eq]

/-! A narrow register in a wide word. -/

theorem lsbStep_setWidth (wide : w ≤ v) (poly reg : BitVec w) (bit : Bool) :
    lsbStep (poly.setWidth v) (reg.setWidth v) bit = (lsbStep poly reg bit).setWidth v := by
  apply BitVec.eq_of_getLsbD_eq
  intro index bound
  have zero : (reg.setWidth v).getLsbD 0 = reg.getLsbD 0 := by
    rw [BitVec.getLsbD_setWidth, decide_eq_true (by omega), Bool.true_and]
  have next : (reg.setWidth v).getLsbD (index + 1) = reg.getLsbD (index + 1) := by
    rw [BitVec.getLsbD_setWidth]
    by_cases inside : index + 1 < v
    · rw [decide_eq_true inside, Bool.true_and]
    · rw [BitVec.getLsbD_of_ge reg _ (by omega), Bool.and_false]
  rw [getLsbD_lsbStep, zero, next, BitVec.getLsbD_setWidth, BitVec.getLsbD_setWidth,
    getLsbD_lsbStep, decide_eq_true bound, Bool.true_and, Bool.true_and]

theorem lsbRun_setWidth (wide : w ≤ v) (poly reg : BitVec w) (bits : List Bool) :
    lsbRun (poly.setWidth v) (reg.setWidth v) bits = (lsbRun poly reg bits).setWidth v := by
  induction bits generalizing reg with
  | nil => rfl
  | cons bit bits ih => rw [lsbRun_cons, lsbRun_cons, lsbStep_setWidth wide, ih]

theorem lsbStep_xor (poly left right : BitVec w) (bit other : Bool) :
    lsbStep poly (left ^^^ right) (bit ^^ other) =
      lsbStep poly left bit ^^^ lsbStep poly right other := by
  apply BitVec.eq_of_getLsbD_eq
  intro index bound
  rw [BitVec.getLsbD_xor, getLsbD_lsbStep, getLsbD_lsbStep, getLsbD_lsbStep, BitVec.getLsbD_xor,
    BitVec.getLsbD_xor]
  generalize left.getLsbD 0 = a, right.getLsbD 0 = b, left.getLsbD (index + 1) = c,
    right.getLsbD (index + 1) = d, poly.getLsbD index = e
  revert a b c d e bit other
  decide

theorem lsbRun_xor (poly left right : BitVec w) {bits others : List Bool}
    (same : bits.length = others.length) :
    lsbRun poly (left ^^^ right) (List.zipWith xor bits others) =
      lsbRun poly left bits ^^^ lsbRun poly right others := by
  induction bits generalizing left right others with
  | nil =>
      rw [List.length_nil, eq_comm, List.length_eq_zero_iff] at same
      subst same
      rfl
  | cons bit bits ih =>
      cases others with
      | nil => cases same
      | cons other others =>
          rw [List.zipWith_cons_cons, lsbRun_cons, lsbRun_cons, lsbRun_cons, lsbStep_xor]
          exact ih _ _ (Nat.succ.inj same)

def idle (poly reg : BitVec w) (count : Nat) : BitVec w :=
  lsbRun poly reg (List.replicate count false)

theorem idle_succ (poly reg : BitVec w) (count : Nat) :
    idle poly reg (count + 1) = idle poly (lsbStep poly reg false) count := rfl

theorem idle_zero (poly : BitVec w) (count : Nat) : idle poly 0#w count = 0#w := by
  induction count with
  | zero => rfl
  | succ count ih =>
      have still : lsbStep poly 0#w false = 0#w := by simp [lsbStep]
      rw [idle_succ, still, ih]

theorem eq_zero_of_lsbStep {poly reg : BitVec w} (constant : poly.msb = true)
    (zero : lsbStep poly reg false = 0#w) : reg = 0#w := by
  have bits (index : Nat) :
      (reg.getLsbD (index + 1) ^^ (reg.getLsbD 0 && poly.getLsbD index)) = false := by
    have bit := getLsbD_lsbStep poly reg false index
    rw [zero, Bool.xor_false, BitVec.getLsbD_zero] at bit
    exact bit.symm
  have first : reg.getLsbD 0 = false := by
    have last := bits (w - 1)
    rw [BitVec.msb_eq_getLsbD_last] at constant
    rw [constant, BitVec.getLsbD_of_ge reg _ (by omega), Bool.false_xor, Bool.and_true] at last
    exact last
  apply BitVec.eq_of_getLsbD_eq
  intro index bound
  rw [BitVec.getLsbD_zero]
  cases index with
  | zero => exact first
  | succ index =>
      have next := bits index
      rw [first, Bool.false_and, Bool.xor_false] at next
      exact next

theorem idle_eq_zero {poly reg : BitVec w} (constant : poly.msb = true) {count : Nat}
    (zero : idle poly reg count = 0#w) : reg = 0#w := by
  induction count generalizing reg with
  | zero => exact zero
  | succ count ih => exact eq_zero_of_lsbStep constant (ih zero)

theorem idle_xor (poly left right : BitVec w) (count : Nat) :
    idle poly (left ^^^ right) count = idle poly left count ^^^ idle poly right count := by
  rw [idle, idle, idle, ← lsbRun_xor _ _ _ rfl, List.zipWith_replicate', Bool.xor_false]

theorem idle_inj {poly left right : BitVec w} (constant : poly.msb = true) {count : Nat} :
    idle poly left count = idle poly right count ↔ left = right := by
  constructor
  · intro same
    have zero : idle poly (left ^^^ right) count = 0#w := by rw [idle_xor, same, BitVec.xor_self]
    exact BitVec.xor_eq_zero_iff.mp (idle_eq_zero constant zero)
  · intro same
    rw [same]

def bitsOf (word : BitVec v) : List Bool := (List.range v).map word.getLsbD

def word (w : Nat) (bits : List Bool) : BitVec w := (BitVec.ofBoolListLE bits).setWidth w

theorem length_bitsOf (word : BitVec v) : (bitsOf word).length = v := by
  rw [bitsOf, List.length_map, List.length_range]

theorem getLsbD_word (bits : List Bool) {index : Nat} (bound : index < w) :
    (word w bits).getLsbD index = bits.getD index false := by
  rw [word, BitVec.getLsbD_setWidth, decide_eq_true bound, Bool.true_and,
    BitVec.getLsbD_ofBoolListLE]

theorem getD_bitsOf (word : BitVec v) (index : Nat) :
    (bitsOf word).getD index false = word.getLsbD index := by
  rw [bitsOf, List.getD_eq_getElem?_getD, List.getElem?_map]
  by_cases bound : index < v
  · rw [List.getElem?_range bound]
    rfl
  · rw [List.getElem?_eq_none (by rw [List.length_range]; omega),
      BitVec.getLsbD_of_ge word index (by omega)]
    rfl

theorem word_bitsOf (value : BitVec v) : word w (bitsOf value) = value.setWidth w := by
  apply BitVec.eq_of_getLsbD_eq
  intro index bound
  rw [getLsbD_word _ bound, getD_bitsOf, BitVec.getLsbD_setWidth, decide_eq_true bound,
    Bool.true_and]

theorem lsbStep_word (poly reg : BitVec w) (bit : Bool) {bits : List Bool}
    (fits : bits.length < w) :
    lsbStep poly (reg ^^^ word w (bit :: bits)) false = lsbStep poly reg bit ^^^ word w bits := by
  apply BitVec.eq_of_getLsbD_eq
  intro index bound
  have first : (reg ^^^ word w (bit :: bits)).getLsbD 0 = (reg.getLsbD 0 ^^ bit) := by
    rw [BitVec.getLsbD_xor, getLsbD_word _ (by omega), List.getD_cons_zero]
  have next : (word w (bit :: bits)).getLsbD (index + 1) = (word w bits).getLsbD index := by
    rw [getLsbD_word _ bound]
    by_cases inside : index + 1 < w
    · rw [getLsbD_word _ inside, List.getD_cons_succ]
    · rw [BitVec.getLsbD_of_ge _ _ (by omega), List.getD_eq_default _ _ (by omega)]
  rw [getLsbD_lsbStep, first, BitVec.getLsbD_xor, next, BitVec.getLsbD_xor, getLsbD_lsbStep,
    Bool.xor_false, Bool.xor_assoc, Bool.xor_assoc, Bool.xor_comm ((word w bits).getLsbD index)]

theorem lsbRun_eq_idle (poly reg : BitVec w) {bits : List Bool} (fits : bits.length ≤ w) :
    lsbRun poly reg bits = idle poly (reg ^^^ word w bits) bits.length := by
  induction bits generalizing reg with
  | nil =>
      have empty : word w [] = 0#w := by
        apply BitVec.eq_of_getLsbD_eq
        intro index bound
        rw [getLsbD_word _ bound, List.getD_nil, BitVec.getLsbD_zero]
      rw [empty]
      exact (BitVec.xor_zero).symm
  | cons bit bits ih =>
      rw [List.length_cons] at fits
      rw [lsbRun_cons, ih _ (by omega), List.length_cons, idle_succ, lsbStep_word _ _ _ (by omega)]

def Burst (width : Nat) (bits : List Bool) : Prop :=
  true ∈ bits ∧ ∃ start, ∀ index, bits.getD index false = true → start ≤ index ∧
  index < start + width

theorem eq_replicate_of_getD {bits : List Bool} (clear : ∀ index, bits.getD index false = false) :
    bits = List.replicate bits.length false := by
  refine List.eq_replicate_of_mem fun bit member => ?_
  obtain ⟨index, bound, rfl⟩ := List.getElem_of_mem member
  rw [← List.getD_eq_getElem bits false bound]
  exact clear index

theorem getD_take (bits : List Bool) (count index : Nat) :
    (bits.take count).getD index false = if index < count then bits.getD index false
      else false := by
  rw [List.getD_eq_getElem?_getD, List.getD_eq_getElem?_getD, List.getElem?_take]
  split <;> rfl

theorem getD_drop (bits : List Bool) (count index : Nat) :
    (bits.drop count).getD index false = bits.getD (count + index) false := by
  rw [List.getD_eq_getElem?_getD, List.getD_eq_getElem?_getD, List.getElem?_drop]

theorem lsbRun_burst {poly : BitVec w} (constant : poly.msb = true) {bits : List Bool}
    (burst : Burst w bits) : lsbRun poly 0#w bits ≠ 0#w := by
  obtain ⟨set, start, within⟩ := burst
  have before : bits.take start = List.replicate (bits.take start).length false := by
    refine eq_replicate_of_getD fun index => ?_
    rw [getD_take]
    split
    · by_contra clear
      have := within index (by simpa using clear)
      omega
    · rfl
  have after : (bits.drop start).drop w =
      List.replicate ((bits.drop start).drop w).length false := by
    refine eq_replicate_of_getD fun index => ?_
    rw [getD_drop, getD_drop]
    by_contra clear
    have := within _ (by simpa using clear)
    omega
  have parts : bits = bits.take start ++
      ((bits.drop start).take w ++ (bits.drop start).drop w) := by
    rw [List.take_append_drop, List.take_append_drop]
  have short : ((bits.drop start).take w).length ≤ w := List.length_take_le ..
  intro zero
  -- only the bits of the burst move the register, and they fit it
  rw [parts, lsbRun_append, before, lsbRun_append, after] at zero
  change idle poly (lsbRun poly (idle poly 0#w _) _) _ = 0#w at zero
  rw [idle_zero] at zero
  have middle := idle_eq_zero constant zero
  rw [lsbRun_eq_idle poly 0#w short, BitVec.zero_xor] at middle
  have clear := idle_eq_zero constant middle
  obtain ⟨index, bound, bit⟩ := List.getElem_of_mem set
  have hit : bits.getD index false = true := by rw [List.getD_eq_getElem bits false bound, bit]
  have place := within index hit
  have seen : (word w ((bits.drop start).take w)).getLsbD (index - start) = true := by
    rw [getLsbD_word _ (by omega), getD_take, if_pos (by omega), getD_drop,
      show start + (index - start) = index by omega, hit]
  rw [clear, BitVec.getLsbD_zero] at seen
  cases seen

/-- The complement of the register stands behind a message iff the register, run over both, ends in
a state that depends on neither. -/
theorem complement_follows_iff {poly : BitVec w} (constant : poly.msb = true) (seed : BitVec w)
    (message : List Bool) {check : List Bool} (full : check.length = w) :
    word w check = ~~~lsbRun poly seed message ↔
      lsbRun poly seed (message ++ check) = idle poly (BitVec.allOnes w) w := by
  rw [lsbRun_append, lsbRun_eq_idle _ _ full.le, full, idle_inj constant]
  constructor
  · intro stored
    rw [stored, ← BitVec.xor_allOnes, ← BitVec.xor_assoc, BitVec.xor_self, BitVec.zero_xor]
  · intro ones
    rw [← BitVec.xor_allOnes, ← ones, ← BitVec.xor_assoc, BitVec.xor_self, BitVec.zero_xor]

/-- Errors that move a register from zero also show in the state that it reaches with a message. -/
theorem error_detected (poly seed : BitVec w) {bits error : List Bool}
    (same : bits.length = error.length) (moves : lsbRun poly 0#w error ≠ 0#w) :
    lsbRun poly seed (List.zipWith xor bits error) ≠ lsbRun poly seed bits := by
  intro equal
  have sum := lsbRun_xor poly seed 0#w same
  rw [BitVec.xor_zero, equal] at sum
  have cancel := congrArg (lsbRun poly seed bits ^^^ ·) sum
  exact moves (by simpa [← BitVec.xor_assoc] using cancel.symm)

end ShiftRegister
