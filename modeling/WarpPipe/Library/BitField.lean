import WarpPipe.Library.Buffer

/-!
Bit-fields of a byte layout. A field is a run of bits inside one byte of a buffer; storing into
it truncates the value to the field's width and leaves every other bit of the buffer alone.
-/

namespace ByteLayout

def extractBits (byte : Byte) (shift width : Nat) : Nat :=
  (byte.toNat >>> shift) % 2 ^ width

/-- `byte` with the `width` bits from bit `shift` up replaced by the low bits of `value`. -/
def insertBits (byte : Byte) (shift width value : Nat) : Byte :=
  let mask := BitVec.ofNat 8 ((2 ^ width - 1) <<< shift)
  (byte &&& ~~~mask) ||| BitVec.ofNat 8 ((value % 2 ^ width) <<< shift)

theorem extractBits_lt (byte : Byte) (shift width : Nat) :
    extractBits byte shift width < 2 ^ width :=
  Nat.mod_lt _ (Nat.two_pow_pos width)

theorem testBit_extractBits (byte : Byte) (shift width index : Nat) :
    (extractBits byte shift width).testBit index =
      (decide (index < width) && byte.getLsbD (shift + index)) := by
  simp [extractBits, Nat.testBit_mod_two_pow, Nat.testBit_shiftRight, BitVec.testBit_toNat]

theorem getLsbD_insertBits (byte : Byte) (shift width value index : Nat) (bound : index < 8) :
    (insertBits byte shift width value).getLsbD index =
      if shift ≤ index ∧ index < shift + width then value.testBit (index - shift)
      else byte.getLsbD index := by
  simp only [insertBits, BitVec.getLsbD_or, BitVec.getLsbD_and, BitVec.getLsbD_not,
    BitVec.getLsbD_ofNat, Nat.testBit_shiftLeft, Nat.testBit_two_pow_sub_one,
    Nat.testBit_mod_two_pow, bound, decide_true, Bool.true_and]
  by_cases inside : shift ≤ index ∧ index < shift + width
  · have below : index - shift < width := by omega
    simp [inside, below]
  · rw [if_neg inside]
    by_cases lower : shift ≤ index
    · have above : ¬index - shift < width := by omega
      simp [lower, above]
    · simp [lower]

theorem extractBits_insertBits_same (byte : Byte) (shift width value : Nat)
    (fits : shift + width ≤ 8) :
    extractBits (insertBits byte shift width value) shift width = value % 2 ^ width := by
  apply Nat.eq_of_testBit_eq
  intro index
  rw [testBit_extractBits, Nat.testBit_mod_two_pow]
  by_cases inside : index < width
  · rw [getLsbD_insertBits _ _ _ _ _ (by omega), if_pos (by omega), Nat.add_sub_cancel_left]
  · simp [inside]

theorem extractBits_insertBits_disjoint (byte : Byte) (shift width other otherWidth value : Nat)
    (fits : other + otherWidth ≤ 8)
    (disjoint : other + otherWidth ≤ shift ∨ shift + width ≤ other) :
    extractBits (insertBits byte shift width value) other otherWidth =
      extractBits byte other otherWidth := by
  apply Nat.eq_of_testBit_eq
  intro index
  rw [testBit_extractBits, testBit_extractBits]
  by_cases inside : index < otherWidth
  · rw [getLsbD_insertBits _ _ _ _ _ (by omega), if_neg (by omega)]
  · simp [inside]

structure Field where
  byte : Nat
  shift : Nat
  width : Nat
  deriving DecidableEq, Repr

namespace Field

def get (field : Field) (buffer : Bytes) : Nat :=
  extractBits (getByte buffer field.byte) field.shift field.width

def set (field : Field) (value : Nat) (buffer : Bytes) : Bytes :=
  buffer.set field.byte (insertBits (getByte buffer field.byte) field.shift field.width value)

def Disjoint (field other : Field) : Prop :=
  field.byte ≠ other.byte ∨ field.shift + field.width ≤ other.shift ∨
    other.shift + other.width ≤ field.shift

instance (field other : Field) : Decidable (Disjoint field other) :=
  inferInstanceAs (Decidable (_ ∨ _ ∨ _))

@[simp] theorem length_set (field : Field) (value : Nat) (buffer : Bytes) :
    (field.set value buffer).length = buffer.length := by
  simp [set]

theorem get_lt (field : Field) (buffer : Bytes) : field.get buffer < 2 ^ field.width :=
  extractBits_lt _ _ _

theorem get_congr {field : Field} {left right : Bytes}
    (same : getByte left field.byte = getByte right field.byte) :
    field.get left = field.get right := by
  simp only [get, same]

theorem get_set_same {field : Field} {value : Nat} {buffer : Bytes}
    (bound : field.byte < buffer.length) (fits : field.shift + field.width ≤ 8) :
    field.get (field.set value buffer) = value % 2 ^ field.width := by
  simp only [get, set, getByte_set bound, if_true]
  exact extractBits_insertBits_same _ _ _ _ fits

theorem getByte_set_ne {field : Field} {value index : Nat} {buffer : Bytes}
    (different : index ≠ field.byte) :
    getByte (field.set value buffer) index = getByte buffer index := by
  by_cases bound : field.byte < buffer.length
  · rw [set, getByte_set bound, if_neg different]
  · rw [set, List.set_eq_of_length_le (by omega)]

theorem getByte_set_congr {field : Field} {value index : Nat} {left right : Bytes}
    (length : left.length = right.length) (same : getByte left index = getByte right index) :
    getByte (field.set value left) index = getByte (field.set value right) index := by
  by_cases here : index = field.byte
  · by_cases bound : field.byte < left.length
    · rw [set, set, getByte_set bound, getByte_set (length ▸ bound), ← here, same]
    · rw [set, set, List.set_eq_of_length_le (by omega), List.set_eq_of_length_le (by omega), same]
  · rw [getByte_set_ne here, getByte_set_ne here, same]

theorem get_set_disjoint {field other : Field} {value : Nat} {buffer : Bytes}
    (fits : field.shift + field.width ≤ 8) (disjoint : field.Disjoint other) :
    field.get (other.set value buffer) = field.get buffer := by
  by_cases sameByte : field.byte = other.byte
  · by_cases bound : other.byte < buffer.length
    · simp only [get, set, sameByte, getByte_set bound, if_true]
      apply extractBits_insertBits_disjoint _ _ _ _ _ _ fits
      exact disjoint.resolve_left (fun different => different sameByte)
    · rw [set, List.set_eq_of_length_le (by omega)]
  · exact get_congr (getByte_set_ne sameByte)

end Field

def bigEndian {width : Nat} (count : Nat) (value : BitVec width) : Bytes :=
  (List.range count).map fun index => (value >>> (8 * (count - index - 1))).setWidth 8

def ofBigEndian (width count : Nat) (buffer : Bytes) : BitVec width :=
  (List.range count).foldl
    (fun value index =>
      value ||| (getByte buffer index).setWidth width <<< (8 * (count - index - 1))) 0

@[simp] theorem length_bigEndian {width : Nat} (count : Nat) (value : BitVec width) :
    (bigEndian count value).length = count := by
  simp [bigEndian]

theorem getByte_bigEndian {width count index : Nat} {value : BitVec width}
    (bound : index < count) :
    getByte (bigEndian count value) index =
      (value >>> (8 * (count - index - 1))).setWidth 8 := by
  rw [getByte_eq_getElem (by simpa using bound)]
  simp [bigEndian]

theorem getLsbD_foldl_or {width : Nat} {Index : Type} (terms : Index → BitVec width)
    (indices : List Index) (start : BitVec width) (position : Nat) :
    (indices.foldl (fun value index => value ||| terms index) start).getLsbD position =
      (start.getLsbD position || indices.any fun index => (terms index).getLsbD position) := by
  induction indices generalizing start with
  | nil => simp
  | cons index rest ih =>
      simp only [List.foldl_cons, ih, BitVec.getLsbD_or, List.any_cons, Bool.or_assoc]

theorem ofBigEndian_congr {width count : Nat} {left right : Bytes}
    (same : ∀ index < count, getByte left index = getByte right index) :
    ofBigEndian width count left = ofBigEndian width count right := by
  unfold ofBigEndian
  apply List.foldl_ext
  intro value index member
  rw [same index (List.mem_range.mp member)]

theorem getLsbD_ofBigEndian {width count : Nat} (buffer : Bytes) (position : Nat)
    (bound : position < width) :
    (ofBigEndian width count buffer).getLsbD position =
      (decide (position < 8 * count) &&
        (getByte buffer (count - position / 8 - 1)).getLsbD (position % 8)) := by
  rw [ofBigEndian, getLsbD_foldl_or]
  simp only [BitVec.ofNat_eq_ofNat, BitVec.getLsbD_zero, Bool.false_or]
  have term (index : Nat) (inside : index < count) :
      (BitVec.setWidth width (getByte buffer index) <<< (8 * (count - index - 1))).getLsbD
        position =
        (decide (8 * (count - index - 1) ≤ position ∧ position < 8 * (count - index)) &&
          (getByte buffer index).getLsbD (position % 8)) := by
    simp only [BitVec.getLsbD_shiftLeft, BitVec.getLsbD_setWidth, bound]
    by_cases window : 8 * (count - index - 1) ≤ position ∧ position < 8 * (count - index)
    · have offset : position - 8 * (count - index - 1) = position % 8 := by omega
      have inner : position % 8 < width := by omega
      simp [window, Nat.not_lt.mpr window.1, offset, inner]
    · by_cases lower : 8 * (count - index - 1) ≤ position
      · have zero : (getByte buffer index).getLsbD (position - 8 * (count - index - 1)) = false :=
          BitVec.getLsbD_of_ge _ _ (by omega)
        simp [window, zero]
      · simp [window, Nat.lt_of_not_le lower]
  rw [Bool.eq_iff_iff, List.any_eq_true]
  constructor
  · rintro ⟨index, member, bit⟩
    have inside := List.mem_range.mp member
    rw [term index inside] at bit
    simp only [Bool.and_eq_true, decide_eq_true_eq] at bit ⊢
    have same : count - position / 8 - 1 = index := by omega
    rw [same]
    exact ⟨by omega, bit.2⟩
  · intro bit
    simp only [Bool.and_eq_true, decide_eq_true_eq] at bit
    refine ⟨count - position / 8 - 1, List.mem_range.mpr (by omega), ?_⟩
    rw [term _ (by omega)]
    simp only [Bool.and_eq_true, decide_eq_true_eq]
    exact ⟨by omega, bit.2⟩

theorem getLsbD_ofBigEndian_bigEndian {width count : Nat} (value : BitVec width)
    (rest : Bytes) (position : Nat) (bound : position < width) :
    (ofBigEndian width count (bigEndian count value ++ rest)).getLsbD position =
      (decide (position < 8 * count) && value.getLsbD position) := by
  rw [getLsbD_ofBigEndian _ _ bound]
  by_cases low : position < 8 * count
  · have inside : count - position / 8 - 1 < count := by omega
    have back : 8 * (count - (count - position / 8 - 1) - 1) + position % 8 = position := by omega
    rw [getByte_append_left (by simpa using inside), getByte_bigEndian inside]
    simp [back, Nat.mod_lt]
  · simp [low]

theorem getByte_bigEndian_ofBigEndian {width count index : Nat} (buffer : Bytes)
    (bound : index < count) (fits : 8 * count ≤ width) :
    getByte (bigEndian count (ofBigEndian width count buffer)) index = getByte buffer index := by
  rw [getByte_bigEndian bound]
  apply BitVec.eq_of_getLsbD_eq
  intro position inside
  rw [BitVec.getLsbD_setWidth, BitVec.getLsbD_ushiftRight, getLsbD_ofBigEndian _ _ (by omega)]
  have byte : count - (8 * (count - index - 1) + position) / 8 - 1 = index := by omega
  have bit : (8 * (count - index - 1) + position) % 8 = position := by omega
  have low : 8 * (count - index - 1) + position < 8 * count := by omega
  rw [byte, bit]
  simp [inside, low]

theorem ofBigEndian_bigEndian {width count : Nat} (value : BitVec width) (rest : Bytes)
    (fits : value.toNat < 2 ^ (8 * count)) :
    ofBigEndian width count (bigEndian count value ++ rest) = value := by
  apply BitVec.eq_of_getLsbD_eq
  intro position bound
  rw [getLsbD_ofBigEndian_bigEndian value rest position bound]
  by_cases low : position < 8 * count
  · simp [low]
  · have zero : value.getLsbD position = false := by
      rw [← BitVec.testBit_toNat]
      apply Nat.testBit_lt_two_pow
      exact Nat.lt_of_lt_of_le fits (Nat.pow_le_pow_right (by decide) (by omega))
    simp [low, zero]

def littleEndian {width : Nat} (count : Nat) (value : BitVec width) : Bytes :=
  (bigEndian count value).reverse

def ofLittleEndian (width count : Nat) (buffer : Bytes) : BitVec width :=
  ofBigEndian width count (buffer.take count).reverse

@[simp] theorem length_littleEndian {width : Nat} (count : Nat) (value : BitVec width) :
    (littleEndian count value).length = count := by
  simp [littleEndian]

theorem getByte_littleEndian {width count index : Nat} {value : BitVec width}
    (bound : index < count) :
    getByte (littleEndian count value) index = (value >>> (8 * index)).setWidth 8 := by
  rw [littleEndian, getByte, List.getD_eq_getElem?_getD,
    List.getElem?_reverse (by rwa [length_bigEndian]),
    ← List.getD_eq_getElem?_getD, length_bigEndian]
  refine (getByte_bigEndian (show count - 1 - index < count by omega)).trans ?_
  rw [show count - (count - 1 - index) - 1 = index by omega]

theorem ofLittleEndian_littleEndian {width count : Nat} (value : BitVec width)
    (fits : value.toNat < 2 ^ (8 * count)) :
    ofLittleEndian width count (littleEndian count value) = value := by
  rw [ofLittleEndian, List.take_of_length_le (by simp), littleEndian, List.reverse_reverse,
    ← List.append_nil (bigEndian count value), ofBigEndian_bigEndian value [] fits]

end ByteLayout
