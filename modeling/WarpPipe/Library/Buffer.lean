import Mathlib.Data.BitVec
import Mathlib.Data.List.GetD

/-!
Byte buffers as lists: total reads, bounded overwrites, and big-endian integers.
Nothing here refers to a particular wire format.
-/

namespace ByteLayout

abbrev Byte := BitVec 8

abbrev Bytes := List Byte

/-- Reading past the end of a buffer yields zero, so reads are total. -/
def getByte (buffer : Bytes) (index : Nat) : Byte := buffer.getD index 0

/-- Copy `bytes` over `buffer` from `offset` on. The length never changes: bytes that would
land past the end are dropped. -/
def overwrite (buffer : Bytes) (offset : Nat) : Bytes → Bytes
  | [] => buffer
  | byte :: rest => overwrite (buffer.set offset byte) (offset + 1) rest

@[simp] theorem overwrite_nil (buffer : Bytes) (offset : Nat) :
    overwrite buffer offset [] = buffer := rfl

@[simp] theorem length_overwrite (buffer : Bytes) (offset : Nat) (bytes : Bytes) :
    (overwrite buffer offset bytes).length = buffer.length := by
  induction bytes generalizing buffer offset with
  | nil => rfl
  | cons byte rest ih => simp only [overwrite, ih, List.length_set]

theorem getByte_eq_getElem {buffer : Bytes} {index : Nat} (bound : index < buffer.length) :
    getByte buffer index = buffer[index] := by
  simp [getByte, bound]

theorem getByte_append_left {first second : Bytes} {index : Nat} (bound : index < first.length) :
    getByte (first ++ second) index = getByte first index := by
  exact List.getD_append _ _ _ _ bound

theorem getByte_append_right {first second : Bytes} {index : Nat} (past : first.length ≤ index) :
    getByte (first ++ second) index = getByte second (index - first.length) := by
  exact List.getD_append_right _ _ _ _ past

@[simp] theorem getByte_drop (buffer : Bytes) (count index : Nat) :
    getByte (buffer.drop count) index = getByte buffer (count + index) := by
  simp [getByte, List.getD_eq_getElem?_getD]

theorem getByte_take {buffer : Bytes} {count index : Nat} (bound : index < count) :
    getByte (buffer.take count) index = getByte buffer index := by
  simp [getByte, List.getD_eq_getElem?_getD, bound]

theorem getByte_set {buffer : Bytes} {position index : Nat} {byte : Byte}
    (bound : position < buffer.length) :
    getByte (buffer.set position byte) index =
      if index = position then byte else getByte buffer index := by
  by_cases same : index = position
  · subst index
    simp [getByte, List.getD_eq_getElem?_getD, bound]
  · simp [getByte, List.getD_eq_getElem?_getD, same, Ne.symm same]

theorem buffer_ext {left right : Bytes} (length : left.length = right.length)
    (same : ∀ index < left.length, getByte left index = getByte right index) : left = right := by
  apply List.ext_getElem length
  intro index leftBound rightBound
  have byte := same index leftBound
  rwa [getByte_eq_getElem leftBound, getByte_eq_getElem rightBound] at byte

theorem getByte_overwrite {buffer bytes : Bytes} {offset index : Nat}
    (fits : offset + bytes.length ≤ buffer.length) :
    getByte (overwrite buffer offset bytes) index =
      if offset ≤ index ∧ index < offset + bytes.length then getByte bytes (index - offset)
      else getByte buffer index := by
  induction bytes generalizing buffer offset with
  | nil => simp only [overwrite, List.length_nil]; rw [if_neg (by omega)]
  | cons byte rest ih =>
      simp only [List.length_cons] at fits
      rw [overwrite, ih (by simp only [List.length_set]; omega), getByte_set (by omega)]
      by_cases first : index = offset
      · subst index
        rw [if_neg (by omega), if_pos rfl, if_pos (by simp)]
        simp [getByte]
      · rw [if_neg first]
        by_cases inside : offset + 1 ≤ index ∧ index < offset + 1 + rest.length
        · rw [if_pos inside, if_pos (by simp only [List.length_cons]; omega)]
          have shift : index - offset = (index - (offset + 1)) + 1 := by omega
          rw [shift]
          simp [getByte]
        · rw [if_neg inside, if_neg (by simp only [List.length_cons]; omega)]

theorem getByte_overwrite_before {buffer bytes : Bytes} {offset index : Nat}
    (before : index < offset) :
    getByte (overwrite buffer offset bytes) index = getByte buffer index := by
  induction bytes generalizing buffer offset with
  | nil => rfl
  | cons byte rest ih =>
      rw [overwrite, ih (by omega)]
      by_cases bound : offset < buffer.length
      · rw [getByte_set bound, if_neg (by omega)]
      · rw [List.set_eq_of_length_le (by omega)]

theorem getByte_overwrite_inside {buffer bytes : Bytes} {offset index : Nat}
    (fits : offset + bytes.length ≤ buffer.length)
    (inside : index < bytes.length) :
    getByte (overwrite buffer offset bytes) (offset + index) = getByte bytes index := by
  rw [getByte_overwrite fits, if_pos (by omega)]
  congr 1
  omega

theorem getByte_overwrite_outside {buffer bytes : Bytes} {offset index : Nat}
    (fits : offset + bytes.length ≤ buffer.length)
    (outside : index < offset ∨ offset + bytes.length ≤ index) :
    getByte (overwrite buffer offset bytes) index = getByte buffer index := by
  rw [getByte_overwrite fits, if_neg (by omega)]

theorem overwrite_append (buffer first second : Bytes) (offset : Nat) :
    overwrite (overwrite buffer offset first) (offset + first.length) second =
      overwrite buffer offset (first ++ second) := by
  induction first generalizing buffer offset with
  | nil => rfl
  | cons byte rest ih =>
      have next := ih (buffer.set offset byte) (offset + 1)
      rw [Nat.add_right_comm] at next
      exact next

theorem overwrite_append_middle (first middle last bytes : Bytes)
    (length : middle.length = bytes.length) :
    overwrite (first ++ middle ++ last) first.length bytes = first ++ bytes ++ last := by
  apply buffer_ext
  · simp [length]
  intro index bound
  simp only [length_overwrite, List.length_append] at bound
  rw [getByte_overwrite (by simp only [List.length_append]; omega)]
  by_cases before : index < first.length
  · rw [if_neg (by omega), List.append_assoc, List.append_assoc, getByte_append_left before,
      getByte_append_left before]
  · have past : first.length ≤ index := by omega
    by_cases inside : index < first.length + bytes.length
    · rw [if_pos ⟨past, inside⟩, List.append_assoc, getByte_append_right past,
        getByte_append_left (by omega)]
    · rw [if_neg (by omega), getByte_append_right (by simp only [List.length_append]; omega),
        getByte_append_right (by simp only [List.length_append]; omega)]
      simp [length]

theorem overwrite_zero (buffer bytes : Bytes) (fits : bytes.length ≤ buffer.length) :
    overwrite buffer 0 bytes = bytes ++ buffer.drop bytes.length := by
  have split := overwrite_append_middle [] (buffer.take bytes.length) (buffer.drop bytes.length)
    bytes (by simp [fits])
  simpa using split

theorem take_overwrite_through (buffer bytes : Bytes) (offset : Nat)
    (fits : offset + bytes.length ≤ buffer.length) :
    (overwrite buffer offset bytes).take (offset + bytes.length) = buffer.take offset ++ bytes := by
  have offsetLength : (buffer.take offset).length = offset := by
    rw [List.length_take]
    omega
  apply buffer_ext
  · simp only [List.length_take, length_overwrite, List.length_append]
    omega
  intro index bound
  simp only [List.length_take, length_overwrite] at bound
  rw [getByte_take (by omega), getByte_overwrite fits]
  by_cases before : index < offset
  · rw [if_neg (by omega), getByte_append_left (by omega), getByte_take before]
  · rw [if_pos (by omega), getByte_append_right (by omega), offsetLength]

def slice (buffer : Bytes) (offset count : Nat) : Bytes := (buffer.drop offset).take count

@[simp] theorem length_slice (buffer : Bytes) (offset count : Nat) :
    (slice buffer offset count).length = min count (buffer.length - offset) := by
  simp [slice]

theorem getByte_slice {buffer : Bytes} {offset count index : Nat} (bound : index < count) :
    getByte (slice buffer offset count) index = getByte buffer (offset + index) := by
  rw [slice, getByte_take bound, getByte_drop]

theorem slice_congr {left right : Bytes} {offset count : Nat}
    (leftLong : offset + count ≤ left.length) (rightLong : offset + count ≤ right.length)
    (same : ∀ index < count, getByte left (offset + index) = getByte right (offset + index)) :
    slice left offset count = slice right offset count := by
  apply buffer_ext
  · simp only [length_slice]
    omega
  intro index bound
  have inside : index < count := by
    simp only [length_slice] at bound
    omega
  rw [getByte_slice inside, getByte_slice inside, same index inside]

theorem slice_overwrite (buffer bytes : Bytes) (offset : Nat)
    (fits : offset + bytes.length ≤ buffer.length) :
    slice (overwrite buffer offset bytes) offset bytes.length = bytes := by
  apply buffer_ext
  · simp only [length_slice, length_overwrite]
    omega
  intro index bound
  simp only [length_slice, length_overwrite] at bound
  rw [getByte_slice (by omega), getByte_overwrite_inside fits (by omega)]

end ByteLayout
