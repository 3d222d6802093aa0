import Mathlib.Tactic.NormNum.Prime
import WarpPipe.Library.RegisterPeriod
import WarpPipe.Packets

/-!
The checksums of `src/crc.c` as the specification of PCI Express defines them: shift registers that
run in the other direction, and that notice every burst of errors no longer than themselves and
every two errors that are not too far apart.
-/

namespace WarpPipe

open ByteLayout ShiftRegister

def messageBits (data : Bytes) : List Bool := data.flatMap bitsOf

theorem messageBits_append (first second : Bytes) :
    messageBits (first ++ second) = messageBits first ++ messageBits second :=
  List.flatMap_append

theorem length_messageBits (data : Bytes) : (messageBits data).length = 8 * data.length := by
  induction data with
  | nil => rfl
  | cons byte data ih =>
      rw [messageBits, List.flatMap_cons, List.length_append, length_bitsOf, List.length_cons]
      change 8 + (messageBits data).length = _
      omega

theorem getD_messageBits (data : Bytes) (index : Nat) :
    (messageBits data).getD index false = (getByte data (index / 8)).getLsbD (index % 8) := by
  induction data generalizing index with
  | nil => simp [messageBits, getByte]
  | cons byte data ih =>
      rw [messageBits, List.flatMap_cons, List.getD_eq_getElem?_getD]
      by_cases first : index < 8
      · rw [List.getElem?_append_left (by rwa [length_bitsOf]),
          ← List.getD_eq_getElem?_getD, getD_bitsOf, Nat.div_eq_of_lt first, Nat.mod_eq_of_lt first]
        rfl
      · rw [List.getElem?_append_right (by rw [length_bitsOf]; omega), ← List.getD_eq_getElem?_getD,
          length_bitsOf]
        refine (ih (index - 8)).trans ?_
        rw [show index / 8 = (index - 8) / 8 + 1 by omega,
          show index % 8 = (index - 8) % 8 by omega]
        rfl

theorem crcShift_eq (poly crc : BitVec 32) : crcShift poly crc = lsbStep poly crc false := by
  have bit : (crc &&& 1 ≠ 0) ↔ crc.getLsbD 0 = true := by
    rw [show (1 : BitVec 32) = 1#32 from rfl, BitVec.and_one_eq_setWidth_ofBool_getLsbD]
    cases crc.getLsbD 0 <;> decide
  rw [crcShift, lsbStep, Bool.xor_false]
  by_cases set : crc.getLsbD 0 = true
  · rw [if_pos (bit.mpr set), if_pos set]
  · rw [if_neg (mt bit.mp set), if_neg set, BitVec.xor_zero]

theorem iterate_crcShift (poly crc : BitVec 32) (count : Nat) :
    (crcShift poly)^[count] crc = idle poly crc count := by
  induction count generalizing crc with
  | zero => rfl
  | succ count ih => rw [Function.iterate_succ_apply, ih, idle_succ, crcShift_eq]

theorem crcByte_eq (poly crc : BitVec 32) (byte : Byte) :
    crcByte poly crc byte = lsbRun poly crc (bitsOf byte) := by
  rw [crcByte, iterate_crcShift, lsbRun_eq_idle _ _ (by rw [length_bitsOf]; decide), word_bitsOf,
    length_bitsOf]

theorem crc32p_eq (data : Bytes) (init poly : BitVec 32) :
    crc32p data init poly = lsbRun poly init (messageBits data) := by
  induction data generalizing init with
  | nil => rfl
  | cons byte data ih =>
      rw [messageBits, List.flatMap_cons, lsbRun_append, ← crcByte_eq]
      exact ih (crcByte poly init byte)

theorem setWidth_setWidth_of_lt {value : BitVec 32} (small : value.toNat < 2 ^ 16) :
    (value.setWidth 16).setWidth 32 = value := by
  apply BitVec.eq_of_toNat_eq
  rw [BitVec.toNat_setWidth, BitVec.toNat_setWidth]
  omega

theorem crc32p_narrow (data : Bytes) {init poly : BitVec 32} (smallInit : init.toNat < 2 ^ 16)
    (smallPoly : poly.toNat < 2 ^ 16) :
    crc32p data init poly =
      (lsbRun (poly.setWidth 16) (init.setWidth 16) (messageBits data)).setWidth 32 := by
  rw [crc32p_eq, ← lsbRun_setWidth (by decide), setWidth_setWidth_of_lt smallInit,
    setWidth_setWidth_of_lt smallPoly]

theorem idle_narrow {reg poly : BitVec 32} (smallReg : reg.toNat < 2 ^ 16)
    (smallPoly : poly.toNat < 2 ^ 16) (count : Nat) : (idle poly reg count).toNat < 2 ^ 16 := by
  rw [← setWidth_setWidth_of_lt smallReg, ← setWidth_setWidth_of_lt smallPoly, idle,
    lsbRun_setWidth (by decide), BitVec.toNat_setWidth]
  omega

theorem crc32p_narrow_lt (data : Bytes) {init poly : BitVec 32} (smallInit : init.toNat < 2 ^ 16)
    (smallPoly : poly.toNat < 2 ^ 16) : (crc32p data init poly).toNat < 2 ^ 16 := by
  rw [crc32p_narrow data smallInit smallPoly, BitVec.toNat_setWidth]
  omega

theorem getByte_checksumBytes (crc : BitVec 32) {count index : Nat} (bound : index < count) :
    getByte (checksumBytes count crc) index = (crc >>> (8 * index)).setWidth 8 := by
  rw [getByte_eq_getElem (by rwa [length_checksumBytes])]
  simp [checksumBytes]

theorem checksumBytes_eq (count : Nat) (crc : BitVec 32) :
    checksumBytes count crc = littleEndian count crc := by
  refine buffer_ext (by simp) fun index bound => ?_
  rw [length_checksumBytes] at bound
  rw [getByte_checksumBytes crc bound, getByte_littleEndian bound]

theorem littleEndian_not_setWidth (value : BitVec 16) :
    littleEndian 2 (~~~value.setWidth 32) = littleEndian 2 (~~~value) := by
  refine buffer_ext (by simp) fun index bound => ?_
  rw [length_littleEndian] at bound
  rw [getByte_littleEndian bound, getByte_littleEndian bound]
  apply BitVec.eq_of_getLsbD_eq
  intro position inside
  have low : 8 * index + position < 16 := by omega
  have wide : 8 * index + position < 32 := by omega
  simp [inside, low, wide]

theorem tlpChecksum_eq (pkt : Bytes) : tlpChecksum pkt =
    littleEndian 4
      (~~~(msbRun 0x04C11DB7#32 0xFFFFFFFF#32
        (messageBits (pkt.take (lcrcOffset pkt)))).reverse) := by
  rw [tlpChecksum, checksumBytes_eq, crc32p_eq, lsbRun_eq_reverse,
    show tlpLcrc32Poly.reverse = 0x04C11DB7#32 by decide +kernel,
    show (0xffffffff : BitVec 32).reverse = 0xFFFFFFFF#32 by decide +kernel]

theorem dllpChecksum_eq (pkt : Bytes) : dllpChecksum pkt =
    littleEndian 2
      (~~~(msbRun 0x100B#16 0xFFFF#16 (messageBits (pkt.take PcieDllp.dlCrc16))).reverse) := by
  rw [dllpChecksum, checksumBytes_eq, crc32p_narrow _ (by decide) (by decide),
    littleEndian_not_setWidth, lsbRun_eq_reverse, show (dllpCrc16Poly.setWidth 16).reverse =
      0x100B#16 by decide +kernel,
    show ((0xffff : BitVec 32).setWidth 16).reverse = 0xFFFF#16 by decide +kernel]

/-- `crc32p` is the mirror image of the register in the specification, at 32 bits and, where the
seed and the polynomial are small, at 16. -/
theorem crc32p_mirrored (data : Bytes) (init poly : BitVec 32) :
    crc32p data init poly = (msbRun poly.reverse init.reverse (messageBits data)).reverse ∧
    (init.toNat < 2 ^ 16 → poly.toNat < 2 ^ 16 →
      (∀ done byte rest, data = done ++ byte :: rest → ∀ shifts,
        ((crcShift poly)^[shifts] (crc32p done init poly ^^^ byte.setWidth 32)).toNat < 2 ^ 16) ∧
      crc32p data init poly =
        (msbRun (poly.setWidth 16).reverse (init.setWidth 16).reverse
          (messageBits data)).reverse.setWidth 32) ∧
    (∀ pkt, pcieLcrc32 pkt = overwrite pkt (lcrcOffset pkt) (littleEndian 4
      (~~~(msbRun 0x04C11DB7#32 0xFFFFFFFF#32
        (messageBits (pkt.take (lcrcOffset pkt)))).reverse))) ∧
    ∀ pkt, pcieCrc16 pkt = overwrite pkt PcieDllp.dlCrc16 (littleEndian 2
      (~~~(msbRun 0x100B#16 0xFFFF#16 (messageBits (pkt.take PcieDllp.dlCrc16))).reverse)) := by
  refine ⟨?_, fun smallInit smallPoly => ⟨fun done byte rest _ shifts => ?_, ?_⟩, fun pkt => ?_,
    fun pkt => ?_⟩
  · rw [crc32p_eq, lsbRun_eq_reverse]
  · rw [iterate_crcShift]
    refine idle_narrow ?_ smallPoly shifts
    have before := crc32p_narrow_lt done smallInit smallPoly
    rw [BitVec.toNat_xor]
    refine Nat.xor_lt_two_pow before ?_
    rw [BitVec.toNat_setWidth]
    omega
  · rw [crc32p_narrow data smallInit smallPoly, lsbRun_eq_reverse]
  · rw [pcieLcrc32, tlpChecksum_eq]
  · rw [pcieCrc16, dllpChecksum_eq]

theorem crc16_mirrored : crc32p [0x12, 0x34] 0xffff dllpCrc16Poly =
    (msbRun 0x100B#16 0xFFFF#16 (messageBits [0x12, 0x34])).reverse.setWidth 32 := by
  have mirrored :=
    ((crc32p_mirrored [0x12, 0x34] 0xffff dllpCrc16Poly).2.1 (by decide) (by decide)).2
  rwa [show (dllpCrc16Poly.setWidth 16).reverse = 0x100B#16 by decide +kernel,
    show ((0xffff : BitVec 32).setWidth 16).reverse = 0xFFFF#16 by decide +kernel] at mirrored

/-! Errors on the link. -/

def corrupt (pkt error : Bytes) : Bytes := List.zipWith (· ^^^ ·) pkt error ++ pkt.drop error.length

theorem length_corrupt {pkt error : Bytes} (fits : error.length ≤ pkt.length) :
    (corrupt pkt error).length = pkt.length := by
  rw [corrupt, List.length_append, List.length_zipWith, List.length_drop]
  omega

theorem take_corrupt {pkt error : Bytes} (fits : error.length ≤ pkt.length) :
    (corrupt pkt error).take error.length =
      List.zipWith (· ^^^ ·) (pkt.take error.length) error := by
  have length : (List.zipWith (· ^^^ ·) pkt error).length = error.length := by
    rw [List.length_zipWith]
    omega
  rw [corrupt, List.take_append_of_le_length length.ge, List.take_zipWith, List.take_length]

theorem bitsOf_xor (left right : Byte) :
    bitsOf (left ^^^ right) = List.zipWith xor (bitsOf left) (bitsOf right) := by
  rw [bitsOf, bitsOf, bitsOf, List.zipWith_map, List.zipWith_self]
  refine List.map_congr_left fun index _ => ?_
  rw [BitVec.getLsbD_xor]

theorem messageBits_xor (data error : Bytes) (same : data.length = error.length) :
    messageBits (List.zipWith (· ^^^ ·) data error) =
      List.zipWith xor (messageBits data) (messageBits error) := by
  induction data generalizing error with
  | nil => rfl
  | cons byte data ih =>
      cases error with
      | nil => cases same
      | cons flips error =>
          rw [List.zipWith_cons_cons, messageBits, List.flatMap_cons, messageBits,
            List.flatMap_cons, messageBits,
            List.flatMap_cons, List.zipWith_append (by rw [length_bitsOf, length_bitsOf]),
            bitsOf_xor]
          exact congrArg _ (ih error (Nat.succ.inj same))

theorem stored_iff (pkt : Bytes) (offset : Nat) {count width : Nat} (full : width = 8 * count)
    (crc : BitVec 32) :
    (∀ index < count, getByte pkt (offset + index) = getByte (checksumBytes count crc) index) ↔
      word width (messageBits (slice pkt offset count)) = crc.setWidth width := by
  have bit {position : Nat} (inside : position < width) :
      (word width (messageBits (slice pkt offset count))).getLsbD position =
        (getByte pkt (offset + position / 8)).getLsbD (position % 8) := by
    rw [getLsbD_word _ inside, getD_messageBits, getByte_slice (by omega)]
  have wanted {position : Nat} (inside : position < width) : (crc.setWidth width).getLsbD position =
      (getByte (checksumBytes count crc) (position / 8)).getLsbD (position % 8) := by
    rw [getByte_checksumBytes crc (by omega), BitVec.getLsbD_setWidth, BitVec.getLsbD_setWidth,
      BitVec.getLsbD_ushiftRight, decide_eq_true inside, decide_eq_true (Nat.mod_lt _ (by decide)),
      Nat.div_add_mod]
  constructor
  · intro stored
    apply BitVec.eq_of_getLsbD_eq
    intro position inside
    rw [bit inside, wanted inside, stored _ (by omega)]
  · intro same index bound
    apply BitVec.eq_of_getLsbD_eq
    intro position inside
    have place : 8 * index + position < width := by omega
    have equal := congrArg (fun value => BitVec.getLsbD value (8 * index + position)) same
    simp only [bit place, wanted place] at equal
    rwa [show (8 * index + position) / 8 = index by omega,
      show (8 * index + position) % 8 = position by omega] at equal

section

variable {pkt error : Bytes}

theorem take_add_slice (pkt : Bytes) (offset count : Nat) :
    pkt.take (offset + count) = pkt.take offset ++ slice pkt offset count := by
  rw [List.take_add, slice]

theorem pcieLcrc32Valid_iff (long : lcrcOffset pkt + 4 ≤ pkt.length) : pcieLcrc32Valid pkt = true ↔
    lsbRun tlpLcrc32Poly 0xFFFFFFFF (messageBits (pkt.take (lcrcOffset pkt + 4))) =
      idle tlpLcrc32Poly (BitVec.allOnes 32) 32 := by
  have full : (messageBits (slice pkt (lcrcOffset pkt) 4)).length = 32 := by
    rw [length_messageBits, length_slice]
    omega
  rw [take_add_slice, messageBits_append,
    ← complement_follows_iff (by decide) _ _ full, ← crc32p_eq]
  simp only [pcieLcrc32Valid, List.all_eq_true, List.mem_range, beq_iff_eq]
  rw [tlpChecksum, stored_iff pkt _ (show 32 = 8 * 4 by decide), BitVec.setWidth_eq]

theorem pcieCrc16Valid_iff (long : PcieDllp.size ≤ pkt.length) : pcieCrc16Valid pkt = true ↔
    lsbRun (dllpCrc16Poly.setWidth 16) 0xFFFF#16 (messageBits (pkt.take PcieDllp.size)) =
      idle (dllpCrc16Poly.setWidth 16) (BitVec.allOnes 16) 16 := by
  have full : (messageBits (slice pkt PcieDllp.dlCrc16 2)).length = 16 := by
    rw [length_messageBits, length_slice]
    simp only [PcieDllp.size, PcieDllp.dlCrc16] at *
    omega
  rw [show PcieDllp.size = PcieDllp.dlCrc16 + 2 from rfl, take_add_slice, messageBits_append,
    ← complement_follows_iff (by decide) _ _ full]
  simp only [pcieCrc16Valid, List.all_eq_true, List.mem_range, beq_iff_eq]
  rw [dllpChecksum, stored_iff pkt _ (show 16 = 8 * 2 by decide),
    crc32p_narrow _ (by decide) (by decide),
    BitVec.setWidth_not (by decide), BitVec.setWidth_setWidth_of_le _ (by decide),
    BitVec.setWidth_eq]
  rfl

theorem pcieLcrc32Valid_corrupt (long : lcrcOffset pkt + 4 ≤ pkt.length)
    (valid : pcieLcrc32Valid pkt = true) (covers : error.length = lcrcOffset pkt + 4)
    (unchanged : tlpTotalLength ((corrupt pkt error).drop PcieDltlp.dlTlp) =
      tlpTotalLength (pkt.drop PcieDltlp.dlTlp))
    (moves : lsbRun tlpLcrc32Poly 0#32 (messageBits error) ≠ 0#32) :
    pcieLcrc32Valid (corrupt pkt error) = false := by
  have offset : lcrcOffset (corrupt pkt error) = lcrcOffset pkt := by
    rw [lcrcOffset, lcrcOffset, unchanged]
  have length := length_corrupt (show error.length ≤ pkt.length by omega)
  rw [pcieLcrc32Valid_iff long] at valid
  rw [← Bool.not_eq_true, pcieLcrc32Valid_iff (by rw [offset, length]; exact long),
    offset, ← covers, take_corrupt (by omega),
    messageBits_xor _ _ (by rw [List.length_take]; omega), ← valid, ← covers]
  refine error_detected _ _ ?_ moves
  rw [length_messageBits, length_messageBits, List.length_take]
  omega

theorem pcieCrc16Valid_corrupt (long : PcieDllp.size ≤ pkt.length)
    (valid : pcieCrc16Valid pkt = true) (covers : error.length = PcieDllp.size)
    (moves : lsbRun (dllpCrc16Poly.setWidth 16) 0#16 (messageBits error) ≠ 0#16) :
    pcieCrc16Valid (corrupt pkt error) = false := by
  have length := length_corrupt (show error.length ≤ pkt.length by omega)
  rw [pcieCrc16Valid_iff long] at valid
  rw [← Bool.not_eq_true, pcieCrc16Valid_iff (by rw [length]; exact long), ← covers,
    take_corrupt (by omega), messageBits_xor _ _ (by rw [List.length_take]; omega),
    ← valid, ← covers]
  refine error_detected _ _ ?_ moves
  rw [length_messageBits, length_messageBits, List.length_take]
  omega

end

/-- A packet that passes its check does not pass it any more after a burst of errors that fits the
register. -/
theorem burst_errors_detected :
    (∀ pkt error : Bytes, lcrcOffset pkt + 4 ≤ pkt.length → pcieLcrc32Valid pkt = true →
      error.length = lcrcOffset pkt + 4 → Burst 32 (messageBits error) →
      tlpTotalLength ((corrupt pkt error).drop PcieDltlp.dlTlp) =
        tlpTotalLength (pkt.drop PcieDltlp.dlTlp) →
      pcieLcrc32Valid (corrupt pkt error) = false) ∧
    ∀ pkt error : Bytes, PcieDllp.size ≤ pkt.length → pcieCrc16Valid pkt = true →
      error.length = PcieDllp.size → Burst 16 (messageBits error) →
      pcieCrc16Valid (corrupt pkt error) = false := by
  constructor
  · intro pkt error long valid covers burst unchanged
    exact pcieLcrc32Valid_corrupt long valid covers unchanged (lsbRun_burst (by decide) burst)
  · intro pkt error long valid covers burst
    exact pcieCrc16Valid_corrupt long valid covers (lsbRun_burst (by decide) burst)

def linkRead : Bytes := pcieLcrc32 [0, 1, 0x04, 0, 0, 1, 0, 0, 0, 0x0f, 0, 0, 0, 0, 0, 0, 0, 0]

/-- Thirty-two bits, the first of them the last of the TLP. -/
def straddlingError : Bytes := List.replicate 13 0 ++ [0x80, 0xff, 0xff, 0xff, 0x7f]

theorem straddling_error_detected :
    pcieLcrc32Valid linkRead = true ∧
    pcieLcrc32Valid (corrupt linkRead straddlingError) = false := by
  have valid : pcieLcrc32Valid linkRead = true := by decide +kernel
  refine ⟨valid, burst_errors_detected.1 _ _ (by decide +kernel) valid (by decide +kernel) ?_
    (by decide +kernel)⟩
  refine ⟨by decide +kernel, 111, fun index set => ?_⟩
  by_cases inside : index < 144
  · exact (by decide +kernel : ∀ index < 144,
      (messageBits straddlingError).getD index false = true →
      111 ≤ index ∧ index < 111 + 32) index inside set
  · rw [List.getD_eq_default _ _ (by rw [length_messageBits]; exact Nat.not_lt.mp inside)] at set
    cases set

theorem orderOf_tlpLcrc32Poly : orderOf (shift tlpLcrc32Poly) = 2 ^ 32 - 1 := by
  have primes : ∀ factor ∈ [3, 5, 17, 257, 65537], Nat.Prime factor := by
    simp only [List.forall_mem_cons]
    norm_num
  exact orderOf_shift (by decide) (by decide) 32 primes (by decide) (by decide +kernel)
    (by decide +kernel)

theorem orderOf_dllpCrc16Poly : orderOf (shift (dllpCrc16Poly.setWidth 16)) = 2 ^ 16 - 1 := by
  have primes : ∀ factor ∈ [3, 5, 17, 257], Nat.Prime factor := by
    simp only [List.forall_mem_cons]
    norm_num
  exact orderOf_shift (by decide) (by decide) 16 primes (by decide) (by decide +kernel)
    (by decide +kernel)

theorem lcrcOffset_le (pkt : Bytes) : lcrcOffset pkt ≤ 4114 := by
  have cases := tlpTotalLength_cases (pkt.drop PcieDltlp.dlTlp)
  have most := tlpDataLength_le (pkt.drop PcieDltlp.dlTlp)
  rw [lcrcOffset, PcieDltlp.dlTlp] at *
  omega

/-- A packet that passes its check does not pass it any more after two of its bits were flipped,
however far apart they are. -/
theorem double_errors_detected :
    (∀ (pkt error : Bytes) (distance : Nat), lcrcOffset pkt + 4 ≤ pkt.length →
      pcieLcrc32Valid pkt = true → error.length = lcrcOffset pkt + 4 →
      Pair distance (messageBits error) →
      tlpTotalLength ((corrupt pkt error).drop PcieDltlp.dlTlp) =
        tlpTotalLength (pkt.drop PcieDltlp.dlTlp) →
      pcieLcrc32Valid (corrupt pkt error) = false) ∧
    ∀ (pkt error : Bytes) (distance : Nat), PcieDllp.size ≤ pkt.length → pcieCrc16Valid pkt = true →
      error.length = PcieDllp.size → Pair distance (messageBits error) →
      pcieCrc16Valid (corrupt pkt error) = false := by
  constructor
  · intro pkt error distance long valid covers pair unchanged
    refine pcieLcrc32Valid_corrupt long valid covers unchanged ?_
    have near : distance < 2 ^ 32 - 1 := by
      obtain ⟨-, start, inside, -⟩ := pair
      have short := lcrcOffset_le pkt
      rw [length_messageBits, covers] at inside
      omega
    rw [Ne, lsbRun_pair (by decide) (by decide) pair]
    exact pow_ne_one_of_lt_orderOf pair.1.ne' (by rwa [orderOf_tlpLcrc32Poly])
  · intro pkt error distance long valid covers pair
    refine pcieCrc16Valid_corrupt long valid covers ?_
    have near : distance < 2 ^ 16 - 1 := by
      obtain ⟨-, start, inside, -⟩ := pair
      rw [length_messageBits, covers, PcieDllp.size] at inside
      omega
    rw [Ne, lsbRun_pair (by decide) (by decide) pair]
    exact pow_ne_one_of_lt_orderOf pair.1.ne' (by rwa [orderOf_dllpCrc16Poly])

def outerErrors : Bytes := 0x01 :: List.replicate 16 0 ++ [0x80]

theorem outer_errors_detected :
    pcieLcrc32Valid linkRead = true ∧ pcieLcrc32Valid (corrupt linkRead outerErrors) = false := by
  have valid : pcieLcrc32Valid linkRead = true := by decide +kernel
  have pair : Pair 143 (messageBits outerErrors) := by
    refine ⟨by decide, 0, by decide +kernel, fun index => ?_⟩
    by_cases inside : index < 144
    · exact (by decide +kernel : ∀ index < 144, (messageBits outerErrors).getD index false = true ↔
        index = 0 ∨ index = 0 + 143) index inside
    · rw [List.getD_eq_default _ _ (by rw [length_messageBits]; exact Nat.not_lt.mp inside)]
      simp only [Bool.false_eq_true, false_iff]
      omega
  exact ⟨valid, double_errors_detected.1 _ _ 143 (by decide +kernel) valid (by decide +kernel) pair
    (by decide +kernel)⟩

end WarpPipe
