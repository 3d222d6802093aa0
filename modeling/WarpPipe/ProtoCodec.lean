import WarpPipe.ProtoCore
import WarpPipe.Library.Masks
import Mathlib.Tactic.IntervalCases

/-! What `tlp_req_set_addr` writes is what the other functions of `src/proto.c` read back. -/

namespace WarpPipe

open ByteLayout

def AgreeBelow (count : Nat) (left right : Bytes) : Prop :=
  ∀ index < count, getByte left index = getByte right index

theorem agreeBelow_append (first second : Bytes) :
    AgreeBelow first.length (first ++ second) first :=
  fun _ bound => getByte_append_left bound

theorem AgreeBelow.mono {count bound : Nat} {left right : Bytes}
    (agree : AgreeBelow count left right) (smaller : bound ≤ count) : AgreeBelow bound left right :=
  fun index inside => agree index (Nat.lt_of_lt_of_le inside smaller)

theorem AgreeBelow.get {count : Nat} {left right : Bytes} (agree : AgreeBelow count left right)
    (field : Field) (bound : field.byte < count) : field.get left = field.get right :=
  Field.get_congr (agree field.byte bound)

theorem tlpDataLength_congr {left right : Bytes} (agree : AgreeBelow 4 left right) :
    tlpDataLength left = tlpDataLength right := by
  simp only [tlpDataLength, agree.get PcieTlp.tlpLengthHi (by decide),
    agree.get PcieTlp.tlpLengthLo (by decide)]

theorem tlpTotalLength_congr {left right : Bytes} (agree : AgreeBelow 4 left right) :
    tlpTotalLength left = tlpTotalLength right := by
  simp only [tlpTotalLength, tlpDataLength_congr agree, agree.get PcieTlp.tlpFmt (by decide)]

theorem tlpDataLengthBytes_congr {left right : Bytes} (agree : AgreeBelow 8 left right) :
    tlpDataLengthBytes left = tlpDataLengthBytes right := by
  simp only [tlpDataLengthBytes, tlpDataLength_congr (agree.mono (by decide)),
    agree.get PcieTlp.rFirstBe (by decide), agree.get PcieTlp.rLastBe (by decide)]

theorem tlpTypeOf_congr {left right : Bytes} (agree : AgreeBelow 4 left right) :
    tlpTypeOf left = tlpTypeOf right := by
  simp only [tlpTypeOf, agree.get PcieTlp.tlpFmt (by decide),
    agree.get PcieTlp.tlpType (by decide)]

theorem firstByteOffset_congr {left right : Bytes} (agree : AgreeBelow 8 left right) :
    firstByteOffset left = firstByteOffset right := by
  simp only [firstByteOffset, agree.get PcieTlp.rFirstBe (by decide)]

theorem tlpReqGetAddr_congr {left right : Bytes} {count : Nat} (agree : AgreeBelow count left right)
    (header : 12 ≤ count)
    (address : PcieTlp.tlpFmt.get right &&& pcieTlpFmt4dw ≠ 0 → 16 ≤ count) :
    tlpReqGetAddr left = tlpReqGetAddr right := by
  have start : PcieTlp.rAddress = 8 := rfl
  simp only [tlpReqGetAddr, agree.get PcieTlp.tlpFmt (Nat.lt_of_lt_of_le (by decide) header)]
  apply ofBigEndian_congr
  intro index bound
  rw [getByte_drop, getByte_drop]
  apply agree
  by_cases wide : PcieTlp.tlpFmt.get right &&& pcieTlpFmt4dw ≠ 0
  · have := address wide
    rw [if_pos wide] at bound
    omega
  · rw [if_neg wide] at bound
    omega

theorem PcieProto.code_eq {code : Nat} {proto : PcieProto}
    (found : PcieProto.ofCode? code = some proto) :
    code = proto.code := by
  have matched := List.find?_some found
  exact (of_decide_eq_true matched).symm

theorem lengthField_eq (hi lo : Nat) (low : lo < 256) : hi <<< 8 ||| lo = hi * 256 + lo := by
  rw [← Nat.shiftLeft_add_eq_or_of_lt low, Nat.shiftLeft_eq]

theorem tlpDataLength_eq (pkt : Bytes) :
    tlpDataLength pkt =
      (PcieTlp.tlpLengthHi.get pkt * 256 + PcieTlp.tlpLengthLo.get pkt + 1023) % 1024 + 1 := by
  have low : PcieTlp.tlpLengthLo.get pkt < 256 := PcieTlp.tlpLengthLo.get_lt pkt
  simp only [tlpDataLength, lengthField_eq _ _ low]
  omega

theorem tlpDataLength_le (pkt : Bytes) : tlpDataLength pkt ≤ 1024 := by
  rw [tlpDataLength_eq]
  omega

theorem tlpTotalLength_cases (pkt : Bytes) :
    (PcieTlp.tlpFmt.get pkt = 0 ∧ tlpTotalLength pkt = 12) ∨
    (PcieTlp.tlpFmt.get pkt = 1 ∧ tlpTotalLength pkt = 16) ∨
    (PcieTlp.tlpFmt.get pkt = 2 ∧ tlpTotalLength pkt = 12 + 4 * tlpDataLength pkt) ∨
    (PcieTlp.tlpFmt.get pkt = 3 ∧ tlpTotalLength pkt = 16 + 4 * tlpDataLength pkt) ∨
    (4 ≤ PcieTlp.tlpFmt.get pkt ∧ tlpTotalLength pkt = -1) := by
  have bound : PcieTlp.tlpFmt.get pkt < 8 := PcieTlp.tlpFmt.get_lt pkt
  simp only [tlpTotalLength, pcieTlpFmt3dwNodata, pcieTlpFmt3dwData, pcieTlpFmt4dwNodata,
    pcieTlpFmt4dwData]
  generalize PcieTlp.tlpFmt.get pkt = fmt at *
  interval_cases fmt <;> simp <;> omega

theorem byteEnables_single (align length : Nat) (positive : 1 ≤ length)
    (short : align + length ≤ 4) :
    firstEnabled (byteEnables align length).1 = align ∧
      enabledBytes 1 (byteEnables align length).1 (byteEnables align length).2 = length ∧
      (byteEnables align length).1 < 16 ∧ (byteEnables align length).2 < 16 := by
  have alignBound : align ≤ 3 := by omega
  have lengthBound : length ≤ 4 := by omega
  interval_cases align <;> interval_cases length <;> first | omega | decide

theorem trimLast_shift (shift : Nat) (bound : shift < 4) (dataLenBytes : Int) :
    trimLast (0xf >>> shift) dataLenBytes = dataLenBytes - shift := by
  interval_cases shift <;> simp [trimLast]

theorem firstBe_multiple (align dwords lastBe : Nat) (bound : align < 4) (several : dwords ≠ 1) :
    firstEnabled (0xf <<< align % 16) = align ∧
      enabledBytes dwords (0xf <<< align % 16) lastBe = trimLast lastBe (dwords * 4 - align) := by
  have notOne : ¬((dwords : Int) * 4 = 4) := by omega
  simp only [enabledBytes, notOne, if_false]
  interval_cases align <;> simp [firstEnabled]

theorem byteEnables_decode (align length : Nat) (bound : align < 4) (positive : 1 ≤ length) :
    firstEnabled (byteEnables align length).1 = align ∧
      enabledBytes ((align + length + 3) / 4) (byteEnables align length).1
        (byteEnables align length).2 = length ∧
      (byteEnables align length).1 < 16 ∧ (byteEnables align length).2 < 16 := by
  by_cases short : align + length ≤ 4
  · have one : (align + length + 3) / 4 = 1 := by omega
    rw [one]
    exact byteEnables_single align length positive short
  · have notShort : ¬((length : Int) + align ≤ 4) := by omega
    have notZero : ¬((length : Int) = 0) := by omega
    have several : (align + length + 3) / 4 ≠ 1 := by omega
    obtain ⟨shift, shiftBound, shiftEq⟩ :
        ∃ shift : Nat, shift < 4 ∧ (-((length : Int) + align)) % 4 = shift :=
      ⟨((-((length : Int) + align)) % 4).toNat, by omega, by omega⟩
    simp only [byteEnables, notShort, notZero, if_false, shiftEq, Int.toNat_natCast]
    obtain ⟨first, enabled⟩ := firstBe_multiple align _ (0xf >>> shift) bound several
    refine ⟨first, ?_, Nat.mod_lt _ (by decide), ?_⟩
    · rw [enabled, trimLast_shift shift shiftBound]
      omega
    · interval_cases shift <;> decide

/-! The fields of a request after `tlp_req_set_addr`. -/

theorem toNat_and_three (addr : BitVec 64) : (addr &&& 3).toNat = addr.toNat % 4 :=
  toNat_and_lowMask addr 3 2 (by decide)

theorem toNat_and_not_three (addr : BitVec 64) : (addr &&& ~~~3).toNat = addr.toNat / 4 * 4 :=
  toNat_and_not_lowMask addr 3 2 (by decide)

theorem length_setExtent (pkt : Bytes) (align : Nat) (length : Int) :
    (setExtent pkt align length).length = pkt.length := by
  simp [setExtent]

theorem length_setAddress (pkt : Bytes) (addr : BitVec 64) :
    (setAddress pkt addr).length = pkt.length := by
  simp only [setAddress]
  split <;> simp

@[simp] theorem length_tlpReqSetAddr (pkt : Bytes) (addr : BitVec 64) (length : Int) :
    (tlpReqSetAddr pkt addr length).length = pkt.length := by
  rw [tlpReqSetAddr, length_setAddress, length_setExtent]

theorem get_setExtent (pkt : Bytes) (align : Nat) (length : Int) (field : Field)
    (fits : field.shift + field.width ≤ 8) (firstBe : field.Disjoint PcieTlp.rFirstBe)
    (lastBe : field.Disjoint PcieTlp.rLastBe) (lengthHi : field.Disjoint PcieTlp.tlpLengthHi)
    (lengthLo : field.Disjoint PcieTlp.tlpLengthLo) :
    field.get (setExtent pkt align length) = field.get pkt := by
  simp only [setExtent]
  rw [Field.get_set_disjoint fits lengthLo, Field.get_set_disjoint fits lengthHi,
    Field.get_set_disjoint fits lastBe, Field.get_set_disjoint fits firstBe]

theorem getByte_setExtent (pkt : Bytes) (align : Nat) (length : Int) (index : Nat)
    (notHi : index ≠ 2) (notLo : index ≠ 3) (notBe : index ≠ 7) :
    getByte (setExtent pkt align length) index = getByte pkt index := by
  simp only [setExtent]
  rw [Field.getByte_set_ne notLo, Field.getByte_set_ne notHi, Field.getByte_set_ne notBe,
    Field.getByte_set_ne notBe]

theorem rFirstBe_setExtent (pkt : Bytes) (align : Nat) (length : Int) (long : 16 ≤ pkt.length) :
    PcieTlp.rFirstBe.get (setExtent pkt align length) = (byteEnables align length).1 % 16 := by
  simp only [setExtent]
  rw [Field.get_set_disjoint (by decide) (by decide),
    Field.get_set_disjoint (by decide) (by decide), Field.get_set_disjoint (by decide) (by decide),
    Field.get_set_same (Nat.lt_of_lt_of_le (by decide) long) (by decide)]
  rfl

theorem rLastBe_setExtent (pkt : Bytes) (align : Nat) (length : Int) (long : 16 ≤ pkt.length) :
    PcieTlp.rLastBe.get (setExtent pkt align length) = (byteEnables align length).2 % 16 := by
  simp only [setExtent]
  rw [Field.get_set_disjoint (by decide) (by decide),
    Field.get_set_disjoint (by decide) (by decide),
    Field.get_set_same (by simpa using Nat.lt_of_lt_of_le (by decide) long) (by decide)]
  rfl

theorem roundedDwords (align length : Nat) :
    ((length : Int) + align + 4 - 1).tdiv 4 = ((align + length + 3) / 4 : Nat) := by
  rw [Int.tdiv_eq_ediv_of_nonneg (by omega)]
  omega

theorem shiftRight_eight (value : Nat) : (value : Int) >>> (8 : Nat) = (value / 256 : Nat) := by
  rw [Int.shiftRight_eq_div_pow]
  omega

theorem tlpLength_setExtent (pkt : Bytes) (align length : Nat) (long : 16 ≤ pkt.length) :
    PcieTlp.tlpLengthHi.get (setExtent pkt align length) = (align + length + 3) / 4 / 256 % 4 ∧
      PcieTlp.tlpLengthLo.get (setExtent pkt align length) = (align + length + 3) / 4 % 256 := by
  constructor
  · simp only [setExtent, roundedDwords, shiftRight_eight]
    rw [Field.get_set_disjoint (by decide) (by decide),
      Field.get_set_same (by simpa using Nat.lt_of_lt_of_le (by decide) long) (by decide)]
    simp only [PcieTlp.tlpLengthHi]
    omega
  · simp only [setExtent, roundedDwords]
    rw [Field.get_set_same (by simpa using Nat.lt_of_lt_of_le (by decide) long) (by decide)]
    simp only [PcieTlp.tlpLengthLo]
    omega

theorem setAddress_cases (pkt : Bytes) (addr : BitVec 64) :
    (addr.toNat < 2 ^ 32 ∧ setAddress pkt addr =
      overwrite (PcieTlp.tlpFmt.set (PcieTlp.tlpFmt.get pkt &&& 6) pkt) 8 (bigEndian 4 addr)) ∨
    (2 ^ 32 ≤ addr.toNat ∧ setAddress pkt addr =
      overwrite (PcieTlp.tlpFmt.set (PcieTlp.tlpFmt.get pkt ||| 1) pkt) 8 (bigEndian 8 addr)) := by
  by_cases low : addr < 0x100000000
  · refine Or.inl ⟨by simpa [BitVec.lt_def] using low, ?_⟩
    simp only [setAddress, low, if_true]
    rfl
  · refine Or.inr ⟨by simpa [BitVec.lt_def] using low, ?_⟩
    simp only [setAddress, low, if_false]
    rfl

theorem getByte_setAddress_low (pkt : Bytes) (addr : BitVec 64) (long : 16 ≤ pkt.length)
    (index : Nat) (inside : 0 < index) (header : index < 8) :
    getByte (setAddress pkt addr) index = getByte pkt index := by
  rcases setAddress_cases pkt addr with ⟨_, eq⟩ | ⟨_, eq⟩ <;>
    rw [eq, getByte_overwrite_outside (by simp; omega) (Or.inl header),
      Field.getByte_set_ne (by simp only [PcieTlp.tlpFmt]; omega)]

theorem getByte_setAddress_payload (pkt : Bytes) (addr : BitVec 64) (long : 16 ≤ pkt.length)
    (index : Nat) (past : 16 ≤ index ∨ (12 ≤ index ∧ addr.toNat < 2 ^ 32)) :
    getByte (setAddress pkt addr) index = getByte pkt index := by
  rcases setAddress_cases pkt addr with ⟨_, eq⟩ | ⟨_, eq⟩ <;>
    rw [eq, getByte_overwrite_outside (by simp; omega) (Or.inr (by simp; omega)),
      Field.getByte_set_ne (by simp only [PcieTlp.tlpFmt]; omega)]

theorem tlpFmt_setAddress (pkt : Bytes) (addr : BitVec 64) (long : 16 ≤ pkt.length) :
    PcieTlp.tlpFmt.get (setAddress pkt addr) =
      if addr.toNat < 2 ^ 32 then PcieTlp.tlpFmt.get pkt &&& 6
      else PcieTlp.tlpFmt.get pkt ||| 1 := by
  have bound : PcieTlp.tlpFmt.get pkt < 8 := PcieTlp.tlpFmt.get_lt pkt
  have first : PcieTlp.tlpFmt.byte < pkt.length := Nat.lt_of_lt_of_le (by decide) long
  have keep (value count : Nat) (short : count ≤ 8) :
      PcieTlp.tlpFmt.get (overwrite (PcieTlp.tlpFmt.set value pkt) 8 (bigEndian count addr)) =
        value % 8 := by
    have outside : getByte (overwrite (PcieTlp.tlpFmt.set value pkt) 8 (bigEndian count addr))
        PcieTlp.tlpFmt.byte = getByte (PcieTlp.tlpFmt.set value pkt) PcieTlp.tlpFmt.byte :=
      getByte_overwrite_outside (by simp; omega) (Or.inl (by decide))
    rw [Field.get_congr outside, Field.get_set_same first (by decide)]
    rfl
  rcases setAddress_cases pkt addr with ⟨low, eq⟩ | ⟨high, eq⟩
  · rw [if_pos low, eq, keep _ 4 (by decide)]
    generalize PcieTlp.tlpFmt.get pkt = fmt at *
    interval_cases fmt <;> rfl
  · rw [if_neg (by omega), eq, keep _ 8 (by decide)]
    generalize PcieTlp.tlpFmt.get pkt = fmt at *
    interval_cases fmt <;> rfl

theorem tlpType_setAddress (pkt : Bytes) (addr : BitVec 64) (long : 16 ≤ pkt.length) :
    PcieTlp.tlpType.get (setAddress pkt addr) = PcieTlp.tlpType.get pkt := by
  have keep (value count : Nat) (short : count ≤ 8) :
      PcieTlp.tlpType.get (overwrite (PcieTlp.tlpFmt.set value pkt) 8 (bigEndian count addr)) =
        PcieTlp.tlpType.get pkt := by
    have outside : getByte (overwrite (PcieTlp.tlpFmt.set value pkt) 8 (bigEndian count addr))
        PcieTlp.tlpType.byte = getByte (PcieTlp.tlpFmt.set value pkt) PcieTlp.tlpType.byte :=
      getByte_overwrite_outside (by simp; omega) (Or.inl (by decide))
    rw [Field.get_congr outside, Field.get_set_disjoint (by decide) (by decide)]
  rcases setAddress_cases pkt addr with ⟨_, eq⟩ | ⟨_, eq⟩ <;> rw [eq, keep _ _ (by decide)]

theorem tlpReqGetAddr_setAddress (pkt : Bytes) (addr : BitVec 64) (long : 16 ≤ pkt.length) :
    tlpReqGetAddr (setAddress pkt addr) = addr := by
  have fmtBound : PcieTlp.tlpFmt.get pkt < 8 := PcieTlp.tlpFmt.get_lt pkt
  have written (value count : Nat) (short : count ≤ 8) (rest : Bytes) :
      ofBigEndian 64 count
        ((overwrite (PcieTlp.tlpFmt.set value pkt) 8 (bigEndian count addr)).drop
          PcieTlp.rAddress) =
        ofBigEndian 64 count (bigEndian count addr ++ rest) := by
    apply ofBigEndian_congr
    intro index bound
    rw [getByte_drop, show PcieTlp.rAddress = 8 from rfl,
      getByte_overwrite_inside (by simp; omega) (by simpa using bound),
      getByte_append_left (by simpa using bound)]
  have fmt := tlpFmt_setAddress pkt addr long
  rcases setAddress_cases pkt addr with ⟨low, eq⟩ | ⟨high, eq⟩
  · rw [if_pos low] at fmt
    have narrow : ¬(PcieTlp.tlpFmt.get (setAddress pkt addr) &&& pcieTlpFmt4dw ≠ 0) := by
      rw [fmt]
      generalize PcieTlp.tlpFmt.get pkt = old at *
      interval_cases old <;> decide
    rw [tlpReqGetAddr, if_neg narrow, eq, written _ 4 (by decide) []]
    exact ofBigEndian_bigEndian addr [] (by simpa using low)
  · rw [if_neg (by omega)] at fmt
    have wide : PcieTlp.tlpFmt.get (setAddress pkt addr) &&& pcieTlpFmt4dw ≠ 0 := by
      rw [fmt]
      generalize PcieTlp.tlpFmt.get pkt = old at *
      interval_cases old <;> decide
    rw [tlpReqGetAddr, if_pos wide, eq, written _ 8 (by decide) []]
    exact ofBigEndian_bigEndian addr [] (by simpa using addr.isLt)

theorem tlpFmt_tlpReqSetAddr (pkt : Bytes) (addr : BitVec 64) (length : Int)
    (long : 16 ≤ pkt.length) :
    PcieTlp.tlpFmt.get (tlpReqSetAddr pkt addr length) =
      if addr.toNat < 2 ^ 32 then PcieTlp.tlpFmt.get pkt &&& 6
      else PcieTlp.tlpFmt.get pkt ||| 1 := by
  have rounded : (addr &&& ~~~3).toNat = addr.toNat / 4 * 4 := toNat_and_not_three addr
  have sameSide : (addr &&& ~~~3).toNat < 2 ^ 32 ↔ addr.toNat < 2 ^ 32 := by omega
  rw [tlpReqSetAddr, tlpFmt_setAddress _ _ (by rw [length_setExtent]; exact long),
    get_setExtent _ _ _ _ (by decide) (by decide) (by decide) (by decide) (by decide)]
  simp only [sameSide]

theorem tlpType_tlpReqSetAddr (pkt : Bytes) (addr : BitVec 64) (length : Int)
    (long : 16 ≤ pkt.length) :
    PcieTlp.tlpType.get (tlpReqSetAddr pkt addr length) = PcieTlp.tlpType.get pkt := by
  rw [tlpReqSetAddr, tlpType_setAddress _ _ (by rw [length_setExtent]; exact long),
    get_setExtent _ _ _ _ (by decide) (by decide) (by decide) (by decide) (by decide)]

theorem getByte_tlpReqSetAddr_header (pkt : Bytes) (addr : BitVec 64) (length : Int)
    (long : 16 ≤ pkt.length) (index : Nat) (inside : 0 < index) (bound : index < 8) :
    getByte (tlpReqSetAddr pkt addr length) index =
      getByte (setExtent pkt (addr.toNat % 4) length) index := by
  rw [tlpReqSetAddr, getByte_setAddress_low _ _ (by rw [length_setExtent]; exact long) index inside
    bound, toNat_and_three]

/-- The length field wraps: a request for more than 1024 double words asks for the remainder. -/
theorem tlpDataLength_tlpReqSetAddr (pkt : Bytes) (addr : BitVec 64) (length : Nat)
    (long : 16 ≤ pkt.length) :
    tlpDataLength (tlpReqSetAddr pkt addr length) =
      ((addr.toNat % 4 + length + 3) / 4 + 1023) % 1024 + 1 := by
  obtain ⟨lengthHi, lengthLo⟩ := tlpLength_setExtent pkt (addr.toNat % 4) length long
  have header := getByte_tlpReqSetAddr_header pkt addr length long
  rw [← Field.get_congr (header 2 (by decide) (by decide))] at lengthHi
  rw [← Field.get_congr (header 3 (by decide) (by decide))] at lengthLo
  rw [tlpDataLength_eq, lengthHi, lengthLo]
  omega

/-- Everything a request header says after `tlp_req_set_addr`, for an access that fits into one
TLP. -/
structure RequestHeader (before after : Bytes) (addr : BitVec 64) (length : Nat) : Prop where
  address : tlpReqGetAddr after = addr &&& ~~~3
  dwords : tlpDataLength after = (addr.toNat % 4 + length + 3) / 4
  bytes : tlpDataLengthBytes after = length
  offset : firstByteOffset after = addr.toNat % 4
  fmt : PcieTlp.tlpFmt.get after =
    if addr.toNat < 2 ^ 32 then PcieTlp.tlpFmt.get before &&& 6 else PcieTlp.tlpFmt.get before ||| 1
  type : PcieTlp.tlpType.get after = PcieTlp.tlpType.get before
  ids : ∀ index, 4 ≤ index → index < 7 → getByte after index = getByte before index
  payload : ∀ index, 16 ≤ index ∨ (12 ≤ index ∧ addr.toNat < 2 ^ 32) →
    getByte after index = getByte before index

theorem requestHeader_tlpReqSetAddr (pkt : Bytes) (addr : BitVec 64) (length : Nat)
    (long : 16 ≤ pkt.length) (positive : 1 ≤ length) (fits : addr.toNat % 4 + length ≤ 4096) :
    RequestHeader pkt (tlpReqSetAddr pkt addr length) addr length := by
  have rounded : (addr &&& ~~~3).toNat = addr.toNat / 4 * 4 := toNat_and_not_three addr
  have extentLong : 16 ≤ (setExtent pkt (addr &&& 3).toNat length).length := by
    rw [length_setExtent]
    exact long
  have header := getByte_tlpReqSetAddr_header pkt addr length long
  obtain ⟨offset, bytes, firstSmall, lastSmall⟩ :=
    byteEnables_decode (addr.toNat % 4) length (Nat.mod_lt _ (by decide)) positive
  have firstBe : PcieTlp.rFirstBe.get (tlpReqSetAddr pkt addr length) =
      (byteEnables (addr.toNat % 4) length).1 := by
    rw [Field.get_congr (header 7 (by decide) (by decide)), rFirstBe_setExtent _ _ _ long,
      Nat.mod_eq_of_lt firstSmall]
  have lastBe : PcieTlp.rLastBe.get (tlpReqSetAddr pkt addr length) =
      (byteEnables (addr.toNat % 4) length).2 := by
    rw [Field.get_congr (header 7 (by decide) (by decide)), rLastBe_setExtent _ _ _ long,
      Nat.mod_eq_of_lt lastSmall]
  have dwords : tlpDataLength (tlpReqSetAddr pkt addr length) =
      (addr.toNat % 4 + length + 3) / 4 := by
    rw [tlpDataLength_tlpReqSetAddr pkt addr length long]
    omega
  constructor
  · rw [tlpReqSetAddr, tlpReqGetAddr_setAddress _ _ extentLong]
  · exact dwords
  · rw [tlpDataLengthBytes, dwords, firstBe, lastBe, bytes]
  · rw [firstByteOffset, firstBe, offset]
  · exact tlpFmt_tlpReqSetAddr pkt addr length long
  · exact tlpType_tlpReqSetAddr pkt addr length long
  · intro index lower upper
    rw [header index (by omega) (by omega),
      getByte_setExtent _ _ _ _ (by omega) (by omega) (by omega)]
  · intro index past
    rw [tlpReqSetAddr, getByte_setAddress_payload _ _ extentLong index (by omega),
      getByte_setExtent _ _ _ _ (by omega) (by omega) (by omega)]

end WarpPipe
