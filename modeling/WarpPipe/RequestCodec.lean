import WarpPipe.ProtoCodec

/-!
Encoding and decoding a request header are inverse to each other: on every access that fits into
one TLP, and on every header whose byte enables select a contiguous run of bytes.
-/

namespace WarpPipe

open ByteLayout

def enableRun (low high : Nat) : Nat := 2 ^ high - 2 ^ low

def ContiguousEnables (dwords firstBe lastBe : Nat) : Prop :=
  if dwords = 1 then
    (∃ low high, low < high ∧ high ≤ 4 ∧ firstBe = enableRun low high) ∧ lastBe = 0
  else
    (∃ low, low < 4 ∧ firstBe = enableRun low 4) ∧
      ∃ high, 0 < high ∧ high ≤ 4 ∧ lastBe = enableRun 0 high

def startAddress (pkt : Bytes) : BitVec 64 :=
  tlpReqGetAddr pkt + BitVec.ofNat 64 (firstByteOffset pkt)

structure Encodes (before after : Bytes) (addr : BitVec 64) (length : Nat) : Prop where
  address : (tlpReqGetAddr after).toNat = addr.toNat - addr.toNat % 4
  dwords : tlpDataLength after = (addr.toNat % 4 + length + 3) / 4
  bytes : tlpDataLengthBytes after = length
  lowest : (PcieTlp.rFirstBe.get after).testBit (addr.toNat % 4) = true ∧
    ∀ bit < addr.toNat % 4, (PcieTlp.rFirstBe.get after).testBit bit = false
  wide : (PcieTlp.tlpFmt.get after).testBit 0 = true ↔ 2 ^ 32 ≤ addr.toNat
  data : PcieTlp.tlpFmt.get after >>> 1 = PcieTlp.tlpFmt.get before >>> 1
  type : PcieTlp.tlpType.get after = PcieTlp.tlpType.get before
  tag : PcieTlp.rTag.get after = PcieTlp.rTag.get before
  requester : ∀ index, 4 ≤ index → index < 6 → getByte after index = getByte before index

structure LegalRequest (pkt : Bytes) : Prop where
  long : 16 ≤ pkt.length
  aligned : (tlpReqGetAddr pkt).toNat % 4 = 0
  wide : (PcieTlp.tlpFmt.get pkt).testBit 0 = true ↔ 2 ^ 32 ≤ (tlpReqGetAddr pkt).toNat
  enables : ContiguousEnables (tlpDataLength pkt) (PcieTlp.rFirstBe.get pkt)
    (PcieTlp.rLastBe.get pkt)

structure SameRequest (left right : Bytes) : Prop where
  lengthHi : PcieTlp.tlpLengthHi.get left = PcieTlp.tlpLengthHi.get right
  lengthLo : PcieTlp.tlpLengthLo.get left = PcieTlp.tlpLengthLo.get right
  firstBe : PcieTlp.rFirstBe.get left = PcieTlp.rFirstBe.get right
  lastBe : PcieTlp.rLastBe.get left = PcieTlp.rLastBe.get right
  fmt : PcieTlp.tlpFmt.get left = PcieTlp.tlpFmt.get right
  address : ∀ index < if PcieTlp.tlpFmt.get right &&& pcieTlpFmt4dw ≠ 0 then 8 else 4,
    getByte left (PcieTlp.rAddress + index) = getByte right (PcieTlp.rAddress + index)

theorem firstEnabled_lowest {firstBe : Nat} (bound : firstBe < 16) (some : firstBe ≠ 0) :
    firstBe.testBit (firstEnabled firstBe) = true ∧
      ∀ bit < firstEnabled firstBe, firstBe.testBit bit = false := by
  revert some
  interval_cases firstBe <;> decide

theorem enabledBytes_none (dwords lastBe : Nat) : enabledBytes dwords 0 lastBe ≤ 0 := by
  simp only [enabledBytes, Nat.zero_and, ne_eq, not_true, if_false]
  split <;> decide

theorem fmt_encoded (fmt : Nat) (bound : fmt < 8) (wide : Prop) [Decidable wide] :
    ((if wide then fmt ||| 1 else fmt &&& 6).testBit 0 = true ↔ wide) ∧
      (if wide then fmt ||| 1 else fmt &&& 6) >>> 1 = fmt >>> 1 := by
  by_cases high : wide
  · simp only [high, if_true, iff_true]
    interval_cases fmt <;> decide
  · simp only [high, if_false, iff_false]
    interval_cases fmt <;> decide

theorem encodes_tlpReqSetAddr (pkt : Bytes) (addr : BitVec 64) (length : Nat)
    (long : 16 ≤ pkt.length) (positive : 1 ≤ length) (fits : addr.toNat % 4 + length ≤ 4096) :
    Encodes pkt (tlpReqSetAddr pkt addr length) addr length := by
  have header := requestHeader_tlpReqSetAddr pkt addr length long positive fits
  have fmt := header.fmt
  rw [← ite_not] at fmt
  have encoded := fmt_encoded (PcieTlp.tlpFmt.get pkt) (PcieTlp.tlpFmt.get_lt pkt)
    (¬addr.toNat < 2 ^ 32)
  rw [← fmt, Nat.not_lt] at encoded
  have some : PcieTlp.rFirstBe.get (tlpReqSetAddr pkt addr length) ≠ 0 := by
    intro none
    have bytes := header.bytes
    have atMost := enabledBytes_none (tlpDataLength (tlpReqSetAddr pkt addr length))
      (PcieTlp.rLastBe.get (tlpReqSetAddr pkt addr length))
    rw [tlpDataLengthBytes, none] at bytes
    omega
  refine ⟨?_, header.dwords, header.bytes, ?_, encoded.1, encoded.2, header.type, ?_, ?_⟩
  · rw [header.address, toNat_and_not_three]
    omega
  · have lowest := firstEnabled_lowest (PcieTlp.rFirstBe.get_lt _) some
    have offset : firstEnabled (PcieTlp.rFirstBe.get _) = addr.toNat % 4 := header.offset
    rwa [offset] at lowest
  · exact Field.get_congr (header.ids 6 (by decide) (by decide))
  · intro index lower upper
    exact header.ids index lower (by omega)

theorem single_enables {low high : Nat} (nonempty : low < high) (inside : high ≤ 4) :
    firstEnabled (enableRun low high) = low ∧
      enabledBytes 1 (enableRun low high) 0 = (high - low : Nat) ∧
      byteEnables low (high - low : Nat) = (enableRun low high, 0) := by
  have lowBound : low ≤ 3 := by omega
  interval_cases high <;> interval_cases low <;> first | omega | decide

theorem first_enables {low : Nat} (bound : low < 4) : enableRun low 4 = 0xf <<< low % 16 := by
  interval_cases low <;> decide

theorem last_enables {high : Nat} (nonempty : 0 < high) (inside : high ≤ 4) :
    enableRun 0 high = 0xf >>> (4 - high) := by
  interval_cases high <;> decide

theorem contiguous_decode {dwords firstBe lastBe : Nat} (positive : 1 ≤ dwords)
    (enables : ContiguousEnables dwords firstBe lastBe) :
    ∃ length : Nat, enabledBytes dwords firstBe lastBe = length ∧ 1 ≤ length ∧
      firstEnabled firstBe < 4 ∧ (firstEnabled firstBe + length + 3) / 4 = dwords ∧
      byteEnables (firstEnabled firstBe) length = (firstBe, lastBe) := by
  by_cases one : dwords = 1
  · rw [ContiguousEnables, if_pos one] at enables
    obtain ⟨⟨low, high, nonempty, inside, rfl⟩, rfl⟩ := enables
    obtain ⟨offset, bytes, encoded⟩ := single_enables nonempty inside
    subst one
    rw [offset]
    exact ⟨high - low, bytes, by omega, by omega, by omega, encoded⟩
  · rw [ContiguousEnables, if_neg one] at enables
    obtain ⟨⟨low, bound, rfl⟩, high, nonempty, inside, rfl⟩ := enables
    obtain ⟨offset, bytes⟩ := firstBe_multiple low dwords (enableRun 0 high) bound one
    rw [← first_enables bound] at offset bytes
    rw [last_enables nonempty inside, trimLast_shift _ (by omega)] at bytes
    refine ⟨4 * dwords - low - (4 - high), ?_, by omega, by omega, by omega, ?_⟩
    · rw [last_enables nonempty inside, bytes]
      omega
    · have notShort : ¬(((4 * dwords - low - (4 - high) : Nat) : Int) + low ≤ 4) := by omega
      have notZero : ¬(((4 * dwords - low - (4 - high) : Nat) : Int) = 0) := by omega
      have shift : ((-(((4 * dwords - low - (4 - high) : Nat) : Int) + low)) % 4).toNat =
          4 - high := by
        omega
      rw [offset]
      simp only [byteEnables, notShort, notZero, if_false, shift, first_enables bound,
        last_enables nonempty inside]

theorem startAddress_toNat {pkt : Bytes} (legal : LegalRequest pkt)
    (offset : firstByteOffset pkt < 4) :
    (startAddress pkt).toNat = (tlpReqGetAddr pkt).toNat + firstByteOffset pkt := by
  have bound := (tlpReqGetAddr pkt).isLt
  have aligned := legal.aligned
  rw [startAddress, BitVec.toNat_add, BitVec.toNat_ofNat]
  omega

theorem startAddress_aligned {pkt : Bytes} (legal : LegalRequest pkt)
    (offset : firstByteOffset pkt < 4) :
    startAddress pkt &&& ~~~3 = tlpReqGetAddr pkt := by
  have start := startAddress_toNat legal offset
  have aligned := legal.aligned
  apply BitVec.eq_of_toNat_eq
  rw [toNat_and_not_three]
  omega

theorem fmt_restored {fmt old : Nat} (bound : fmt < 8) (oldBound : old < 8)
    (data : old >>> 1 = fmt >>> 1) {narrow : Prop} [Decidable narrow]
    (wide : fmt.testBit 0 = true ↔ ¬narrow) :
    (if narrow then old &&& 6 else old ||| 1) = fmt := by
  by_cases low : narrow
  · simp only [low, not_true, iff_false] at wide
    rw [if_pos low]
    interval_cases fmt <;> interval_cases old <;> first | rfl | (exfalso; revert data wide; decide)
  · simp only [low, not_false_iff, iff_true] at wide
    rw [if_neg low]
    interval_cases fmt <;> interval_cases old <;> first | rfl | (exfalso; revert data wide; decide)

theorem fmt4dw_iff_testBit (fmt : Nat) : fmt &&& pcieTlpFmt4dw ≠ 0 ↔ fmt.testBit 0 = true := by
  simp [pcieTlpFmt4dw, Nat.testBit_zero]

theorem getByte_setAddress_restored {prior pkt : Bytes} (long : 16 ≤ prior.length)
    (fmt : PcieTlp.tlpFmt.get pkt &&& pcieTlpFmt4dw ≠ 0 ↔ 2 ^ 32 ≤ (tlpReqGetAddr pkt).toNat)
    (index : Nat) (inside : index < if PcieTlp.tlpFmt.get pkt &&& pcieTlpFmt4dw ≠ 0 then 8 else 4) :
    getByte (setAddress prior (tlpReqGetAddr pkt)) (PcieTlp.rAddress + index) =
      getByte pkt (PcieTlp.rAddress + index) := by
  have restored (count : Nat) (short : count ≤ 8) (bound : index < count) (value : Nat)
      (read : tlpReqGetAddr pkt = ofBigEndian 64 count (pkt.drop PcieTlp.rAddress)) :
      getByte (overwrite (PcieTlp.tlpFmt.set value prior) 8 (bigEndian count (tlpReqGetAddr pkt)))
        (8 + index) = getByte pkt (8 + index) := by
    rw [getByte_overwrite_inside (by simp; omega) (by simpa using bound), read,
      getByte_bigEndian_ofBigEndian _ bound (by omega), getByte_drop]
    rfl
  rw [show PcieTlp.rAddress = 8 from rfl]
  rcases setAddress_cases prior (tlpReqGetAddr pkt) with ⟨low, eq⟩ | ⟨high, eq⟩
  · have narrow : ¬(PcieTlp.tlpFmt.get pkt &&& pcieTlpFmt4dw ≠ 0) := fun wide => by
      have := fmt.mp wide
      omega
    rw [if_neg narrow] at inside
    rw [eq]
    exact restored 4 (by decide) inside _ (by rw [tlpReqGetAddr, if_neg narrow])
  · have wide := fmt.mpr high
    rw [if_pos wide] at inside
    rw [eq]
    exact restored 8 (by decide) inside _ (by rw [tlpReqGetAddr, if_pos wide])

theorem tlpLength_restored {prior pkt : Bytes} (long : 16 ≤ prior.length) {align length : Nat}
    (dwords : (align + length + 3) / 4 = tlpDataLength pkt) :
    PcieTlp.tlpLengthHi.get (setExtent prior align length) = PcieTlp.tlpLengthHi.get pkt ∧
      PcieTlp.tlpLengthLo.get (setExtent prior align length) = PcieTlp.tlpLengthLo.get pkt := by
  obtain ⟨lengthHi, lengthLo⟩ := tlpLength_setExtent prior align length long
  have hiBound : PcieTlp.tlpLengthHi.get pkt < 4 := PcieTlp.tlpLengthHi.get_lt pkt
  have loBound : PcieTlp.tlpLengthLo.get pkt < 256 := PcieTlp.tlpLengthLo.get_lt pkt
  have held := tlpDataLength_eq pkt
  rw [dwords, held] at lengthHi lengthLo
  omega

/-- Encoding what a legal header says restores it, in any header with its data bit. -/
theorem sameRequest_tlpReqSetAddr {pkt prior : Bytes} (legal : LegalRequest pkt)
    (long : 16 ≤ prior.length)
    (data : PcieTlp.tlpFmt.get prior >>> 1 = PcieTlp.tlpFmt.get pkt >>> 1) :
    SameRequest (tlpReqSetAddr prior (startAddress pkt) (tlpDataLengthBytes pkt)) pkt := by
  have positive : 1 ≤ tlpDataLength pkt := by
    rw [tlpDataLength_eq]
    omega
  obtain ⟨length, bytes, -, offset, dwords, encoded⟩ := contiguous_decode positive legal.enables
  change firstByteOffset pkt < 4 at offset
  change (firstByteOffset pkt + length + 3) / 4 = _ at dwords
  change byteEnables (firstByteOffset pkt) length = _ at encoded
  have start := startAddress_toNat legal offset
  have align : (startAddress pkt).toNat % 4 = firstByteOffset pkt := by
    have aligned := legal.aligned
    omega
  have header := getByte_tlpReqSetAddr_header prior (startAddress pkt) length long
  rw [align] at header
  obtain ⟨lengthHi, lengthLo⟩ := tlpLength_restored long dwords
  have wide : PcieTlp.tlpFmt.get pkt &&& pcieTlpFmt4dw ≠ 0 ↔ 2 ^ 32 ≤ (tlpReqGetAddr pkt).toNat :=
    (fmt4dw_iff_testBit _).trans legal.wide
  rw [show tlpDataLengthBytes pkt = length from bytes]
  constructor
  · rw [Field.get_congr (header 2 (by decide) (by decide)), lengthHi]
  · rw [Field.get_congr (header 3 (by decide) (by decide)), lengthLo]
  · rw [Field.get_congr (header 7 (by decide) (by decide)), rFirstBe_setExtent _ _ _ long, encoded]
    exact Nat.mod_eq_of_lt (PcieTlp.rFirstBe.get_lt pkt)
  · rw [Field.get_congr (header 7 (by decide) (by decide)), rLastBe_setExtent _ _ _ long, encoded]
    exact Nat.mod_eq_of_lt (PcieTlp.rLastBe.get_lt pkt)
  · rw [tlpFmt_tlpReqSetAddr _ _ _ long]
    apply fmt_restored (PcieTlp.tlpFmt.get_lt pkt) (PcieTlp.tlpFmt.get_lt prior) data
    rw [legal.wide]
    have aligned := legal.aligned
    omega
  · intro index inside
    rw [tlpReqSetAddr, startAddress_aligned legal offset]
    exact getByte_setAddress_restored (by rw [length_setExtent]; exact long) wide index inside

/-- Encoding an access and reading the header gives the access back, and encoding what a legal
header says gives the header back. -/
theorem request_codec_bijective :
    (∀ (pkt : Bytes) (addr : BitVec 64) (length : Nat), 16 ≤ pkt.length → 1 ≤ length →
      addr.toNat % 4 + length ≤ 4096 → Encodes pkt (tlpReqSetAddr pkt addr length) addr length) ∧
    ∀ pkt prior : Bytes, LegalRequest pkt → 16 ≤ prior.length →
      PcieTlp.tlpFmt.get prior >>> 1 = PcieTlp.tlpFmt.get pkt >>> 1 →
      SameRequest (tlpReqSetAddr prior (startAddress pkt) (tlpDataLengthBytes pkt)) pkt :=
  ⟨encodes_tlpReqSetAddr, fun _ _ legal long data => sameRequest_tlpReqSetAddr legal long data⟩

def unalignedHeader : Bytes := tlpReqSetAddr (List.replicate 16 0) 6 5

theorem legal_unalignedHeader : LegalRequest unalignedHeader where
  long := by decide
  aligned := by decide
  wide := by decide
  enables := ⟨⟨2, by decide, by decide⟩, 3, by decide, by decide, by decide⟩

theorem unaligned_request_restored :
    Encodes (List.replicate 16 0xff)
        (tlpReqSetAddr (List.replicate 16 0xff) 0xfffffffffffffffd (4095 : Nat))
          0xfffffffffffffffd 4095 ∧
      startAddress unalignedHeader = 6 ∧ tlpDataLengthBytes unalignedHeader = 5 ∧
      SameRequest (tlpReqSetAddr (List.replicate 16 0) (startAddress unalignedHeader)
        (tlpDataLengthBytes unalignedHeader)) unalignedHeader := by
  obtain ⟨encodes, restores⟩ := request_codec_bijective
  refine ⟨encodes _ 0xfffffffffffffffd 4095 (by decide) (by decide) (by decide), by decide,
    by decide, ?_⟩
  exact restores _ (List.replicate 16 0) legal_unalignedHeader (by decide) (by decide)

end WarpPipe
