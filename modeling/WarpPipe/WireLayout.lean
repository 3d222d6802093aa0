import WarpPipe.Library.BitLayout
import WarpPipe.ProtoCodec

/-!
The two branches of the structures in `inc/warppipe/proto.h`: the little-endian one, whose
bit-fields are allocated from the least significant bit of a byte, and the big-endian one, from the
most significant bit. They agree on every byte but the third of a TLP, which declares seven of its
eight bits.
-/

namespace WarpPipe

open ByteLayout

inductive ByteOrder where
  | little
  | big
  deriving DecidableEq, Repr

def ByteOrder.bits : ByteOrder → BitOrder
  | .little => .leastFirst
  | .big => .mostFirst

inductive PcieIdMember where
  | bus
  | func
  | dev
  deriving DecidableEq, Repr

inductive PcieTlpMember where
  | tlpType | tlpFmt
  | tlpTh | tlpLn | tlpAttrHi | tlpT8 | tlpTc | tlpT9
  | tlpLengthHi | tlpAt | tlpAttrLo | tlpEp | tlpTd
  | tlpLengthLo
  | rRequester (member : PcieIdMember)
  | rTag
  | rFirstBe | rLastBe
  | rAddress (index : Fin 8)
  | cCompleter (member : PcieIdMember)
  | cByteCountHi | cBcm | cStatus
  | cByteCountLo
  | cRequester (member : PcieIdMember)
  | cTag
  | cLowerAddress | cRsvd1
  deriving DecidableEq, Repr

inductive PcieDllpMember where
  | dlNak
  | dlRsvd1Hi
  | dlSeqnoHi | dlRsvd1Lo
  | dlSeqnoLo
  | fcVcid | fcRsvd1 | fcKind | fcType
  | fcHdrfcHi | fcHdrScale
  | fcDatafcHi | fcDataScale | fcHdrfcLo
  | fcDatafcLo
  | dlCrc16 (index : Fin 2)
  deriving DecidableEq, Repr

inductive PcieDltlpMember where
  | dlSeqnoHi | rsvd1
  | dlSeqnoLo
  | dlTlp (member : PcieTlpMember)
  | padForCrc32 (index : Fin 20)
  deriving DecidableEq, Repr

def pcieId : ByteOrder → List (PcieIdMember × Nat)
  | .little => [(.bus, 8), (.func, 1), (.dev, 7)]
  | .big => [(.bus, 8), (.dev, 7), (.func, 1)]

def idMembers (order : ByteOrder) (field : PcieIdMember → PcieTlpMember) :
    List (PcieTlpMember × Nat) :=
  (pcieId order).map fun entry => (field entry.1, entry.2)

open PcieTlpMember in
def tlpHead : ByteOrder → List (PcieTlpMember × Nat)
  | .little =>
    [(tlpType, 5), (tlpFmt, 3),
      (tlpTh, 1), (tlpLn, 1), (tlpAttrHi, 1), (tlpT8, 1), (tlpTc, 3), (tlpT9, 1),
      (tlpLengthHi, 2), (tlpAt, 1), (tlpAttrLo, 2), (tlpEp, 1), (tlpTd, 1),
      (tlpLengthLo, 8)]
  | .big =>
    [(tlpFmt, 3), (tlpType, 5),
      (tlpT9, 1), (tlpTc, 3), (tlpT8, 1), (tlpAttrHi, 1), (tlpLn, 1), (tlpTh, 1),
      (tlpTd, 1), (tlpEp, 1), (tlpAttrLo, 2), (tlpAt, 1), (tlpLengthHi, 2),
      (tlpLengthLo, 8)]

inductive TlpForm where
  | request
  | completion
  deriving DecidableEq, Repr

open PcieTlpMember in
def tlpReq (order : ByteOrder) : List (PcieTlpMember × Nat) :=
  idMembers order rRequester ++ [(rTag, 8)] ++
    (match order with
      | .little => [(rFirstBe, 4), (rLastBe, 4)]
      | .big => [(rLastBe, 4), (rFirstBe, 4)]) ++
    (List.finRange 8).map fun index => (rAddress index, 8)

open PcieTlpMember in
def tlpCpl (order : ByteOrder) : List (PcieTlpMember × Nat) :=
  idMembers order cCompleter ++
    match order with
    | .little =>
      [(cByteCountHi, 4), (cBcm, 1), (cStatus, 3), (cByteCountLo, 8)] ++
        idMembers order cRequester ++ [(cTag, 8), (cLowerAddress, 7), (cRsvd1, 1)]
    | .big =>
      [(cStatus, 3), (cBcm, 1), (cByteCountHi, 4), (cByteCountLo, 8)] ++
        idMembers order cRequester ++ [(cTag, 8), (cRsvd1, 1), (cLowerAddress, 7)]

def pcieTlp (form : TlpForm) (order : ByteOrder) : List (PcieTlpMember × Nat) :=
  tlpHead order ++
    match form with
    | .request => tlpReq order
    | .completion => tlpCpl order

inductive DllpForm where
  | acknak
  | fc
  deriving DecidableEq, Repr

open PcieDllpMember in
def pcieDllp (form : DllpForm) (order : ByteOrder) : List (PcieDllpMember × Nat) :=
  (match form, order with
    | .acknak, .little =>
      [(dlNak, 8), (dlRsvd1Hi, 8), (dlSeqnoHi, 4), (dlRsvd1Lo, 4), (dlSeqnoLo, 8)]
    | .acknak, .big =>
      [(dlNak, 8), (dlRsvd1Hi, 8), (dlRsvd1Lo, 4), (dlSeqnoHi, 4), (dlSeqnoLo, 8)]
    | .fc, .little =>
      [(fcVcid, 3), (fcRsvd1, 1), (fcKind, 2), (fcType, 2),
        (fcHdrfcHi, 6), (fcHdrScale, 2),
        (fcDatafcHi, 4), (fcDataScale, 2), (fcHdrfcLo, 2), (fcDatafcLo, 8)]
    | .fc, .big =>
      [(fcType, 2), (fcKind, 2), (fcRsvd1, 1), (fcVcid, 3),
        (fcHdrScale, 2), (fcHdrfcHi, 6),
        (fcHdrfcLo, 2), (fcDataScale, 2), (fcDatafcHi, 4), (fcDatafcLo, 8)]) ++
    (List.finRange 2).map fun index => (dlCrc16 index, 8)

open PcieDltlpMember in
def pcieDltlp (form : Option TlpForm) (order : ByteOrder) : List (PcieDltlpMember × Nat) :=
  (match order with
    | .little => [(dlSeqnoHi, 4), (rsvd1, 4), (dlSeqnoLo, 8)]
    | .big => [(rsvd1, 4), (dlSeqnoHi, 4), (dlSeqnoLo, 8)]) ++
    match form with
    | some form => (pcieTlp form order).map fun entry => (dlTlp entry.1, entry.2)
    | none => (List.finRange 20).map fun index => (padForCrc32 index, 8)

def tlpLayout (form : TlpForm) (order : ByteOrder) : Layout PcieTlpMember :=
  allocate order.bits (pcieTlp form order)

def dllpLayout (form : DllpForm) (order : ByteOrder) : Layout PcieDllpMember :=
  allocate order.bits (pcieDllp form order)

def dltlpLayout (form : Option TlpForm) (order : ByteOrder) : Layout PcieDltlpMember :=
  allocate order.bits (pcieDltlp form order)

def laidOut {Member : Type} (layout : Layout Member) (size : Nat) (values : Member → Nat) : Bytes :=
  layout.store values (List.replicate size 0)

/-- The little-endian branch lays the members out where the functions of `src/proto.c`,
`src/crc.c` and `src/client.c` are modelled to find them. -/
theorem tlpLayout_little :
    (tlpLayout .request .little).field .tlpType = PcieTlp.tlpType ∧
      (tlpLayout .request .little).field .tlpFmt = PcieTlp.tlpFmt ∧
      (tlpLayout .request .little).field .tlpLengthHi = PcieTlp.tlpLengthHi ∧
      (tlpLayout .request .little).field .tlpLengthLo = PcieTlp.tlpLengthLo ∧
      (tlpLayout .request .little).field .rTag = PcieTlp.rTag ∧
      (tlpLayout .request .little).field .rFirstBe = PcieTlp.rFirstBe ∧
      (tlpLayout .request .little).field .rLastBe = PcieTlp.rLastBe ∧
      ((tlpLayout .request .little).field (.rAddress 0)).byte = PcieTlp.rAddress ∧
      (tlpLayout .completion .little).field .cByteCountHi = PcieTlp.cByteCountHi ∧
      (tlpLayout .completion .little).field .cByteCountLo = PcieTlp.cByteCountLo ∧
      (tlpLayout .completion .little).field .cTag = PcieTlp.cTag := by
  decide

theorem dllpLayout_little :
    (dllpLayout .acknak .little).field .dlNak = PcieDllp.dlNak ∧
      (dllpLayout .acknak .little).field .dlSeqnoHi = PcieDllp.dlSeqnoHi ∧
      (dllpLayout .acknak .little).field .dlSeqnoLo = PcieDllp.dlSeqnoLo ∧
      (dllpLayout .fc .little).field .fcRsvd1 = PcieDllp.fcRsvd1 ∧
      (dllpLayout .fc .little).field .fcType = PcieDllp.fcType ∧
      ((dllpLayout .fc .little).field (.dlCrc16 0)).byte = PcieDllp.dlCrc16 ∧
      (dltlpLayout none .little).field .dlSeqnoHi = PcieDltlp.dlSeqnoHi ∧
      (dltlpLayout none .little).field .dlSeqnoLo = PcieDltlp.dlSeqnoLo := by
  decide

theorem dllp_laidOut (form : DllpForm) (values : PcieDllpMember → Nat) :
    laidOut (dllpLayout form .little) PcieDllp.size values =
      laidOut (dllpLayout form .big) PcieDllp.size values := by
  apply Layout.store_perm
  · cases form <;> decide
  · cases form <;> decide

theorem dltlpPad_laidOut (values : PcieDltlpMember → Nat) :
    laidOut (dltlpLayout none .little) 22 values = laidOut (dltlpLayout none .big) 22 values := by
  apply Layout.store_perm <;> decide

def thirdByte : List (PcieTlpMember × Nat) :=
  [(.tlpLengthHi, 2), (.tlpAt, 1), (.tlpAttrLo, 2), (.tlpEp, 1), (.tlpTd, 1)]

def ThirdByteClear (values : PcieTlpMember → Nat) : Prop :=
  ∀ entry ∈ thirdByte, values entry.1 % 2 ^ entry.2 = 0

/-- Seven bits from the bottom of a byte and the same seven from its top agree only if all are 0. -/
theorem thirdByte_pack (lengthHi : Fin 4) (addressType : Fin 2) (attrLo : Fin 4) (ep td : Fin 2) :
    insertBits
        (insertBits (insertBits (insertBits (insertBits 0 0 2 lengthHi) 2 1 addressType) 3 2 attrLo)
        5 1 ep) 6 1 td =
      insertBits (insertBits (insertBits (insertBits (insertBits 0 7 1 td) 6 1 ep) 4 2 attrLo) 3 1
        addressType) 1 2 lengthHi ↔
      lengthHi = 0 ∧ addressType = 0 ∧ attrLo = 0 ∧ ep = 0 ∧ td = 0 := by
  revert lengthHi addressType attrLo ep td
  decide +kernel

theorem thirdByte_agrees (values : PcieTlpMember → Nat) (form : TlpForm) :
    ((tlpLayout form .little).within 2).pack values 0 =
      ((tlpLayout form .big).within 2).pack values 0 ↔ ThirdByteClear values := by
  have little : (tlpLayout form .little).within 2 =
      [(.tlpLengthHi, ⟨2, 0, 2⟩), (.tlpAt, ⟨2, 2, 1⟩), (.tlpAttrLo, ⟨2, 3, 2⟩), (.tlpEp, ⟨2, 5, 1⟩),
        (.tlpTd, ⟨2, 6, 1⟩)] := by
    cases form <;> decide
  have big : (tlpLayout form .big).within 2 =
      [(.tlpTd, ⟨2, 7, 1⟩), (.tlpEp, ⟨2, 6, 1⟩), (.tlpAttrLo, ⟨2, 4, 2⟩), (.tlpAt, ⟨2, 3, 1⟩),
        (.tlpLengthHi, ⟨2, 1, 2⟩)] := by
    cases form <;> decide
  have packed := thirdByte_pack ⟨values .tlpLengthHi % 2 ^ 2, Nat.mod_lt _ (by decide)⟩
    ⟨values .tlpAt % 2 ^ 1, Nat.mod_lt _ (by decide)⟩
    ⟨values .tlpAttrLo % 2 ^ 2, Nat.mod_lt _ (by decide)⟩
    ⟨values .tlpEp % 2 ^ 1, Nat.mod_lt _ (by decide)⟩
      ⟨values .tlpTd % 2 ^ 1, Nat.mod_lt _ (by decide)⟩
  simp only [insertBits_mod, Fin.ext_iff] at packed
  rw [little, big]
  refine packed.trans ?_
  simp only [ThirdByteClear, thirdByte, List.forall_mem_cons]
  exact ⟨fun ⟨hi, at', attr, ep, td⟩ => ⟨hi, at', attr, ep, td, List.forall_mem_nil _⟩,
    fun ⟨hi, at', attr, ep, td, _⟩ => ⟨hi, at', attr, ep, td⟩⟩

theorem tlp_laidOut_iff (form : TlpForm) (values : PcieTlpMember → Nat) :
    laidOut (tlpLayout form .little) 16 values = laidOut (tlpLayout form .big) 16 values ↔
      ThirdByteClear values := by
  have perms : ∀ byte < 16, byte ≠ 2 →
      ((tlpLayout form .little).within byte).Perm ((tlpLayout form .big).within byte) := by
    cases form <;> decide
  refine (Layout.store_eq_iff ?_ (by decide) perms values List.length_replicate).trans
    (thirdByte_agrees values form)
  cases form <;> decide

theorem dltlp_laidOut_iff (form : TlpForm) (values : PcieDltlpMember → Nat) :
    laidOut (dltlpLayout (some form) .little) 22 values =
      laidOut (dltlpLayout (some form) .big) 22 values ↔
      ThirdByteClear fun member => values (.dlTlp member) := by
  have perms : ∀ byte < 22, byte ≠ 4 →
      ((dltlpLayout (some form) .little).within byte).Perm
        ((dltlpLayout (some form) .big).within byte) := by
    cases form <;> decide
  have inner (order : ByteOrder) : (dltlpLayout (some form) order).within 4 =
      ((tlpLayout form order).within 2).map fun entry =>
        (.dlTlp entry.1, { entry.2 with byte := 4 }) := by
    cases form <;> cases order <;> decide
  refine (Layout.store_eq_iff ?_ (by decide) perms values List.length_replicate).trans ?_
  · cases form <;> decide
  · rw [inner, inner, ← thirdByte_agrees _ form, Layout.pack, Layout.pack, List.foldl_map,
      List.foldl_map]
    rfl

/-! Requests built on a big-endian host. -/

def requestField (order : ByteOrder) (member : PcieTlpMember) : Field :=
  (tlpLayout .request order).field member

def setExtentOn (order : ByteOrder) (pkt : Bytes) (align : Nat) (length : Int) : Bytes :=
  let pkt := (requestField order .rFirstBe).set (byteEnables align length).1 pkt
  let pkt := (requestField order .rLastBe).set (byteEnables align length).2 pkt
  let dwords := (length + align + 4 - 1).tdiv 4
  let pkt := (requestField order .tlpLengthHi).set ((dwords >>> (8 : Nat)) % 4).toNat pkt
  (requestField order .tlpLengthLo).set (dwords % 256).toNat pkt

def setAddressOn (order : ByteOrder) (pkt : Bytes) (addr : BitVec 64) : Bytes :=
  let fmt := (requestField order .tlpFmt).get pkt
  if addr < 0x100000000 then
    overwrite ((requestField order .tlpFmt).set (fmt &&& (7 ^^^ pcieTlpFmt4dw)) pkt)
      PcieTlp.rAddress (bigEndian 4 addr)
  else
    overwrite ((requestField order .tlpFmt).set (fmt ||| pcieTlpFmt4dw) pkt) PcieTlp.rAddress
      (bigEndian 8 addr)

def tlpReqSetAddrOn (order : ByteOrder) (pkt : Bytes) (addr : BitVec 64) (length : Int) : Bytes :=
  setAddressOn order (setExtentOn order pkt (addr &&& 3).toNat length) (addr &&& ~~~3)

theorem tlpReqSetAddrOn_little (pkt : Bytes) (addr : BitVec 64) (length : Int) :
    tlpReqSetAddrOn .little pkt addr length = tlpReqSetAddr pkt addr length := by
  obtain ⟨-, fmt, lengthHi, lengthLo, -, firstBe, lastBe, -⟩ := tlpLayout_little
  simp only [tlpReqSetAddrOn, setAddressOn, setExtentOn, requestField, fmt, lengthHi,
    lengthLo, firstBe, lastBe, tlpReqSetAddr, setAddress, setExtent]

theorem tlpReqSetAddrOn_big (pkt : Bytes) (addr : BitVec 64) (length : Int) :
    tlpReqSetAddrOn .big pkt addr length =
      setAddress (setExtentOn .big pkt (addr &&& 3).toNat length) (addr &&& ~~~3) := by
  have fmt : requestField .big .tlpFmt = PcieTlp.tlpFmt := by decide
  simp only [tlpReqSetAddrOn, setAddressOn, fmt, setAddress]

theorem setExtentOn_big (pkt : Bytes) (align : Nat) (length : Int) :
    setExtentOn .big pkt align length =
      PcieTlp.tlpLengthLo.set ((length + align + 4 - 1).tdiv 4 % 256).toNat
        (Field.set ⟨2, 1, 2⟩ (((length + align + 4 - 1).tdiv 4 >>> (8 : Nat)) % 4).toNat
          (PcieTlp.rLastBe.set (byteEnables align length).2
            (PcieTlp.rFirstBe.set (byteEnables align length).1 pkt))) := by
  have firstBe : requestField .big .rFirstBe = PcieTlp.rFirstBe := by decide
  have lastBe : requestField .big .rLastBe = PcieTlp.rLastBe := by decide
  have lengthHi : requestField .big .tlpLengthHi = ⟨2, 1, 2⟩ := by decide
  have lengthLo : requestField .big .tlpLengthLo = PcieTlp.tlpLengthLo := by decide
  simp only [setExtentOn, firstBe, lastBe, lengthHi, lengthLo]

theorem length_setExtentOn_big (pkt : Bytes) (align : Nat) (length : Int) :
    (setExtentOn .big pkt align length).length = pkt.length := by
  simp [setExtentOn_big]

theorem getByte_setExtentOn_big (pkt : Bytes) (align : Nat) (length : Int) {index : Nat}
    (elsewhere : index ≠ 2) :
    getByte (setExtentOn .big pkt align length) index =
      getByte (setExtent pkt align length) index := by
  rw [setExtentOn_big, setExtent]
  apply Field.getByte_set_congr (by simp)
  exact (Field.getByte_set_ne elsewhere).trans (Field.getByte_set_ne elsewhere).symm

theorem extractBits_shifted (byte : Byte) (value : Nat) :
    extractBits (insertBits byte 1 2 value) 0 2 = byte.toNat % 2 + 2 * (value % 2) := by
  apply Nat.eq_of_testBit_eq
  intro index
  rw [testBit_extractBits]
  by_cases first : index = 0
  · subst index
    rw [Nat.zero_add, getLsbD_insertBits _ _ _ _ _ (by decide), if_neg (by decide),
      ← BitVec.testBit_toNat, Nat.testBit_zero, Nat.testBit_zero]
    simp [Nat.add_mod]
  · by_cases second : index = 1
    · subst index
      rw [Nat.zero_add, getLsbD_insertBits _ _ _ _ _ (by decide), if_pos (by decide),
        Nat.testBit_zero, Nat.testBit_succ, Nat.testBit_zero]
      have half : (byte.toNat % 2 + 2 * (value % 2)) / 2 = value % 2 := by omega
      simp [half]
    · have small : byte.toNat % 2 + 2 * (value % 2) < 2 ^ index :=
        Nat.lt_of_lt_of_le (by omega) (Nat.pow_le_pow_right (by decide) (show 2 ≤ index by omega))
      rw [Nat.testBit_lt_two_pow small, decide_eq_false (by omega), Bool.false_and]

theorem tlpLengthHi_setExtentOn_big (pkt : Bytes) (align length : Nat) (long : 16 ≤ pkt.length) :
    PcieTlp.tlpLengthHi.get (setExtentOn .big pkt align length) =
      (getByte pkt 2).toNat % 2 + 2 * ((align + length + 3) / 4 / 256 % 2) := by
  have value : ((((align + length + 3) / 4 / 256 : Nat) : Int) % 4).toNat % 2 =
      (align + length + 3) / 4 / 256 % 2 := by
    omega
  have lengthHi (pkt : Bytes) (value : Nat) (bound : 2 < pkt.length) :
      PcieTlp.tlpLengthHi.get (Field.set ⟨2, 1, 2⟩ value pkt) =
        (getByte pkt 2).toNat % 2 + 2 * (value % 2) := by
    rw [Field.get, Field.set, show PcieTlp.tlpLengthHi.byte = 2 from rfl,
      getByte_set bound, if_pos rfl]
    exact extractBits_shifted _ _
  rw [setExtentOn_big, roundedDwords, shiftRight_eight,
    Field.get_set_disjoint (by decide) (by decide),
    lengthHi _ _ (by simpa using Nat.lt_of_lt_of_le (by decide) long), value,
    Field.getByte_set_ne (by decide), Field.getByte_set_ne (by decide)]

/-- Whether the high length bits come out on a little-endian host as a big-endian one stored them
into a header whose third byte was `byte`: all bits 0, or all 1 and the padding bit too. -/
def LengthSurvives (byte : Byte) (dwords : Nat) : Prop :=
  (dwords / 256 % 4 = 0 ∧ byte.toNat % 2 = 0) ∨ (dwords / 256 % 4 = 3 ∧ byte.toNat % 2 = 1)

theorem tlpDataLength_big_iff (pkt : Bytes) (addr : BitVec 64) (length : Nat)
    (long : 16 ≤ pkt.length) (positive : 1 ≤ length) (fits : addr.toNat % 4 + length ≤ 4096) :
    tlpDataLength (tlpReqSetAddrOn .big pkt addr length) = (addr.toNat % 4 + length + 3) / 4 ↔
      LengthSurvives (getByte pkt 2) ((addr.toNat % 4 + length + 3) / 4) := by
  have extentLong : 16 ≤ (setExtentOn .big pkt (addr.toNat % 4) length).length := by
    rw [length_setExtentOn_big]
    exact long
  have lengthHi := tlpLengthHi_setExtentOn_big pkt (addr.toNat % 4) length long
  have lengthLo := (tlpLength_setExtent pkt (addr.toNat % 4) length long).2
  have same : getByte _ PcieTlp.tlpLengthLo.byte = _ :=
    getByte_setExtentOn_big pkt (addr.toNat % 4) length (by decide)
  rw [← Field.get_congr same] at lengthLo
  have header :=
    getByte_setAddress_low (setExtentOn .big pkt (addr.toNat % 4) length) (addr &&& ~~~3) extentLong
  rw [← Field.get_congr (header 2 (by decide) (by decide))] at lengthHi
  rw [← Field.get_congr (header 3 (by decide) (by decide))] at lengthLo
  rw [tlpReqSetAddrOn_big, toNat_and_three, tlpDataLength_eq, lengthHi, lengthLo, LengthSurvives]
  omega

theorem big_header_agrees (pkt : Bytes) (addr : BitVec 64) (length : Int) (long : 16 ≤ pkt.length) :
    tlpReqGetAddr (tlpReqSetAddrOn .big pkt addr length) = addr &&& ~~~3 ∧
      PcieTlp.tlpFmt.get (tlpReqSetAddrOn .big pkt addr length) =
        PcieTlp.tlpFmt.get (tlpReqSetAddr pkt addr length) ∧
      ∀ index, 2 < index → index < 8 →
        getByte (tlpReqSetAddrOn .big pkt addr length) index =
          getByte (tlpReqSetAddr pkt addr length) index := by
  have extentLong (align : Nat) : 16 ≤ (setExtentOn .big pkt align length).length := by
    rw [length_setExtentOn_big]
    exact long
  rw [tlpReqSetAddrOn_big]
  refine ⟨tlpReqGetAddr_setAddress _ _ (extentLong _), ?_, ?_⟩
  · have same : getByte _ PcieTlp.tlpFmt.byte = _ :=
      getByte_setExtentOn_big pkt (addr &&& 3).toNat length (by decide)
    rw [tlpReqSetAddr, tlpFmt_setAddress _ _ (extentLong _), Field.get_congr same,
      tlpFmt_setAddress _ _ (by rw [length_setExtent]; exact long)]
  · intro index lower upper
    rw [tlpReqSetAddr, getByte_setAddress_low _ _ (extentLong _) index (by omega) upper,
      getByte_setAddress_low _ _ (by rw [length_setExtent]; exact long) index (by omega) upper,
      getByte_setExtentOn_big _ _ _ (by omega)]

structure DecodesTo (pkt : Bytes) (addr : BitVec 64) (length : Nat) (total : Int) : Prop where
  address : tlpReqGetAddr pkt = addr &&& ~~~3
  dwords : tlpDataLength pkt = (addr.toNat % 4 + length + 3) / 4
  bytes : tlpDataLengthBytes pkt = length
  total : tlpTotalLength pkt = total

theorem big_request_decodes_iff (pkt : Bytes) (addr : BitVec 64) (length : Nat)
    (long : 16 ≤ pkt.length) (positive : 1 ≤ length) (fits : addr.toNat % 4 + length ≤ 4096) :
    DecodesTo (tlpReqSetAddrOn .big pkt addr length) addr length
        (tlpTotalLength (tlpReqSetAddr pkt addr length)) ↔
      LengthSurvives (getByte pkt 2) ((addr.toNat % 4 + length + 3) / 4) := by
  have dwords := tlpDataLength_big_iff pkt addr length long positive fits
  have little := requestHeader_tlpReqSetAddr pkt addr length long positive fits
  obtain ⟨address, fmt, header⟩ := big_header_agrees pkt addr length long
  constructor
  · intro decodes
    exact dwords.mp decodes.dwords
  · intro survives
    have same := dwords.mpr survives
    refine ⟨address, same, ?_, ?_⟩
    · have enables : getByte _ PcieTlp.rFirstBe.byte = _ := header 7 (by decide) (by decide)
      have lastEnables : getByte _ PcieTlp.rLastBe.byte = _ := enables
      refine Eq.trans ?_ little.bytes
      rw [tlpDataLengthBytes, tlpDataLengthBytes, same, little.dwords, Field.get_congr enables,
        Field.get_congr lastEnables]
    · rw [tlpTotalLength, tlpTotalLength, same, little.dwords, fmt]

/-- The branches lay out every DLLP and the framing of every TLP alike. They lay out a TLP alike
exactly if the third byte holds nothing but zeros, and a request crosses over exactly if that is so
of its high length bits. -/
theorem wire_layout_agrees_iff (form : TlpForm) (tlp : PcieTlpMember → Nat)
    (framed : PcieDltlpMember → Nat) (dllpForm : DllpForm) (dllp : PcieDllpMember → Nat)
    {pkt : Bytes} (long : 16 ≤ pkt.length) (addr : BitVec 64) {length : Nat} (positive : 1 ≤ length)
    (fits : addr.toNat % 4 + length ≤ 4096) :
    (laidOut (tlpLayout form .little) 16 tlp = laidOut (tlpLayout form .big) 16 tlp ↔
      ThirdByteClear tlp) ∧
    (laidOut (dltlpLayout (some form) .little) 22 framed =
      laidOut (dltlpLayout (some form) .big) 22 framed ↔
      ThirdByteClear fun member => framed (.dlTlp member)) ∧
    laidOut (dltlpLayout none .little) 22 framed = laidOut (dltlpLayout none .big) 22 framed ∧
    laidOut (dllpLayout dllpForm .little) PcieDllp.size dllp =
      laidOut (dllpLayout dllpForm .big) PcieDllp.size dllp ∧
    (DecodesTo (tlpReqSetAddrOn .big pkt addr length) addr length
        (tlpTotalLength (tlpReqSetAddr pkt addr length)) ↔
      LengthSurvives (getByte pkt 2) ((addr.toNat % 4 + length + 3) / 4)) :=
  ⟨tlp_laidOut_iff form tlp, dltlp_laidOut_iff form framed, dltlpPad_laidOut framed,
    dllp_laidOut dllpForm dllp, big_request_decodes_iff pkt addr length long positive fits⟩

theorem longest_big_request_decodes :
    laidOut (tlpLayout .request .little) 16 (fun _ => 0) =
        laidOut (tlpLayout .request .big) 16 (fun _ => 0) ∧
      DecodesTo (tlpReqSetAddrOn .big (List.replicate 16 0) 0 (4096 : Nat)) 0 4096
        (tlpTotalLength (tlpReqSetAddr (List.replicate 16 0) 0 (4096 : Nat))) := by
  obtain ⟨layouts, -, -, -, decodes⟩ :=
    wire_layout_agrees_iff .request (fun _ => 0) (fun _ => 0) .acknak
    (fun _ => 0) (show 16 ≤ (List.replicate 16 (0 : Byte)).length by decide) 0
    (show 1 ≤ 4096 by decide) (by decide)
  refine ⟨layouts.mpr ?_, decodes.mpr (Or.inl ⟨by decide, by decide⟩)⟩
  intro entry member
  exact Nat.zero_mod _

/-- A length field with its ninth bit set is laid out differently, and a request for 256 double
words from a big-endian host asks a little-endian one for 512. -/
theorem big_length_misread :
    laidOut (tlpLayout .request .little) 16 (fun member => if member = .tlpLengthHi then 1 else 0) =
        [0, 0, 1, 0, 0, 0, 0, 0, 0, 0, 0, 0, 0, 0, 0, 0] ∧
      laidOut (tlpLayout .request .big) 16 (fun member => if member = .tlpLengthHi then 1 else 0) =
        [0, 0, 2, 0, 0, 0, 0, 0, 0, 0, 0, 0, 0, 0, 0, 0] ∧
      tlpDataLength (tlpReqSetAddrOn .big (List.replicate 16 0) 0 1024) = 512 ∧
      tlpDataLengthBytes (tlpReqSetAddrOn .big (List.replicate 16 0) 0 1024) = 2048 := by
  decide +kernel

end WarpPipe
