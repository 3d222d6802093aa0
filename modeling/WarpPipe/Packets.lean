import WarpPipe.ClientCore
import WarpPipe.ProtoCodec

/-!
Packets on the wire, and what `client_send_pcie_transport` puts there: a sealed packet carries the
next sequence number, a valid checksum, and the TLP or DLLP it was given.
-/

namespace WarpPipe

open ByteLayout

structure CompleteTlp (packet : Bytes) : Prop where
  proto : Transport.tProto.get packet = PcieProto.tlp.code
  known : 0 ≤ tlpTotalLength (packet.drop Transport.tTlp)
  length : (packet.length : Int) = headerSize + tlpTotalLength (packet.drop Transport.tTlp)

structure CompleteDllp (packet : Bytes) : Prop where
  proto : Transport.tProto.get packet = PcieProto.dllp.code
  length : packet.length = headerSize

inductive WirePacket (packet : Bytes) : Prop where
  | tlp (complete : CompleteTlp packet)
      (crc : pcieLcrc32Valid (packet.drop Transport.tUnion) = true)
  | dllp (complete : CompleteDllp packet)
      (crc : pcieCrc16Valid (packet.drop Transport.tUnion) = true)

instance (packet : Bytes) : Decidable (CompleteTlp packet) :=
  decidable_of_iff
    (Transport.tProto.get packet = PcieProto.tlp.code ∧
      0 ≤ tlpTotalLength (packet.drop Transport.tTlp) ∧
      (packet.length : Int) = headerSize + tlpTotalLength (packet.drop Transport.tTlp))
    ⟨fun facts => ⟨facts.1, facts.2.1, facts.2.2⟩, fun tlp => ⟨tlp.proto, tlp.known, tlp.length⟩⟩

instance (packet : Bytes) : Decidable (CompleteDllp packet) :=
  decidable_of_iff
    (Transport.tProto.get packet = PcieProto.dllp.code ∧ packet.length = headerSize)
    ⟨fun facts => ⟨facts.1, facts.2⟩, fun dllp => ⟨dllp.proto, dllp.length⟩⟩

theorem drop_onUnion (change : Bytes → Bytes) {tport : Bytes} (long : 1 ≤ tport.length) :
    (onUnion change tport).drop Transport.tUnion = change (tport.drop Transport.tUnion) := by
  have taken : (tport.take Transport.tUnion).length = Transport.tUnion := by
    simpa [Transport.tUnion] using long
  rw [onUnion, List.drop_append_of_le_length (Nat.le_of_eq taken.symm), ← taken]
  simp

theorem drop_onTlp (change : Bytes → Bytes) {tport : Bytes} (long : 3 ≤ tport.length) :
    (onTlp change tport).drop Transport.tTlp = change (tport.drop Transport.tTlp) := by
  have taken : (tport.take Transport.tTlp).length = Transport.tTlp := by
    simpa [Transport.tTlp, Transport.tUnion, PcieDltlp.dlTlp] using long
  rw [onTlp, List.drop_append_of_le_length (Nat.le_of_eq taken.symm), ← taken]
  simp

theorem length_onUnion (change : Bytes → Bytes) (tport : Bytes)
    (keeps : ∀ bytes, (change bytes).length = bytes.length) :
    (onUnion change tport).length = tport.length := by
  simp only [onUnion, List.length_append, keeps, List.length_take, List.length_drop]
  omega

theorem length_onTlp (change : Bytes → Bytes) (tport : Bytes)
    (keeps : ∀ bytes, (change bytes).length = bytes.length) :
    (onTlp change tport).length = tport.length := by
  simp only [onTlp, List.length_append, keeps, List.length_take, List.length_drop]
  omega

theorem getByte_onTlp_low (change : Bytes → Bytes) {tport : Bytes} (long : 3 ≤ tport.length)
    {index : Nat} (low : index < 3) : getByte (onTlp change tport) index = getByte tport index := by
  rw [onTlp, getByte_append_left, getByte_take (show index < Transport.tTlp from low)]
  simpa [Transport.tTlp, Transport.tUnion, PcieDltlp.dlTlp] using ⟨low, Nat.lt_of_lt_of_le low long⟩

theorem tProto_onTlp (change : Bytes → Bytes) {tport : Bytes} (long : 3 ≤ tport.length) :
    Transport.tProto.get (onTlp change tport) = Transport.tProto.get tport :=
  Field.get_congr (getByte_onTlp_low change long (by decide))

@[simp] theorem length_setSeqno (seqno : BitVec 32) (pkt : Bytes) :
    (setSeqno seqno pkt).length = pkt.length := by
  simp [setSeqno]

theorem getByte_setSeqno (seqno : BitVec 32) (pkt : Bytes) (index : Nat) (past : 2 ≤ index) :
    getByte (setSeqno seqno pkt) index = getByte pkt index := by
  simp only [setSeqno]
  rw [Field.getByte_set_ne (by simp only [PcieDltlp.dlSeqnoLo]; omega),
    Field.getByte_set_ne (by simp only [PcieDltlp.dlSeqnoHi]; omega)]

theorem drop_setSeqno (seqno : BitVec 32) (pkt : Bytes) :
    (setSeqno seqno pkt).drop PcieDltlp.dlTlp = pkt.drop PcieDltlp.dlTlp := by
  apply buffer_ext
  · simp
  intro index _
  rw [getByte_drop, getByte_drop]
  exact getByte_setSeqno seqno pkt _ (by simp only [PcieDltlp.dlTlp]; omega)

theorem receivedSeqno_setSeqno (seqno : BitVec 32) (pkt : Bytes) (long : 2 ≤ pkt.length) :
    receivedSeqno (setSeqno seqno pkt) = seqno.toNat % 4096 := by
  have low : (seqno &&& 0xff).toNat = seqno.toNat % 256 :=
    toNat_and_lowMask seqno 0xff 8 (by decide)
  have high : (seqno.sshiftRight 8).toNat % 16 = seqno.toNat / 256 % 16 := by
    apply Nat.eq_of_testBit_eq
    intro index
    rw [show (16 : Nat) = 2 ^ 4 from rfl, show (256 : Nat) = 2 ^ 8 from rfl,
      ← Nat.shiftRight_eq_div_pow, Nat.testBit_mod_two_pow, Nat.testBit_mod_two_pow,
      Nat.testBit_shiftRight, BitVec.testBit_toNat, BitVec.testBit_toNat,
      BitVec.getLsbD_sshiftRight]
    by_cases inside : index < 4
    · have notPast : ¬32 ≤ index := by omega
      have below : 8 + index < 32 := by omega
      simp [inside, notPast, below]
    · simp [inside]
  have hi : PcieDltlp.dlSeqnoHi.get (setSeqno seqno pkt) = seqno.toNat / 256 % 16 := by
    simp only [setSeqno]
    rw [Field.get_set_disjoint (by decide) (by decide),
      Field.get_set_same (Nat.lt_of_lt_of_le (by decide) long) (by decide)]
    exact high
  have lo : PcieDltlp.dlSeqnoLo.get (setSeqno seqno pkt) = seqno.toNat % 256 := by
    simp only [setSeqno]
    rw [Field.get_set_same (by simpa using Nat.lt_of_lt_of_le (by decide) long) (by decide), low]
    simp [PcieDltlp.dlSeqnoLo]
  rw [receivedSeqno, hi, lo, lengthField_eq _ _ (Nat.mod_lt _ (by decide))]
  omega

@[simp] theorem length_checksumBytes (count : Nat) (crc : BitVec 32) :
    (checksumBytes count crc).length = count := by
  simp [checksumBytes]

@[simp] theorem length_tlpChecksum (pkt : Bytes) : (tlpChecksum pkt).length = 4 := by
  simp [tlpChecksum]

@[simp] theorem length_dllpChecksum (pkt : Bytes) : (dllpChecksum pkt).length = 2 := by
  simp [dllpChecksum]

@[simp] theorem length_pcieLcrc32 (pkt : Bytes) : (pcieLcrc32 pkt).length = pkt.length := by
  simp [pcieLcrc32]

@[simp] theorem length_pcieCrc16 (pkt : Bytes) : (pcieCrc16 pkt).length = pkt.length := by
  simp [pcieCrc16]

theorem take_eq_of_agree {count : Nat} {left right : Bytes} (agree : AgreeBelow count left right)
    (leftLong : count ≤ left.length) (rightLong : count ≤ right.length) :
    left.take count = right.take count := by
  apply buffer_ext
  · simp [leftLong, rightLong]
  intro index bound
  have inside : index < count := by
    simp only [List.length_take] at bound
    omega
  rw [getByte_take inside, getByte_take inside, agree index inside]

theorem AgreeBelow.drop {count : Nat} {left right : Bytes} (agree : AgreeBelow count left right)
    (skip : Nat) : AgreeBelow (count - skip) (left.drop skip) (right.drop skip) := by
  intro index bound
  rw [getByte_drop, getByte_drop]
  exact agree _ (by omega)

theorem lcrcOffset_congr {left right : Bytes} (agree : AgreeBelow 6 left right) :
    lcrcOffset left = lcrcOffset right := by
  simp only [lcrcOffset, tlpTotalLength_congr (agree.drop PcieDltlp.dlTlp)]

theorem tlpChecksum_congr {left right : Bytes}
    (agree : AgreeBelow (lcrcOffset right) left right) (header : AgreeBelow 6 left right)
    (leftLong : lcrcOffset right ≤ left.length) (rightLong : lcrcOffset right ≤ right.length) :
    tlpChecksum left = tlpChecksum right := by
  rw [tlpChecksum, tlpChecksum, lcrcOffset_congr header, take_eq_of_agree agree leftLong rightLong]

theorem pcieLcrc32Valid_congr {left right : Bytes}
    (agree : AgreeBelow (lcrcOffset right + 4) left right) (header : AgreeBelow 6 left right)
    (leftLong : lcrcOffset right ≤ left.length) (rightLong : lcrcOffset right ≤ right.length) :
    pcieLcrc32Valid left = pcieLcrc32Valid right := by
  have checksum := tlpChecksum_congr (agree.mono (by omega)) header leftLong rightLong
  rw [Bool.eq_iff_iff]
  simp only [pcieLcrc32Valid, lcrcOffset_congr header, checksum, List.all_eq_true, List.mem_range,
    beq_iff_eq]
  refine forall₂_congr fun index bound => ?_
  rw [agree _ (by omega)]

theorem pcieLcrc32Valid_of_bytes {pkt : Bytes}
    (stored : ∀ index < 4, getByte pkt (lcrcOffset pkt + index) = getByte (tlpChecksum pkt) index) :
    pcieLcrc32Valid pkt = true := by
  simp only [pcieLcrc32Valid, List.all_eq_true, List.mem_range, beq_iff_eq]
  exact stored

theorem pcieCrc16Valid_congr {left right : Bytes} (agree : AgreeBelow 6 left right)
    (leftLong : 6 ≤ left.length) (rightLong : 6 ≤ right.length) :
    pcieCrc16Valid left = pcieCrc16Valid right := by
  have start : PcieDllp.dlCrc16 = 4 := rfl
  have checksum : dllpChecksum left = dllpChecksum right := by
    rw [dllpChecksum, dllpChecksum,
      take_eq_of_agree (agree.mono (by decide)) (by omega) (by omega)]
  rw [Bool.eq_iff_iff]
  simp only [pcieCrc16Valid, checksum, List.all_eq_true, List.mem_range, beq_iff_eq]
  refine forall₂_congr fun index bound => ?_
  rw [agree _ (by omega)]

/-- The packet that `client_send_pcie_transport` makes of a TLP transport block. -/
def sealTlp (seqno : BitVec 32) (tport : Bytes) : Bytes :=
  let pkt := setSeqno seqno (tport.drop Transport.tUnion)
  tport.take Transport.tUnion ++ (pkt.take (lcrcOffset pkt) ++ tlpChecksum pkt)

structure TlpBlock (tport : Bytes) : Prop where
  proto : Transport.tProto.get tport = PcieProto.tlp.code
  known : 0 ≤ tlpTotalLength (tport.drop Transport.tTlp)
  room : headerSize + tlpTotalLength (tport.drop Transport.tTlp) ≤ tport.length

theorem tlpTotalLength_ge {pkt : Bytes} (known : 0 ≤ tlpTotalLength pkt) :
    12 ≤ tlpTotalLength pkt := by
  rcases tlpTotalLength_cases pkt with ⟨_, total⟩ | ⟨_, total⟩ | ⟨_, total⟩ | ⟨_, total⟩ |
    ⟨_, total⟩ <;>
    omega

theorem CompleteTlp.long {packet : Bytes} (complete : CompleteTlp packet) : 19 ≤ packet.length := by
  have announced := complete.length
  have least := tlpTotalLength_ge complete.known
  have seven : headerSize = 7 := rfl
  omega

section

variable {tport : Bytes} (block : TlpBlock tport) (seqno : BitVec 32)

include block

theorem TlpBlock.long : 19 ≤ tport.length := by
  have room := block.room
  have least := tlpTotalLength_ge block.known
  simp only [headerSize, PcieDllp.size] at room
  omega

theorem TlpBlock.lcrcOffset_setSeqno :
    (lcrcOffset (setSeqno seqno (tport.drop Transport.tUnion)) : Int) =
      2 + tlpTotalLength (tport.drop Transport.tTlp) := by
  have known := block.known
  rw [lcrcOffset, drop_setSeqno, List.drop_drop,
    show Transport.tUnion + PcieDltlp.dlTlp = Transport.tTlp from rfl,
    show PcieDltlp.dlTlp = 2 from rfl]
  omega

theorem TlpBlock.length_sealTlp :
    ((sealTlp seqno tport).length : Int) =
      headerSize + tlpTotalLength (tport.drop Transport.tTlp) := by
  have offset := block.lcrcOffset_setSeqno seqno
  have room := block.room
  have long := block.long
  simp only [headerSize, PcieDllp.size] at *
  simp only [sealTlp, List.length_append, List.length_take, length_setSeqno, List.length_drop,
    length_tlpChecksum, Transport.tUnion] at *
  omega

theorem TlpBlock.getByte_sealTlp (index : Nat)
    (bound : (index : Int) < 3 + tlpTotalLength (tport.drop Transport.tTlp))
    (body : index = 0 ∨ 3 ≤ index) :
    getByte (sealTlp seqno tport) index = getByte tport index := by
  have offset := block.lcrcOffset_setSeqno seqno
  have room := block.room
  have long := block.long
  simp only [headerSize, PcieDllp.size] at room
  have taken : (tport.take Transport.tUnion).length = 1 := by
    simp only [List.length_take, Transport.tUnion]
    omega
  rw [sealTlp]
  rcases body with first | later
  · subst index
    rw [getByte_append_left (by omega), getByte_take (by decide)]
  · rw [getByte_append_right (by omega), taken, getByte_append_left, getByte_take (by omega),
      getByte_setSeqno _ _ _ (by omega), getByte_drop]
    · simp only [Transport.tUnion]
      congr 1
      omega
    · simp only [List.length_take, length_setSeqno, List.length_drop, Transport.tUnion] at *
      omega

theorem TlpBlock.agree_sealTlp :
    AgreeBelow (tlpTotalLength (tport.drop Transport.tTlp)).toNat
      ((sealTlp seqno tport).drop Transport.tTlp) (tport.drop Transport.tTlp) := by
  intro index bound
  rw [getByte_drop, getByte_drop]
  have start : Transport.tTlp = 3 := rfl
  exact block.getByte_sealTlp seqno _ (by omega) (Or.inr (by omega))

theorem TlpBlock.total_sealTlp :
    tlpTotalLength ((sealTlp seqno tport).drop Transport.tTlp) =
      tlpTotalLength (tport.drop Transport.tTlp) := by
  have least := tlpTotalLength_ge block.known
  exact tlpTotalLength_congr ((block.agree_sealTlp seqno).mono (by omega))

theorem TlpBlock.complete_sealTlp : CompleteTlp (sealTlp seqno tport) := by
  have same := block.total_sealTlp seqno
  have known := block.known
  refine ⟨?_, by omega, ?_⟩
  · rw [Field.get_congr (block.getByte_sealTlp seqno 0 (by omega) (Or.inl rfl)), block.proto]
  · rw [block.length_sealTlp seqno, same]

theorem TlpBlock.drop_sealTlp :
    (sealTlp seqno tport).drop Transport.tUnion =
      (setSeqno seqno (tport.drop Transport.tUnion)).take
        (lcrcOffset (setSeqno seqno (tport.drop Transport.tUnion))) ++
      tlpChecksum (setSeqno seqno (tport.drop Transport.tUnion)) := by
  have long := block.long
  have taken : (tport.take Transport.tUnion).length = Transport.tUnion := by
    simp only [List.length_take, Transport.tUnion]
    omega
  rw [sealTlp, List.drop_append_of_le_length (Nat.le_of_eq taken.symm), ← taken]
  simp

theorem TlpBlock.lcrc_sealTlp :
    pcieLcrc32Valid ((sealTlp seqno tport).drop Transport.tUnion) = true := by
  have offset := block.lcrcOffset_setSeqno seqno
  have room := block.room
  have least := tlpTotalLength_ge block.known
  simp only [headerSize, PcieDllp.size] at room
  rw [block.drop_sealTlp seqno]
  have inner : (setSeqno seqno (tport.drop Transport.tUnion)).length = tport.length - 1 := by
    simp [Transport.tUnion]
  generalize setSeqno seqno (tport.drop Transport.tUnion) = pkt at *
  have taken : (pkt.take (lcrcOffset pkt)).length = lcrcOffset pkt := by
    rw [List.length_take]
    omega
  have agree : AgreeBelow (lcrcOffset pkt) (pkt.take (lcrcOffset pkt) ++ tlpChecksum pkt) pkt := by
    intro index bound
    rw [getByte_append_left (by omega), getByte_take bound]
  have header := agree.mono (show 6 ≤ lcrcOffset pkt by omega)
  apply pcieLcrc32Valid_of_bytes
  intro index bound
  rw [lcrcOffset_congr header, tlpChecksum_congr agree header
    (by simp only [List.length_append, length_tlpChecksum]; omega) (by omega),
    getByte_append_right (by omega), taken]
  congr 1
  omega

theorem TlpBlock.wire_sealTlp : WirePacket (sealTlp seqno tport) :=
  .tlp (block.complete_sealTlp seqno) (block.lcrc_sealTlp seqno)

theorem TlpBlock.seqno_sealTlp :
    receivedSeqno ((sealTlp seqno tport).drop Transport.tUnion) = seqno.toNat % 4096 := by
  have offset := block.lcrcOffset_setSeqno seqno
  have room := block.room
  have long := block.long
  have least := tlpTotalLength_ge block.known
  simp only [headerSize, PcieDllp.size] at room
  rw [← receivedSeqno_setSeqno seqno (tport.drop Transport.tUnion)
    (by simp only [List.length_drop, Transport.tUnion]; omega), block.drop_sealTlp seqno]
  have inner : (setSeqno seqno (tport.drop Transport.tUnion)).length = tport.length - 1 := by
    simp [Transport.tUnion]
  generalize setSeqno seqno (tport.drop Transport.tUnion) = pkt at *
  have agree : AgreeBelow 2 (pkt.take (lcrcOffset pkt) ++ tlpChecksum pkt) pkt := by
    intro index bound
    rw [getByte_append_left (by rw [List.length_take]; omega), getByte_take (by omega)]
  rw [receivedSeqno, receivedSeqno, agree.get PcieDltlp.dlSeqnoHi (by decide),
    agree.get PcieDltlp.dlSeqnoLo (by decide)]

end

def sealDllp (tport : Bytes) : Bytes := (onUnion pcieCrc16 tport).take headerSize

section

variable {tport : Bytes} (long : headerSize ≤ tport.length)

include long

theorem length_sealDllp : (sealDllp tport).length = headerSize := by
  rw [sealDllp, List.length_take, length_onUnion _ _ length_pcieCrc16]
  exact Nat.min_eq_left long

theorem drop_sealDllp :
    (sealDllp tport).drop Transport.tUnion =
      (tport.drop Transport.tUnion).take 4 ++ dllpChecksum (tport.drop Transport.tUnion) := by
  have room : 7 ≤ tport.length := long
  have fits : PcieDllp.dlCrc16 + (dllpChecksum (tport.drop Transport.tUnion)).length ≤
      (tport.drop Transport.tUnion).length := by
    simp only [PcieDllp.dlCrc16, length_dllpChecksum, List.length_drop, Transport.tUnion]
    omega
  rw [sealDllp, List.drop_take, drop_onUnion _ (by omega), pcieCrc16]
  exact take_overwrite_through _ _ _ fits

theorem getByte_sealDllp (index : Nat) (bound : index < 5) :
    getByte (sealDllp tport) index = getByte tport index := by
  have room : 7 ≤ tport.length := long
  cases index with
  | zero =>
      have taken : (tport.take Transport.tUnion).length = 1 := by
        simp only [List.length_take, Transport.tUnion]
        omega
      rw [sealDllp, getByte_take (by decide), onUnion, getByte_append_left (by omega),
        getByte_take (by decide)]
  | succ index =>
      have inner := congrArg (fun bytes => getByte bytes index) (drop_sealDllp long)
      simp only [getByte_drop, Transport.tUnion] at inner
      rw [Nat.add_comm index 1, inner, getByte_append_left, getByte_take (by omega), getByte_drop]
      simp only [List.length_take, List.length_drop]
      omega

theorem crc_sealDllp : pcieCrc16Valid ((sealDllp tport).drop Transport.tUnion) = true := by
  have room : 7 ≤ tport.length := long
  rw [drop_sealDllp long]
  have inner : 6 ≤ (tport.drop Transport.tUnion).length := by
    simp only [List.length_drop, Transport.tUnion]
    omega
  generalize tport.drop Transport.tUnion = pkt at *
  have taken : (pkt.take 4).length = 4 := by
    rw [List.length_take]
    omega
  have covered : (pkt.take 4 ++ dllpChecksum pkt).take 4 = pkt.take 4 := by
    rw [← taken]
    simp
  have checksum : dllpChecksum (pkt.take 4 ++ dllpChecksum pkt) = dllpChecksum pkt := by
    rw [dllpChecksum, show PcieDllp.dlCrc16 = 4 from rfl, covered]
    rfl
  simp only [pcieCrc16Valid, List.all_eq_true, List.mem_range, beq_iff_eq]
  intro index bound
  rw [checksum, getByte_append_right (by rw [taken]; exact Nat.le_add_right _ _), taken,
    show PcieDllp.dlCrc16 = 4 from rfl, Nat.add_sub_cancel_left]

end

structure AckFor (type : PcieDllpType) (seqno : Nat) (packet : Bytes) : Prop where
  complete : CompleteDllp packet
  crc : pcieCrc16Valid (packet.drop Transport.tUnion) = true
  type : PcieDllp.dlType.get (packet.drop Transport.tUnion) = type.code
  seqno : PcieDllp.dlSeqnoHi.get (packet.drop Transport.tUnion) <<< 8 |||
    PcieDllp.dlSeqnoLo.get (packet.drop Transport.tUnion) = seqno

theorem ackPacket_drop (type : PcieDllpType) (seqno : Nat) :
    (ackPacket type seqno).drop Transport.tUnion =
      PcieDllp.dlSeqnoLo.set (seqno &&& 0xff)
        (PcieDllp.dlSeqnoHi.set (seqno >>> 8)
          (PcieDllp.dlNak.set type.code (List.replicate 22 0))) := by
  rw [ackPacket, drop_onUnion _ (by simp [Transport.size])]
  rfl

theorem length_ackPacket (type : PcieDllpType) (seqno : Nat) :
    (ackPacket type seqno).length = Transport.size := by
  rw [ackPacket, length_onUnion _ _ (by simp)]
  simp [Transport.size]

theorem tProto_ackPacket (type : PcieDllpType) (seqno : Nat) :
    Transport.tProto.get (ackPacket type seqno) = PcieProto.dllp.code := by
  rfl

theorem ackFor_sealDllp (type : PcieDllpType) (seqno : Nat) (bound : seqno < 4096) :
    AckFor type seqno (sealDllp (ackPacket type seqno)) := by
  have long : headerSize ≤ (ackPacket type seqno).length := by
    rw [length_ackPacket]
    decide
  have agree : AgreeBelow 4 ((sealDllp (ackPacket type seqno)).drop Transport.tUnion)
      ((ackPacket type seqno).drop Transport.tUnion) := by
    intro index inside
    rw [getByte_drop, getByte_drop]
    exact getByte_sealDllp long _ (by simp only [Transport.tUnion]; omega)
  refine ⟨⟨?_, length_sealDllp long⟩, crc_sealDllp long, ?_, ?_⟩
  · rw [Field.get_congr (getByte_sealDllp long 0 (by decide)), tProto_ackPacket]
  · rw [agree.get PcieDllp.dlType (by decide), ackPacket_drop,
      Field.get_set_disjoint (by decide) (by decide),
      Field.get_set_disjoint (by decide) (by decide),
      show PcieDllp.dlType = PcieDllp.dlNak from rfl, Field.get_set_same (by decide) (by decide)]
    cases type <;> rfl
  · have low : (seqno &&& 0xff) % 2 ^ 8 < 256 := Nat.mod_lt _ (by decide)
    rw [agree.get PcieDllp.dlSeqnoHi (by decide), agree.get PcieDllp.dlSeqnoLo (by decide),
      ackPacket_drop, Field.get_set_disjoint (by decide) (by decide),
      Field.get_set_same (by simp [PcieDllp.dlSeqnoHi]) (by decide),
      Field.get_set_same (by simp [PcieDllp.dlSeqnoLo]) (by decide),
      show PcieDllp.dlSeqnoHi.width = 4 from rfl, show PcieDllp.dlSeqnoLo.width = 8 from rfl,
      lengthField_eq _ _ low, Nat.shiftRight_eq_div_pow,
      show (0xff : Nat) = 2 ^ 8 - 1 from rfl, Nat.and_two_pow_sub_one_eq_mod]
    omega

end WarpPipe
