import WarpPipe.ClientSend

/-!
The messages two clients exchange, as the receiving side decodes them. Each predicate says what
the decoding functions of `src/proto.c` read from the bytes of one TLP; each request or completion
that a client sends satisfies the predicate of its message.
-/

namespace WarpPipe

open ByteLayout

def narrowType : PcieTlpType → PcieTlpType
  | .mrd64 => .mrd32
  | .mwr64 => .mwr32
  | type => type

structure IsRead (pkt : Bytes) (type : PcieTlpType) (addr : BitVec 64) (length tag : Nat) :
    Prop where
  type : tlpTypeOf pkt = some type
  narrow : PcieTlp.tlpFmt.get pkt &&& pcieTlpFmt4dw = 0
  address : tlpReqGetAddr pkt = addr &&& ~~~3
  dwords : tlpDataLength pkt = (addr.toNat % 4 + length + 3) / 4
  bytes : tlpDataLengthBytes pkt = length
  offset : firstByteOffset pkt = addr.toNat % 4
  tag : PcieTlp.rTag.get pkt = tag

structure IsWrite (pkt : Bytes) (type : PcieTlpType) (addr : BitVec 64) (data : Bytes) : Prop where
  type : tlpTypeOf pkt = some type
  narrow : PcieTlp.tlpFmt.get pkt &&& pcieTlpFmt4dw = 0
  address : tlpReqGetAddr pkt = addr &&& ~~~3
  bytes : tlpDataLengthBytes pkt = data.length
  offset : firstByteOffset pkt = addr.toNat % 4
  payload : slice pkt (PcieTlp.rData32 + addr.toNat % 4) data.length = data

structure IsCompletion (pkt : Bytes) (tag : Nat) (data : Bytes) : Prop where
  type : tlpTypeOf pkt = some .cpld
  tag : PcieTlp.cTag.get pkt = tag
  count : PcieTlp.cByteCountHi.get pkt <<< 8 ||| PcieTlp.cByteCountLo.get pkt = data.length
  data : slice pkt PcieTlp.cData data.length = data

structure IsFailure (pkt : Bytes) (tag : Nat) : Prop where
  type : tlpTypeOf pkt = some .cpl
  tag : PcieTlp.cTag.get pkt = tag

theorem IsRead.congr {left right : Bytes} {type : PcieTlpType} {addr : BitVec 64} {length tag : Nat}
    (agree : AgreeBelow 12 left right) (read : IsRead right type addr length tag) :
    IsRead left type addr length tag where
  type := by rw [tlpTypeOf_congr (agree.mono (by decide)), read.type]
  narrow := by rw [agree.get PcieTlp.tlpFmt (by decide), read.narrow]
  address := by
    rw [tlpReqGetAddr_congr agree (Nat.le_refl _) (fun wide => absurd read.narrow wide),
      read.address]
  dwords := by rw [tlpDataLength_congr (agree.mono (by decide)), read.dwords]
  bytes := by rw [tlpDataLengthBytes_congr (agree.mono (by decide)), read.bytes]
  offset := by rw [firstByteOffset_congr (agree.mono (by decide)), read.offset]
  tag := by rw [agree.get PcieTlp.rTag (by decide), read.tag]

theorem IsWrite.congr {left right : Bytes} {type : PcieTlpType} {addr : BitVec 64} {data : Bytes}
    {count : Nat} (agree : AgreeBelow count left right) (write : IsWrite right type addr data)
    (covers : 12 + addr.toNat % 4 + data.length ≤ count) (leftLong : count ≤ left.length)
    (rightLong : count ≤ right.length) : IsWrite left type addr data where
  type := by rw [tlpTypeOf_congr (agree.mono (by omega)), write.type]
  narrow := by rw [agree.get PcieTlp.tlpFmt (show 0 < count by omega), write.narrow]
  address := by
    rw [tlpReqGetAddr_congr agree (by omega) (fun wide => absurd write.narrow wide), write.address]
  bytes := by rw [tlpDataLengthBytes_congr (agree.mono (by omega)), write.bytes]
  offset := by rw [firstByteOffset_congr (agree.mono (by omega)), write.offset]
  payload := by
    have start : PcieTlp.rData32 = 12 := rfl
    refine (slice_congr (by omega) (by omega) fun index bound => ?_).trans write.payload
    exact agree _ (by omega)

theorem IsCompletion.congr {left right : Bytes} {tag : Nat} {data : Bytes} {count : Nat}
    (agree : AgreeBelow count left right) (completion : IsCompletion right tag data)
    (covers : 12 + data.length ≤ count) (leftLong : count ≤ left.length)
    (rightLong : count ≤ right.length) : IsCompletion left tag data where
  type := by rw [tlpTypeOf_congr (agree.mono (by omega)), completion.type]
  tag := by rw [agree.get PcieTlp.cTag (show 10 < count by omega), completion.tag]
  count := by
    rw [agree.get PcieTlp.cByteCountHi (show 6 < count by omega),
      agree.get PcieTlp.cByteCountLo (show 7 < count by omega), completion.count]
  data := by
    have start : PcieTlp.cData = 12 := rfl
    refine (slice_congr (by omega) (by omega) fun index bound => ?_).trans completion.data
    exact agree _ (by omega)

theorem IsFailure.congr {left right : Bytes} {tag : Nat} (agree : AgreeBelow 12 left right)
    (failure : IsFailure right tag) : IsFailure left tag where
  type := by rw [tlpTypeOf_congr (agree.mono (by decide)), failure.type]
  tag := by rw [agree.get PcieTlp.cTag (by decide), failure.tag]

theorem requestType_narrow {type : PcieTlpType} {pkt : Bytes}
    (fmt : PcieTlp.tlpFmt.get pkt = type.code >>> 5 &&& 6)
    (low : PcieTlp.tlpType.get pkt = type.code &&& 0x1f)
    (request : ReadType type ∨ WriteType type) :
    tlpTypeOf pkt = some (narrowType type) ∧ PcieTlp.tlpFmt.get pkt &&& pcieTlpFmt4dw = 0 := by
  rw [tlpTypeOf, fmt, low]
  rcases request with (rfl | rfl) | (rfl | rfl) <;> decide

theorem isRead_readBlock {type : PcieTlpType} (isRead : ReadType type) (tag : Fin 32)
    (addr : BitVec 64) (length : Nat) (low : addr.toNat < 2 ^ 32) (positive : 1 ≤ length)
    (fits : addr.toNat % 4 + length ≤ 4096) :
    IsRead ((readBlock tag type addr length).drop Transport.tTlp) (narrowType type) addr
      length tag := by
  have long : 16 ≤ (readHeader tag type).length := by
    rw [length_readHeader]
    decide
  have header := requestHeader_tlpReqSetAddr (readHeader tag type) addr length long positive fits
  obtain ⟨fmt, lowType, tagField⟩ := readHeader_fields tag type
  rw [drop_readBlock]
  have headerFmt := header.fmt
  rw [if_pos low, fmt] at headerFmt
  obtain ⟨typeOf, narrow⟩ :=
    requestType_narrow headerFmt (header.type.trans lowType) (Or.inl isRead)
  refine ⟨typeOf, narrow, header.address, header.dwords, header.bytes, header.offset, ?_⟩
  rw [Field.get_congr (header.ids 6 (by decide) (by decide)), tagField]

theorem isWrite_writeBlock (junk : Nat → Byte) {type : PcieTlpType} (isWrite : WriteType type)
    (addr : BitVec 64) (data : Bytes) (low : addr.toNat < 2 ^ 32) (positive : 1 ≤ data.length)
    (fits : addr.toNat % 4 + data.length ≤ 4096) :
    IsWrite ((writeBlock junk addr data type).drop Transport.tTlp) (narrowType type) addr data := by
  have long : 16 ≤ (writeHeader junk addr data.length type).length :=
    Nat.le_trans (by decide) (long_writeHeader junk addr data.length type)
  have header :=
    requestHeader_tlpReqSetAddr (writeHeader junk addr data.length type) addr data.length
    long positive fits
  obtain ⟨fmt, lowType⟩ := writeHeader_fields junk addr data.length type
  have agree := agree_writeBlock junk addr data isWrite
  have headerFmt := header.fmt
  rw [if_pos low, fmt] at headerFmt
  obtain ⟨typeOf, narrow⟩ :=
    requestType_narrow headerFmt (header.type.trans lowType) (Or.inr isWrite)
  have window := slice_writeBlock junk addr data isWrite
  rw [if_pos low] at window
  constructor
  · rw [tlpTypeOf_congr (agree.mono (by decide)), typeOf]
  · rw [agree.get PcieTlp.tlpFmt (by decide), narrow]
  · rw [tlpReqGetAddr_congr agree (Nat.le_refl _) (fun wide => absurd narrow wide), header.address]
  · rw [tlpDataLengthBytes_congr (agree.mono (by decide)), header.bytes]
  · rw [firstByteOffset_congr (agree.mono (by decide)), header.offset]
  · exact window

def completionTlp (pkt : Bytes) : Bytes := (completionHeader pkt).drop Transport.tTlp

theorem length_completionHeader (pkt : Bytes) :
    (completionHeader pkt).length = Transport.size + tlpDataLength pkt * 4 := by
  rw [completionHeader, length_onTlp _ _ (by simp)]
  simp

theorem length_completionTlp (pkt : Bytes) :
    (completionTlp pkt).length = 20 + tlpDataLength pkt * 4 := by
  rw [completionTlp, List.length_drop, length_completionHeader]
  simp only [Transport.size, Transport.tTlp, Transport.tUnion, PcieDltlp.dlTlp]
  omega

theorem tProto_completionHeader (pkt : Bytes) :
    Transport.tProto.get (completionHeader pkt) = PcieProto.tlp.code := by
  rw [completionHeader, tProto_onTlp, Field.get_set_same _ (by decide)]
  · rfl
  · simp only [List.length_replicate, Transport.size, Transport.tProto]
    omega
  · simp only [Field.length_set, List.length_replicate, Transport.size]
    omega

structure CompletionFields (pkt tlp : Bytes) : Prop where
  fmt : PcieTlp.tlpFmt.get tlp = 2
  type : PcieTlp.tlpType.get tlp = 0x0a
  lengthHi : PcieTlp.tlpLengthHi.get tlp = PcieTlp.tlpLengthHi.get pkt
  lengthLo : PcieTlp.tlpLengthLo.get tlp = PcieTlp.tlpLengthLo.get pkt
  tag : PcieTlp.cTag.get tlp = PcieTlp.rTag.get pkt
  countHi : PcieTlp.cByteCountHi.get tlp = ((tlpDataLengthBytes pkt >>> (8 : Nat)) % 16).toNat
  countLo : PcieTlp.cByteCountLo.get tlp = (tlpDataLengthBytes pkt % 256).toNat

theorem completionFields_completionTlp (pkt : Bytes) :
    CompletionFields pkt (completionTlp pkt) := by
  have room : 3 ≤ (Transport.tProto.set PcieProto.tlp.code
      (List.replicate (Transport.size + tlpDataLength pkt * 4) 0)).length := by
    simp only [Field.length_set, List.length_replicate, Transport.size]
    omega
  have hiSmall : PcieTlp.tlpLengthHi.get pkt < 4 := PcieTlp.tlpLengthHi.get_lt pkt
  have loSmall : PcieTlp.tlpLengthLo.get pkt < 256 := PcieTlp.tlpLengthLo.get_lt pkt
  have tagSmall : PcieTlp.rTag.get pkt < 256 := PcieTlp.rTag.get_lt pkt
  have inner : 20 ≤ ((Transport.tProto.set PcieProto.tlp.code
      (List.replicate (Transport.size + tlpDataLength pkt * 4) 0)).drop Transport.tTlp).length := by
    simp only [List.length_drop, Field.length_set, List.length_replicate, Transport.size,
      Transport.tTlp, Transport.tUnion, PcieDltlp.dlTlp]
    omega
  rw [completionTlp, completionHeader, drop_onTlp _ room]
  generalize (Transport.tProto.set PcieProto.tlp.code
      (List.replicate (Transport.size + tlpDataLength pkt * 4) 0)).drop
        Transport.tTlp = tlp at inner
  have inside (field : Field) (low : field.byte < 20) (buffer : Bytes)
      (same : buffer.length = tlp.length) : field.byte < buffer.length := by omega
  constructor <;>
    simp (disch := first | decide | exact inside _ (by decide) _ (by simp only [Field.length_set]))
      only [Field.get_set_same, Field.get_set_disjoint]
  · rfl
  · rfl
  · exact Nat.mod_eq_of_lt hiSmall
  · exact Nat.mod_eq_of_lt loSmall
  · exact Nat.mod_eq_of_lt tagSmall
  · simp only [PcieTlp.cByteCountHi]
    omega
  · simp only [PcieTlp.cByteCountLo]
    omega

theorem CompletionFields.congr {pkt left right : Bytes} (agree : AgreeBelow 12 left right)
    (fields : CompletionFields pkt right) : CompletionFields pkt left where
  fmt := by rw [agree.get PcieTlp.tlpFmt (by decide), fields.fmt]
  type := by rw [agree.get PcieTlp.tlpType (by decide), fields.type]
  lengthHi := by rw [agree.get PcieTlp.tlpLengthHi (by decide), fields.lengthHi]
  lengthLo := by rw [agree.get PcieTlp.tlpLengthLo (by decide), fields.lengthLo]
  tag := by rw [agree.get PcieTlp.cTag (by decide), fields.tag]
  countHi := by rw [agree.get PcieTlp.cByteCountHi (by decide), fields.countHi]
  countLo := by rw [agree.get PcieTlp.cByteCountLo (by decide), fields.countLo]

theorem CompletionFields.total {pkt tlp : Bytes} (fields : CompletionFields pkt tlp) :
    tlpTotalLength tlp = 12 + 4 * tlpDataLength pkt := by
  have fmt := fields.fmt
  have dwords : tlpDataLength tlp = tlpDataLength pkt := by
    rw [tlpDataLength, tlpDataLength, fields.lengthHi, fields.lengthLo]
  have cases := tlpTotalLength_cases tlp
  omega

section

variable (pkt data : Bytes)

def filledTlp : Bytes := overwrite (completionTlp pkt) PcieTlp.cData data

theorem completionFields_filledTlp : CompletionFields pkt (filledTlp pkt data) :=
  (completionFields_completionTlp pkt).congr fun _ bound => getByte_overwrite_before bound

theorem length_completionPacket (error : Int) :
    (completionPacket pkt error data).length = Transport.size + tlpDataLength pkt * 4 := by
  have filled := length_onTlp (fun tlp => overwrite tlp PcieTlp.cData data) (completionHeader pkt)
    (fun _ => length_overwrite _ _ _)
  rw [length_completionHeader] at filled
  simp only [completionPacket]
  split
  · rw [length_onTlp dropData _ (fun _ => Field.length_set _ _ _), filled]
  · exact filled

theorem long_completionHeader : 3 ≤ (completionHeader pkt).length := by
  rw [length_completionHeader, Transport.size]
  omega

theorem drop_completionPacket (error : Int) :
    (completionPacket pkt error data).drop Transport.tTlp =
      if error ≠ 0 then dropData (filledTlp pkt data) else filledTlp pkt data := by
  have filled :=
    drop_onTlp (fun tlp => overwrite tlp PcieTlp.cData data) (long_completionHeader pkt)
  simp only [completionPacket]
  split
  · rw [drop_onTlp, filled]
    · rfl
    · rw [length_onTlp _ _ (fun _ => length_overwrite _ _ _)]
      exact long_completionHeader pkt
  · exact filled

theorem tProto_completionPacket (error : Int) :
    Transport.tProto.get (completionPacket pkt error data) = PcieProto.tlp.code := by
  have filled :=
    tProto_onTlp (fun tlp => overwrite tlp PcieTlp.cData data) (long_completionHeader pkt)
  rw [tProto_completionHeader] at filled
  simp only [completionPacket]
  split
  · rw [tProto_onTlp, filled]
    rw [length_onTlp _ _ (fun _ => length_overwrite _ _ _)]
    exact long_completionHeader pkt
  · exact filled

theorem length_filledTlp : (filledTlp pkt data).length = 20 + tlpDataLength pkt * 4 := by
  rw [filledTlp, length_overwrite, length_completionTlp]

theorem tlpFmt_dropData : PcieTlp.tlpFmt.get (dropData (filledTlp pkt data)) = 0 := by
  have long := length_filledTlp pkt data
  rw [dropData, Field.get_set_same (show 0 < _ by omega) (by decide),
    (completionFields_filledTlp pkt data).fmt]
  rfl

theorem completionPacket_total (error : Int) :
    tlpTotalLength ((completionPacket pkt error data).drop Transport.tTlp) =
      if error ≠ 0 then 12 else 12 + 4 * tlpDataLength pkt := by
  rw [drop_completionPacket]
  split
  · have fmt := tlpFmt_dropData pkt data
    have cases := tlpTotalLength_cases (dropData (filledTlp pkt data))
    omega
  · exact (completionFields_filledTlp pkt data).total

theorem tlpBlock_completionPacket (error : Int) : TlpBlock (completionPacket pkt error data) := by
  have total := completionPacket_total pkt data error
  have length := length_completionPacket pkt data error
  simp only [Transport.size] at length
  refine ⟨tProto_completionPacket pkt data error, ?_, ?_⟩
  · rw [total]
    split <;> omega
  · rw [total, length, headerSize, PcieDllp.size]
    split <;> omega

end

theorem isCompletion_completionPacket {pkt : Bytes} {type : PcieTlpType} {addr : BitVec 64}
    {tag : Nat} {data : Bytes} (read : IsRead pkt type addr data.length tag)
    (short : data.length ≤ 4095) :
    IsCompletion ((completionPacket pkt 0 data).drop Transport.tTlp) tag data := by
  have fields := completionFields_filledTlp pkt data
  have dwords := read.dwords
  have start : PcieTlp.cData = 12 := rfl
  rw [drop_completionPacket, if_neg (by decide)]
  refine ⟨?_, fields.tag.trans read.tag, ?_, ?_⟩
  · rw [tlpTypeOf, fields.fmt, fields.type]
    rfl
  · rw [fields.countHi, fields.countLo, read.bytes, lengthField_eq _ _ (by omega),
      Int.shiftRight_eq_div_pow]
    omega
  · apply slice_overwrite
    rw [length_completionTlp]
    omega

theorem isFailure_completionPacket {pkt : Bytes} {type : PcieTlpType} {addr : BitVec 64}
    {length tag : Nat} (read : IsRead pkt type addr length tag) {error : Int} (failed : error ≠ 0)
    (data : Bytes) : IsFailure ((completionPacket pkt error data).drop Transport.tTlp) tag := by
  have fields := completionFields_filledTlp pkt data
  rw [drop_completionPacket, if_pos failed]
  refine ⟨?_, ?_⟩
  · rw [tlpTypeOf, tlpFmt_dropData, dropData,
      Field.get_set_disjoint (by decide) (by decide), fields.type]
    rfl
  · rw [dropData, Field.get_set_disjoint (by decide) (by decide), fields.tag, read.tag]

end WarpPipe
