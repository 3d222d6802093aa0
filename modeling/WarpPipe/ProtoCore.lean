import WarpPipe.Library.BitField

/-!
The wire structures of `inc/warppipe/proto.h` and the functions of `src/proto.c`. A structure is
the buffer of its bytes; its members are bit-fields of that buffer, laid out as the little-endian
branch of the header lays them out.
-/

namespace WarpPipe

open ByteLayout

inductive PcieProto where
  | dllp
  | tlp
  deriving DecidableEq, Repr

def PcieProto.code : PcieProto → Nat
  | .dllp => 2
  | .tlp => 3

def PcieProto.ofCode? (code : Nat) : Option PcieProto :=
  [PcieProto.dllp, .tlp].find? fun proto => proto.code = code

inductive PcieDllpType where
  | ack
  | nak
  | nop
  deriving DecidableEq, Repr

def PcieDllpType.code : PcieDllpType → Nat
  | .ack => 0x00
  | .nak => 0x10
  | .nop => 0x31

-- `enum pcie_tlp_fmt` is a set of flags.
def pcieTlpFmt4dw : Nat := 1
def pcieTlpFmtData : Nat := 2
def pcieTlpFmt3dwNodata : Nat := 0
def pcieTlpFmt4dwNodata : Nat := 1
def pcieTlpFmt3dwData : Nat := 2
def pcieTlpFmt4dwData : Nat := 3

inductive PcieTlpType where
  | mrd32
  | mrd64
  | mrdlk32
  | mrdlk64
  | mwr32
  | mwr64
  | iord
  | iowr
  | cpl
  | cpld
  | cr0
  | cw0
  | cr1
  | cw1
  deriving DecidableEq, Repr

def PcieTlpType.code : PcieTlpType → Nat
  | .mrd32 => pcieTlpFmt3dwNodata <<< 5 ||| 0x00
  | .mrd64 => pcieTlpFmt4dwNodata <<< 5 ||| 0x00
  | .mrdlk32 => pcieTlpFmt3dwNodata <<< 5 ||| 0x01
  | .mrdlk64 => pcieTlpFmt4dwNodata <<< 5 ||| 0x01
  | .mwr32 => pcieTlpFmt3dwData <<< 5 ||| 0x00
  | .mwr64 => pcieTlpFmt4dwData <<< 5 ||| 0x00
  | .iord => pcieTlpFmt3dwNodata <<< 5 ||| 0x02
  | .iowr => pcieTlpFmt3dwData <<< 5 ||| 0x02
  | .cpl => pcieTlpFmt3dwNodata <<< 5 ||| 0x0a
  | .cpld => pcieTlpFmt3dwData <<< 5 ||| 0x0a
  | .cr0 => pcieTlpFmt3dwNodata <<< 5 ||| 0x04
  | .cw0 => pcieTlpFmt3dwData <<< 5 ||| 0x04
  | .cr1 => pcieTlpFmt3dwNodata <<< 5 ||| 0x05
  | .cw1 => pcieTlpFmt3dwData <<< 5 ||| 0x05

def PcieTlpType.all : List PcieTlpType :=
  [.mrd32, .mrd64, .mrdlk32, .mrdlk64, .mwr32, .mwr64, .iord, .iowr, .cpl, .cpld, .cr0, .cw0,
    .cr1, .cw1]

def PcieTlpType.ofCode? (code : Nat) : Option PcieTlpType :=
  PcieTlpType.all.find? fun type => type.code = code

-- `struct pcie_tlp`, 16 bytes without data. The request and the completion form share the bytes
-- from offset 4 on.
namespace PcieTlp

def tlpType : Field := ⟨0, 0, 5⟩
def tlpFmt : Field := ⟨0, 5, 3⟩
def tlpLengthHi : Field := ⟨2, 0, 2⟩
def tlpLengthLo : Field := ⟨3, 0, 8⟩
def rTag : Field := ⟨6, 0, 8⟩
def rFirstBe : Field := ⟨7, 0, 4⟩
def rLastBe : Field := ⟨7, 4, 4⟩
def cByteCountHi : Field := ⟨6, 0, 4⟩
def cByteCountLo : Field := ⟨7, 0, 8⟩
def cTag : Field := ⟨10, 0, 8⟩

def rAddress : Nat := 8
def rData32 : Nat := 12
def rData64 : Nat := 16
def cData : Nat := 12

end PcieTlp

-- `struct pcie_dllp`, 6 bytes.
namespace PcieDllp

def dlType : Field := ⟨0, 0, 8⟩
def dlNak : Field := ⟨0, 0, 8⟩
def dlSeqnoHi : Field := ⟨2, 0, 4⟩
def dlSeqnoLo : Field := ⟨3, 0, 8⟩
def fcRsvd1 : Field := ⟨0, 3, 1⟩
def fcType : Field := ⟨0, 6, 2⟩
def dlCrc16 : Nat := 4
def size : Nat := 6

end PcieDllp

-- `struct pcie_dltlp`: a sequence number in front of the TLP, the LCRC behind it.
namespace PcieDltlp

def dlSeqnoHi : Field := ⟨0, 0, 4⟩
def dlSeqnoLo : Field := ⟨1, 0, 8⟩
def dlTlp : Nat := 2

end PcieDltlp

-- `struct warppipe_pcie_transport`, 23 bytes without data.
namespace Transport

def tProto : Field := ⟨0, 0, 8⟩
/-- Offset of the union of `t_dllp` and `t_tlp`. -/
def tUnion : Nat := 1
/-- Offset of `t_tlp.dl_tlp`. -/
def tTlp : Nat := tUnion + PcieDltlp.dlTlp
def size : Nat := 23

end Transport

/-- The bytes of a packet that `warppipe_client_read` asks for first: `t_proto` and `t_dllp`. -/
def headerSize : Nat := 1 + PcieDllp.size

def clientMaxPacketDataSize : Nat := 4096
def clientMaxPacketHeaderSize : Nat := 21
def clientBufferSize : Nat := clientMaxPacketDataSize + clientMaxPacketHeaderSize

/-- `tlp_data_length`, in double words. Masking the two's complement of `data_len - 1` is a
remainder, so that a length field of 0 means 1024. -/
def tlpDataLength (pkt : Bytes) : Nat :=
  let dataLen := PcieTlp.tlpLengthHi.get pkt <<< 8 ||| PcieTlp.tlpLengthLo.get pkt
  (((dataLen : Int) - 1) % 0x400).toNat + 1

def trimLast (lastBe : Nat) (dataLenBytes : Int) : Int :=
  if lastBe &&& 8 ≠ 0 then dataLenBytes
  else if lastBe &&& 4 ≠ 0 then dataLenBytes - 1
  else if lastBe &&& 2 ≠ 0 then dataLenBytes - 2
  else if lastBe &&& 1 ≠ 0 then dataLenBytes - 3
  else -1

def enabledBytes (dwords firstBe lastBe : Nat) : Int :=
  let dataLenBytes : Int := dwords * 4
  let lastBe := if dataLenBytes = 4 then firstBe else lastBe
  if firstBe &&& 1 ≠ 0 then trimLast lastBe dataLenBytes
  else if firstBe &&& 2 ≠ 0 then trimLast lastBe (dataLenBytes - 1)
  else if firstBe &&& 4 ≠ 0 then trimLast lastBe (dataLenBytes - 2)
  else if firstBe &&& 8 ≠ 0 then trimLast lastBe (dataLenBytes - 3)
  else if dataLenBytes = 4 then 0
  else -1

def tlpDataLengthBytes (pkt : Bytes) : Int :=
  enabledBytes (tlpDataLength pkt) (PcieTlp.rFirstBe.get pkt) (PcieTlp.rLastBe.get pkt)

def tlpTotalLength (pkt : Bytes) : Int :=
  let dataLen := tlpDataLength pkt
  let fmt := PcieTlp.tlpFmt.get pkt
  if fmt = pcieTlpFmt3dwNodata then (3 + 0) * 4
  else if fmt = pcieTlpFmt3dwData then (3 + dataLen) * 4
  else if fmt = pcieTlpFmt4dwNodata then (4 + 0) * 4
  else if fmt = pcieTlpFmt4dwData then (4 + dataLen) * 4
  else -1

def byteEnables (align : Nat) (length : Int) : Nat × Nat :=
  let lengthWithAlign := length + align
  let firstBe := (0xf <<< align) % 16
  let lastBe := 0xf >>> ((-lengthWithAlign) % 4).toNat
  let (firstBe, lastBe) := if lengthWithAlign ≤ 4 then (firstBe &&& lastBe, 0)
    else (firstBe, lastBe)
  if length = 0 then (0, lastBe) else (firstBe, lastBe)

/-- The byte enables and the length of a request: `tlp_req_set_addr` up to the length fields. The
special case for zero-length accesses assigns `length = 4`, but the next statement overwrites it,
so only its byte enables remain. -/
def setExtent (pkt : Bytes) (align : Nat) (length : Int) : Bytes :=
  let pkt := PcieTlp.rFirstBe.set (byteEnables align length).1 pkt
  let pkt := PcieTlp.rLastBe.set (byteEnables align length).2 pkt
  let dwords := (length + align + 4 - 1).tdiv 4
  let pkt := PcieTlp.tlpLengthHi.set ((dwords >>> (8 : Nat)) % 4).toNat pkt
  PcieTlp.tlpLengthLo.set (dwords % 256).toNat pkt

def setAddress (pkt : Bytes) (addr : BitVec 64) : Bytes :=
  let fmt := PcieTlp.tlpFmt.get pkt
  if addr < 0x100000000 then
    overwrite (PcieTlp.tlpFmt.set (fmt &&& (7 ^^^ pcieTlpFmt4dw)) pkt) PcieTlp.rAddress
      (bigEndian 4 addr)
  else
    overwrite (PcieTlp.tlpFmt.set (fmt ||| pcieTlpFmt4dw) pkt) PcieTlp.rAddress (bigEndian 8 addr)

def tlpReqSetAddr (pkt : Bytes) (addr : BitVec 64) (length : Int) : Bytes :=
  setAddress (setExtent pkt (addr &&& 3).toNat length) (addr &&& ~~~3)

def tlpReqGetAddr (pkt : Bytes) : BitVec 64 :=
  let count := if PcieTlp.tlpFmt.get pkt &&& pcieTlpFmt4dw ≠ 0 then 8 else 4
  ofBigEndian 64 count (pkt.drop PcieTlp.rAddress)

/-- The `enum pcie_tlp_type` of a packet: `tlp_fmt << 5 | tlp_type`. -/
def tlpTypeOf (pkt : Bytes) : Option PcieTlpType :=
  PcieTlpType.ofCode? (PcieTlp.tlpFmt.get pkt <<< 5 ||| PcieTlp.tlpType.get pkt)

def firstEnabled (firstBe : Nat) : Nat :=
  if firstBe &&& 7 = 0 then 3
  else if firstBe &&& 3 = 0 then 2
  else if firstBe &&& 1 = 0 then 1
  else 0

def firstByteOffset (pkt : Bytes) : Nat := firstEnabled (PcieTlp.rFirstBe.get pkt)

end WarpPipe
