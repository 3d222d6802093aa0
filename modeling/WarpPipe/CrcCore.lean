import WarpPipe.ProtoCore

/-! The checksums of `src/crc.c`. -/

namespace WarpPipe

open ByteLayout

def dllpCrc16Poly : BitVec 32 := 0xd008
def tlpLcrc32Poly : BitVec 32 := 0xedb88320

/-- One turn of the inner loop of `crc32p`. -/
def crcShift (poly crc : BitVec 32) : BitVec 32 :=
  if crc &&& 1 ≠ 0 then (crc >>> 1) ^^^ poly else crc >>> 1

def crcByte (poly crc : BitVec 32) (byte : Byte) : BitVec 32 :=
  (crcShift poly)^[8] (crc ^^^ byte.setWidth 32)

def crc32p (data : Bytes) (init poly : BitVec 32) : BitVec 32 :=
  data.foldl (crcByte poly) init

def checksumBytes (count : Nat) (crc : BitVec 32) : Bytes :=
  (List.range count).map fun index => (crc >>> (8 * index)).setWidth 8

def dllpChecksum (pkt : Bytes) : Bytes :=
  checksumBytes 2 (~~~crc32p (pkt.take PcieDllp.dlCrc16) 0xffff dllpCrc16Poly)

def pcieCrc16 (pkt : Bytes) : Bytes :=
  overwrite pkt PcieDllp.dlCrc16 (dllpChecksum pkt)

def pcieCrc16Valid (pkt : Bytes) : Bool :=
  (List.range 2).all fun index =>
    getByte pkt (PcieDllp.dlCrc16 + index) == getByte (dllpChecksum pkt) index

def lcrcOffset (pkt : Bytes) : Nat :=
  (PcieDltlp.dlTlp + tlpTotalLength (pkt.drop PcieDltlp.dlTlp)).toNat

def tlpChecksum (pkt : Bytes) : Bytes :=
  checksumBytes 4 (~~~crc32p (pkt.take (lcrcOffset pkt)) 0xffffffff tlpLcrc32Poly)

def pcieLcrc32 (pkt : Bytes) : Bytes :=
  overwrite pkt (lcrcOffset pkt) (tlpChecksum pkt)

def pcieLcrc32Valid (pkt : Bytes) : Bool :=
  (List.range 4).all fun index =>
    getByte pkt (lcrcOffset pkt + index) == getByte (tlpChecksum pkt) index

end WarpPipe
