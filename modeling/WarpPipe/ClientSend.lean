import WarpPipe.Packets

/-!
What the sending half of the client does: each function that sends reduces to pushing one sealed
packet into the socket.
-/

namespace WarpPipe

open ByteLayout

variable {σ : Type}

/-- Hand one packet to the socket. A short or failed `send` deactivates the client. -/
def push (world : World σ) (packet : Bytes) : Int × World σ :=
  let count := (world.sock.send packet).1
  let next := { world with sock := (world.sock.send packet).2 }.emit (.sent packet count)
  if count = packet.length then (count, next) else (-1, next.deactivate)

@[simp] theorem push_log (world : World σ) (packet : Bytes) :
    (push world packet).2.log = world.log ++ [.sent packet (world.sock.send packet).1] := by
  simp only [push]
  split <;> rfl

@[simp] theorem push_app (world : World σ) (packet : Bytes) :
    (push world packet).2.app = world.app := by
  simp only [push]
  split <;> rfl

@[simp] theorem push_sock (world : World σ) (packet : Bytes) :
    (push world packet).2.sock = (world.sock.send packet).2 := by
  simp only [push]
  split <;> rfl

theorem push_client (world : World σ) (packet : Bytes) :
    (push world packet).2.client =
      if (world.sock.send packet).1 = packet.length then world.client
      else { world.client with active := false } := by
  simp only [push]
  split <;> rfl

theorem push_failed_iff (world : World σ) (packet : Bytes) :
    (push world packet).1 = -1 ↔ (world.sock.send packet).1 ≠ packet.length := by
  simp only [push]
  split
  · rename_i full
    simp only [full, ne_eq, not_true, iff_false]
    omega
  · rename_i cut
    simp [cut]

theorem send_incoming (sock : Socket) (packet : Bytes) :
    (sock.send packet).2.incoming = sock.incoming ∧ (sock.send packet).2.recvs = sock.recvs := by
  simp only [Socket.send]
  split <;> exact ⟨rfl, rfl⟩

theorem transmit_eq (world : World σ) (tport : Bytes) (packetLength : Nat)
    (fits : packetLength ≤ tport.length) :
    transmit world tport packetLength = .ok (push world (tport.take packetLength)) := by
  have length : ((tport.take packetLength).length : Int) = packetLength := by
    rw [List.length_take, Nat.min_eq_left fits]
  simp only [transmit, Int.toNat_natCast, fits, if_true, push, length]
  by_cases full : (world.sock.send (tport.take packetLength)).1 = packetLength
  · simp [full]
  · simp [full]

def bumpSeqno (world : World σ) : World σ :=
  { world with client := { world.client with seqno := world.client.seqno + 1 } }

theorem onUnion_comp (first second : Bytes → Bytes) {tport : Bytes} (long : 1 ≤ tport.length) :
    onUnion second (onUnion first tport) = onUnion (fun pkt => second (first pkt)) tport := by
  have taken : (tport.take Transport.tUnion).length = Transport.tUnion := by
    simpa [Transport.tUnion] using long
  rw [onUnion, drop_onUnion _ long, onUnion, onUnion, List.take_append_of_le_length
    (Nat.le_of_eq taken.symm), List.take_take, Nat.min_self]

theorem TlpBlock.take_onUnion {tport : Bytes} (block : TlpBlock tport) (seqno : BitVec 32) :
    (onUnion (fun pkt => pcieLcrc32 (setSeqno seqno pkt)) tport).take
      (headerSize + tlpTotalLength (tport.drop Transport.tTlp)).toNat = sealTlp seqno tport := by
  have offset := block.lcrcOffset_setSeqno seqno
  have room := block.room
  have long := block.long
  have known := block.known
  simp only [headerSize, PcieDllp.size] at room ⊢
  have taken : (tport.take Transport.tUnion).length = 1 := by
    simp only [List.length_take, Transport.tUnion]
    omega
  have fits : lcrcOffset (setSeqno seqno (tport.drop Transport.tUnion)) +
      (tlpChecksum (setSeqno seqno (tport.drop Transport.tUnion))).length ≤
        (setSeqno seqno (tport.drop Transport.tUnion)).length := by
    simp only [length_tlpChecksum, length_setSeqno, List.length_drop, Transport.tUnion] at *
    omega
  have through := take_overwrite_through _ _ _ fits
  rw [length_tlpChecksum] at through
  rw [onUnion, sealTlp, List.take_append, taken, List.take_of_length_le (by omega)]
  congr 1
  rw [← through, pcieLcrc32]
  congr 1
  omega

theorem clientSend_tlp (world : World σ) {tport : Bytes} (block : TlpBlock tport) :
    clientSendPcieTransport world tport =
      .ok (push (bumpSeqno world) (sealTlp (world.client.seqno + 1) tport)) := by
  have long := block.long
  have room := block.room
  have known := block.known
  have offset := block.lcrcOffset_setSeqno (world.client.seqno + 1)
  have proto : PcieProto.ofCode? (Transport.tProto.get tport) = some .tlp := by
    rw [block.proto]
    rfl
  have inner := drop_onUnion (setSeqno (world.client.seqno + 1)) (show 1 ≤ tport.length by omega)
  have enough : lcrcOffset (setSeqno (world.client.seqno + 1) (tport.drop Transport.tUnion)) + 4 ≤
      (setSeqno (world.client.seqno + 1) (tport.drop Transport.tUnion)).length := by
    simp only [length_setSeqno, List.length_drop, Transport.tUnion, headerSize, PcieDllp.size] at *
    omega
  have sealed := block.take_onUnion (world.client.seqno + 1)
  -- the LCRC lies behind the header, so the length computed after it is the one before it
  have total : tlpTotalLength ((onUnion pcieLcrc32
      (onUnion (setSeqno (world.client.seqno + 1)) tport)).drop Transport.tTlp) =
        tlpTotalLength (tport.drop Transport.tTlp) := by
    rw [onUnion_comp _ _ (by omega)]
    apply tlpTotalLength_congr
    intro index bound
    have least := tlpTotalLength_ge known
    have start : Transport.tTlp = 3 := rfl
    rw [getByte_drop, getByte_drop,
      ← block.getByte_sealTlp (world.client.seqno + 1) _ (by omega) (Or.inr (by omega)), ← sealed,
      getByte_take (by simp only [headerSize, PcieDllp.size]; omega)]
  have length : (headerSize + tlpTotalLength (tport.drop Transport.tTlp)) =
      ((headerSize + tlpTotalLength (tport.drop Transport.tTlp)).toNat : Int) := by
    simp only [headerSize, PcieDllp.size]
    omega
  simp only [clientSendPcieTransport, proto, inner, enough, if_true, total]
  rw [onUnion_comp _ _ (by omega), length, transmit_eq, sealed]
  · rfl
  · rw [length_onUnion _ _ (by simp)]
    omega

theorem clientSend_dllp (world : World σ) {tport : Bytes}
    (proto : Transport.tProto.get tport = PcieProto.dllp.code)
    (long : headerSize ≤ tport.length) :
    clientSendPcieTransport world tport = .ok (push world (sealDllp tport)) := by
  have code : PcieProto.ofCode? (Transport.tProto.get tport) = some .dllp := by
    rw [proto]
    rfl
  simp only [clientSendPcieTransport, code]
  rw [transmit_eq]
  · rfl
  · rwa [length_onUnion _ _ length_pcieCrc16]

theorem warppipeAck_eq (world : World σ) (type : PcieDllpType) (seqno : Nat) :
    ∃ rc, warppipeAck world type seqno =
      .ok (rc, (push world (sealDllp (ackPacket type seqno))).2) := by
  have long : headerSize ≤ (ackPacket type seqno).length := by
    rw [length_ackPacket]
    decide
  simp only [warppipeAck, clientSend_dllp world (tProto_ackPacket type seqno) long]
  exact ⟨_, rfl⟩

theorem length_readRequest (tag : Fin 32) (type : PcieTlpType) :
    (readRequest tag type).length = Transport.size := by
  rw [readRequest, length_onTlp _ _ (by simp)]
  simp

def readBlock (tag : Fin 32) (type : PcieTlpType) (addr : BitVec 64) (length : Int) : Bytes :=
  onTlp (fun tlp => tlpReqSetAddr tlp addr length) (readRequest tag type)

theorem length_readBlock (tag : Fin 32) (type : PcieTlpType) (addr : BitVec 64) (length : Int) :
    (readBlock tag type addr length).length = Transport.size := by
  rw [readBlock, length_onTlp _ _ (by simp), length_readRequest]

def readHeader (tag : Fin 32) (type : PcieTlpType) : Bytes :=
  (readRequest tag type).drop Transport.tTlp

theorem length_readHeader (tag : Fin 32) (type : PcieTlpType) :
    (readHeader tag type).length = 20 := by
  rw [readHeader, List.length_drop, length_readRequest]
  rfl

theorem drop_readBlock (tag : Fin 32) (type : PcieTlpType) (addr : BitVec 64) (length : Int) :
    (readBlock tag type addr length).drop Transport.tTlp =
      tlpReqSetAddr (readHeader tag type) addr length := by
  rw [readBlock, drop_onTlp _ (by rw [length_readRequest]; decide), readHeader]

theorem readHeader_fields (tag : Fin 32) (type : PcieTlpType) :
    PcieTlp.tlpFmt.get (readHeader tag type) = type.code >>> 5 ∧
      PcieTlp.tlpType.get (readHeader tag type) = type.code &&& 0x1f ∧
      PcieTlp.rTag.get (readHeader tag type) = tag.val := by
  have small : type.code >>> 5 < 8 ∧ type.code &&& 0x1f < 32 := by cases type <;> decide
  rw [readHeader, readRequest, drop_onTlp _ (by simp [Transport.size])]
  refine ⟨?_, ?_, ?_⟩
  · rw [Field.get_set_disjoint (by decide) (by decide),
      Field.get_set_disjoint (by decide) (by decide),
      Field.get_set_same (by simp [Transport.size]; decide) (by decide)]
    exact Nat.mod_eq_of_lt small.1
  · rw [Field.get_set_disjoint (by decide) (by decide),
      Field.get_set_same (by simp [Transport.size]; decide) (by decide)]
    exact Nat.mod_eq_of_lt small.2
  · rw [Field.get_set_same (by simp [Transport.size]; decide) (by decide)]
    exact Nat.mod_eq_of_lt (Nat.lt_of_lt_of_le tag.isLt (by decide))

theorem tProto_readBlock (tag : Fin 32) (type : PcieTlpType) (addr : BitVec 64) (length : Int) :
    Transport.tProto.get (readBlock tag type addr length) = PcieProto.tlp.code := by
  rw [readBlock, tProto_onTlp _ (by rw [length_readRequest]; decide), readRequest,
    tProto_onTlp _ (by simp [Transport.size])]
  rfl

def ReadType (type : PcieTlpType) : Prop := type = .mrd64 ∨ type = .cr0

theorem readBlock_total {type : PcieTlpType} (isRead : ReadType type) (tag : Fin 32)
    (addr : BitVec 64) (length : Int) :
    tlpTotalLength ((readBlock tag type addr length).drop Transport.tTlp) =
      if addr.toNat < 2 ^ 32 then 12 else 16 := by
  have fmt := tlpFmt_tlpReqSetAddr (readHeader tag type) addr length
    (by rw [length_readHeader]; decide)
  rw [(readHeader_fields tag type).1] at fmt
  rw [drop_readBlock]
  have cases := tlpTotalLength_cases (tlpReqSetAddr (readHeader tag type) addr length)
  by_cases low : addr.toNat < 2 ^ 32
  · have zero : type.code >>> 5 &&& 6 = 0 := by rcases isRead with rfl | rfl <;> rfl
    rw [if_pos low, zero] at fmt
    rw [if_pos low]
    omega
  · have one : type.code >>> 5 ||| 1 = 1 := by rcases isRead with rfl | rfl <;> rfl
    rw [if_neg low, one] at fmt
    rw [if_neg low]
    omega

theorem tlpBlock_readBlock {type : PcieTlpType} (isRead : ReadType type) (tag : Fin 32)
    (addr : BitVec 64) (length : Int) : TlpBlock (readBlock tag type addr length) := by
  have total := readBlock_total isRead tag addr length
  have header : headerSize = 7 := rfl
  have size : Transport.size = 23 := rfl
  refine ⟨tProto_readBlock tag type addr length, ?_, ?_⟩
  · rw [total]
    split <;> decide
  · rw [total, length_readBlock]
    split <;> decide

def readPacketOf (world : World σ) (type : PcieTlpType) (addr : BitVec 64) (length : Int) : Bytes :=
  sealTlp (world.client.seqno + 1) (readBlock world.client.readTag type addr length)

def bumpTag (world : World σ) : World σ :=
  { world with client := { world.client with readTag := world.client.readTag + 1 } }

def storeSlot (world : World σ) (tag : Fin 32) (cb : Option FnPtr) : World σ :=
  { world with client := { world.client with
    completionCb := Function.update world.client.completionCb tag cb } }.emit (.stored tag cb)

def afterRead (world : World σ) (type : PcieTlpType) (addr : BitVec 64) (length : Int)
    (cb : Option FnPtr) : Int × World σ :=
  let sent := push (bumpSeqno (bumpTag world)) (readPacketOf world type addr length)
  if sent.1 = -1 then (-1, sent.2) else (0, storeSlot sent.2 world.client.readTag cb)

theorem warppipeReadImp_eq (world : World σ) {type : PcieTlpType} (isRead : ReadType type)
    (addr : BitVec 64) (length : Int) (cb : Option FnPtr) :
    warppipeReadImp world addr length cb type = .ok (afterRead world type addr length cb) := by
  have sent := clientSend_tlp (bumpTag world)
    (tlpBlock_readBlock isRead world.client.readTag addr length)
  simp only [warppipeReadImp]
  change (clientSendPcieTransport (bumpTag world)
    (readBlock world.client.readTag type addr length) >>= _) = _
  rw [sent]
  by_cases failed : (push (bumpSeqno (bumpTag world)) (readPacketOf world type addr length)).1 = -1
  · simp only [bind, Except.bind, afterRead, failed, if_true]
    exact if_pos failed
  · simp only [bind, Except.bind, afterRead, failed, if_false]
    exact if_neg failed

def WriteType (type : PcieTlpType) : Prop := type = .mwr64 ∨ type = .cw0

def writeHeader (junk : Nat → Byte) (addr : BitVec 64) (length : Int) (type : PcieTlpType) :
    Bytes :=
  PcieTlp.tlpType.set (type.code &&& 0x1f) (PcieTlp.tlpFmt.set (type.code >>> 5)
    ((Transport.tProto.set PcieProto.tlp.code
      ((List.range (writeAllocation (addr &&& 3).toNat length)).map junk)).drop Transport.tTlp))

section

variable (junk : Nat → Byte) (addr : BitVec 64) (length : Int) (type : PcieTlpType)

theorem writeAllocation_ge (align : Nat) : Transport.size ≤ writeAllocation align length :=
  Nat.le_add_right _ _

theorem length_writeHeader :
    (writeHeader junk addr length type).length = writeAllocation (addr &&& 3).toNat length - 3 := by
  simp [writeHeader, Transport.tTlp, Transport.tUnion, PcieDltlp.dlTlp]

theorem long_writeHeader : 20 ≤ (writeHeader junk addr length type).length := by
  have least := writeAllocation_ge length (addr &&& 3).toNat
  rw [length_writeHeader]
  simp only [Transport.size] at least
  omega

theorem length_writeRequest :
    (writeRequest junk addr length type).length = writeAllocation (addr &&& 3).toNat length := by
  rw [writeRequest, length_onTlp _ _ (by simp)]
  simp

theorem drop_writeRequest :
    (writeRequest junk addr length type).drop Transport.tTlp =
      tlpReqSetAddr (writeHeader junk addr length type) addr length := by
  have least := writeAllocation_ge length (addr &&& 3).toNat
  simp only [Transport.size] at least
  rw [writeRequest, drop_onTlp]
  · rfl
  · simp only [Field.length_set, List.length_map, List.length_range]
    omega

theorem writeHeader_fields :
    PcieTlp.tlpFmt.get (writeHeader junk addr length type) = type.code >>> 5 ∧
      PcieTlp.tlpType.get (writeHeader junk addr length type) = type.code &&& 0x1f := by
  have long := long_writeHeader junk addr length type
  simp only [writeHeader, Field.length_set] at long
  have small : type.code >>> 5 < 8 ∧ type.code &&& 0x1f < 32 := by cases type <;> decide
  constructor
  · rw [writeHeader, Field.get_set_disjoint (by decide) (by decide),
      Field.get_set_same (Nat.lt_of_lt_of_le (by decide) long) (by decide)]
    exact Nat.mod_eq_of_lt small.1
  · rw [writeHeader, Field.get_set_same _ (by decide)]
    · exact Nat.mod_eq_of_lt small.2
    · simpa using Nat.lt_of_lt_of_le (by decide) long

theorem tProto_writeRequest :
    Transport.tProto.get (writeRequest junk addr length type) = PcieProto.tlp.code := by
  have least := writeAllocation_ge length (addr &&& 3).toNat
  simp only [Transport.size] at least
  rw [writeRequest, tProto_onTlp, Field.get_set_same _ (by decide)]
  · rfl
  · simp only [List.length_map, List.length_range, Transport.tProto]
    omega
  · simp only [Field.length_set, List.length_map, List.length_range]
    omega

end

def writeBlock (junk : Nat → Byte) (addr : BitVec 64) (data : Bytes) (type : PcieTlpType) : Bytes :=
  let tport := writeRequest junk addr data.length type
  overwrite tport
    (Transport.tTlp + payloadOffset (tport.drop Transport.tTlp) + (addr &&& 3).toNat) data

section

variable (junk : Nat → Byte) (addr : BitVec 64) (data : Bytes) {type : PcieTlpType}

theorem length_writeBlock :
    (writeBlock junk addr data type).length = writeAllocation (addr &&& 3).toNat data.length := by
  rw [writeBlock, length_overwrite, length_writeRequest]

theorem writeAllocation_eq :
    writeAllocation (addr &&& 3).toNat data.length =
      23 + 4 * ((addr.toNat % 4 + data.length + 3) / 4) := by
  rw [writeAllocation, toNat_and_three, Transport.size]
  omega

theorem payloadOffset_writeRequest (isWrite : WriteType type) (length : Int) :
    payloadOffset ((writeRequest junk addr length type).drop Transport.tTlp) =
      if addr.toNat < 2 ^ 32 then 12 else 16 := by
  have fmt := tlpFmt_tlpReqSetAddr (writeHeader junk addr length type) addr length
    (Nat.le_trans (by decide) (long_writeHeader junk addr length type))
  rw [(writeHeader_fields junk addr length type).1] at fmt
  rw [drop_writeRequest, payloadOffset, fmt]
  rcases isWrite with rfl | rfl <;> split <;> rfl

theorem payload_fits (isWrite : WriteType type) :
    Transport.tTlp + payloadOffset ((writeRequest junk addr data.length type).drop Transport.tTlp) +
      (addr &&& 3).toNat + data.length ≤ (writeRequest junk addr data.length type).length := by
  rw [length_writeRequest, writeAllocation_eq, payloadOffset_writeRequest junk addr isWrite,
    toNat_and_three, show Transport.tTlp = 3 from rfl]
  split <;> omega

theorem slice_writeBlock (isWrite : WriteType type) :
    slice ((writeBlock junk addr data type).drop Transport.tTlp)
      ((if addr.toNat < 2 ^ 32 then 12 else 16) + addr.toNat % 4) data.length = data := by
  have window := slice_overwrite _ data _ (payload_fits junk addr data isWrite)
  have start := payloadOffset_writeRequest junk addr isWrite data.length
  rw [start, toNat_and_three] at window
  rw [slice, List.drop_drop, writeBlock, start, toNat_and_three]
  simpa only [slice, ← Nat.add_assoc] using window

theorem getByte_writeBlock_header (isWrite : WriteType type) (index : Nat)
    (header : index < 15 ∨ (2 ^ 32 ≤ addr.toNat ∧ index < 19)) :
    getByte (writeBlock junk addr data type) index =
      getByte (writeRequest junk addr data.length type) index := by
  have fits := payload_fits junk addr data isWrite
  rw [writeBlock, getByte_overwrite_outside fits]
  left
  rw [payloadOffset_writeRequest junk addr isWrite, show Transport.tTlp = 3 from rfl]
  split <;> omega

theorem agree_writeBlock (isWrite : WriteType type) :
    AgreeBelow 12 ((writeBlock junk addr data type).drop Transport.tTlp)
      (tlpReqSetAddr (writeHeader junk addr data.length type) addr data.length) := by
  intro index bound
  rw [← drop_writeRequest, getByte_drop, getByte_drop]
  exact getByte_writeBlock_header junk addr data isWrite _
    (Or.inl (by simp only [Transport.tTlp, Transport.tUnion, PcieDltlp.dlTlp]; omega))

theorem writeBlock_total (isWrite : WriteType type) :
    tlpTotalLength ((writeBlock junk addr data type).drop Transport.tTlp) =
      (if addr.toNat < 2 ^ 32 then 12 else 16) +
        4 * (((addr.toNat % 4 + data.length + 3) / 4 + 1023) % 1024 + 1) := by
  have long : 16 ≤ (writeHeader junk addr data.length type).length :=
    Nat.le_trans (by decide) (long_writeHeader junk addr data.length type)
  have fmt := tlpFmt_tlpReqSetAddr (writeHeader junk addr data.length type) addr data.length long
  rw [(writeHeader_fields junk addr data.length type).1] at fmt
  have dwords := tlpDataLength_tlpReqSetAddr (writeHeader junk addr data.length type) addr
    data.length long
  rw [tlpTotalLength_congr ((agree_writeBlock junk addr data isWrite).mono (by decide))]
  have cases := tlpTotalLength_cases
    (tlpReqSetAddr (writeHeader junk addr data.length type) addr data.length)
  by_cases low : addr.toNat < 2 ^ 32
  · have two : type.code >>> 5 &&& 6 = 2 := by rcases isWrite with rfl | rfl <;> rfl
    rw [if_pos low, two] at fmt
    rw [if_pos low]
    omega
  · have three : type.code >>> 5 ||| 1 = 3 := by rcases isWrite with rfl | rfl <;> rfl
    rw [if_neg low, three] at fmt
    rw [if_neg low]
    omega

theorem tlpBlock_writeBlock (isWrite : WriteType type)
    (nonempty : 1 ≤ addr.toNat % 4 + data.length) : TlpBlock (writeBlock junk addr data type) := by
  have total := writeBlock_total junk addr data isWrite
  refine ⟨?_, ?_, ?_⟩
  · rw [Field.get_congr (getByte_writeBlock_header junk addr data isWrite 0 (Or.inl (by decide))),
      tProto_writeRequest]
  · rw [total]
    split <;> omega
  · rw [total, length_writeBlock, writeAllocation_eq, show headerSize = 7 from rfl]
    split <;> omega

end

def afterWrite (world : World σ) (junk : Nat → Byte) (type : PcieTlpType) (addr : BitVec 64)
    (data : Bytes) : Int × World σ :=
  let sent := push (bumpSeqno world)
    (sealTlp (world.client.seqno + 1) (writeBlock junk addr data type))
  (if sent.1 > 0 then 0 else sent.1, sent.2)

/-- `warppipe_write_imp` pushes one packet for every request it can encode. The only one that
overruns its block is the empty write to an aligned address. -/
theorem warppipeWriteImp_eq (world : World σ) (junk : Nat → Byte) {type : PcieTlpType}
    (isWrite : WriteType type) (addr : BitVec 64) (data : Bytes) (length : Nat)
    (available : length ≤ data.length) (nonempty : 1 ≤ addr.toNat % 4 + length) :
    warppipeWriteImp world junk addr data length type =
      .ok (afterWrite world junk type addr (data.take length)) := by
  have taken : (data.take length).length = length := by
    rw [List.length_take, Nat.min_eq_left available]
  have fits := payload_fits junk addr (data.take length) isWrite
  have block :=
    tlpBlock_writeBlock junk addr (data.take length) isWrite (by rw [taken]; exact nonempty)
  have sent := clientSend_tlp world block
  rw [writeBlock] at sent
  rw [taken] at fits sent
  have allowed : 0 ≤ (length : Int) ∧ (length : Int) ≤ data.length ∧
      ((Transport.tTlp + payloadOffset ((writeRequest junk addr length type).drop Transport.tTlp) +
        (addr &&& 3).toNat : Nat) : Int) + length ≤
          (writeRequest junk addr length type).length := by
    omega
  simp only [warppipeWriteImp, allowed, and_self, if_true, Int.toNat_natCast, sent, afterWrite,
    writeBlock, taken]
  rfl

end WarpPipe
