import WarpPipe.Calls

/-!
The messages of the transaction layer, and what the client does when one of them arrives. A packet
that carries a message is handled as the message says, whatever else the bytes around it are.
-/

namespace WarpPipe

open ByteLayout

variable {σ : Type}

inductive Space where
  | memory
  | config0
  deriving DecidableEq, Repr

def Space.readType : Space → PcieTlpType
  | .memory => .mrd32
  | .config0 => .cr0

def Space.writeType : Space → PcieTlpType
  | .memory => .mwr32
  | .config0 => .cw0

inductive Message where
  | read (space : Space) (addr : BitVec 64) (length : Nat) (tag : Fin 32)
  | write (space : Space) (addr : BitVec 64) (data : Bytes)
  | completion (tag : Fin 32) (data : Bytes)
  | failure (tag : Fin 32)
  deriving DecidableEq, Repr

def Message.Is (pkt : Bytes) : Message → Prop
  | .read space addr length tag => IsRead pkt space.readType addr length tag
  | .write space addr data => IsWrite pkt space.writeType addr data
  | .completion tag data => IsCompletion pkt tag data
  | .failure tag => IsFailure pkt tag

def Message.extent : Message → Nat
  | .write _ addr data => 12 + addr.toNat % 4 + data.length
  | .completion _ data => 12 + data.length
  | .read .. | .failure _ => 12

theorem Message.Is.congr {left right : Bytes} {count : Nat} {message : Message}
    (holds : message.Is right) (agree : AgreeBelow count left right)
    (covers : message.extent ≤ count) (leftLong : count ≤ left.length)
    (rightLong : count ≤ right.length) : message.Is left := by
  cases message with
  | read => exact IsRead.congr (agree.mono covers) holds
  | write => exact IsWrite.congr agree holds covers leftLong rightLong
  | completion => exact IsCompletion.congr agree holds covers leftLong rightLong
  | failure => exact IsFailure.congr (agree.mono covers) holds

structure Carries (packet : Bytes) (message : Message) : Prop where
  complete : CompleteTlp packet
  crc : pcieLcrc32Valid (packet.drop Transport.tUnion) = true
  fits : packet.length ≤ clientBufferSize
  covers : message.extent + headerSize ≤ packet.length
  holds : message.Is (packet.drop Transport.tTlp)

theorem carries_sealTlp (seqno : BitVec 32) {tport : Bytes} (block : TlpBlock tport)
    {message : Message} (holds : message.Is (tport.drop Transport.tTlp))
    (covers : message.extent ≤ tlpTotalLength (tport.drop Transport.tTlp))
    (fits : headerSize + tlpTotalLength (tport.drop Transport.tTlp) ≤ clientBufferSize) :
    Carries (sealTlp seqno tport) message := by
  have length := block.length_sealTlp seqno
  have room := block.room
  have known := block.known
  have seven : headerSize = 7 := rfl
  have start : Transport.tTlp = 3 := rfl
  refine ⟨block.complete_sealTlp seqno, block.lcrc_sealTlp seqno, by omega, by omega, ?_⟩
  refine holds.congr (block.agree_sealTlp seqno) (by omega) ?_ ?_
  · rw [List.length_drop]
    omega
  · rw [List.length_drop]
    omega

def Space.readRequest : Space → PcieTlpType
  | .memory => .mrd64
  | .config0 => .cr0

def Space.writeRequest : Space → PcieTlpType
  | .memory => .mwr64
  | .config0 => .cw0

theorem Space.isRead (space : Space) : ReadType space.readRequest := by
  cases space
  · exact Or.inl rfl
  · exact Or.inr rfl

theorem Space.isWrite (space : Space) : WriteType space.writeRequest := by
  cases space
  · exact Or.inl rfl
  · exact Or.inr rfl

structure Encodable (addr : BitVec 64) (length : Nat) : Prop where
  low : addr.toNat < 2 ^ 32
  positive : 1 ≤ length
  fits : addr.toNat % 4 + length ≤ 4096

theorem carries_read (space : Space) (seqno : BitVec 32) (tag : Fin 32) {addr : BitVec 64}
    {length : Nat} (access : Encodable addr length) :
    Carries (sealTlp seqno (readBlock tag space.readRequest addr length))
      (.read space addr length tag) := by
  have total := readBlock_total space.isRead tag addr length
  rw [if_pos access.low] at total
  apply carries_sealTlp seqno (tlpBlock_readBlock space.isRead tag addr length)
  · have read :=
      isRead_readBlock space.isRead tag addr length access.low access.positive access.fits
    cases space <;> exact read
  · rw [total]
    rfl
  · rw [total]
    decide

theorem carries_write (space : Space) (seqno : BitVec 32) (junk : Nat → Byte) {addr : BitVec 64}
    {data : Bytes} (access : Encodable addr data.length) :
    Carries (sealTlp seqno (writeBlock junk addr data space.writeRequest))
      (.write space addr data) := by
  have positive := access.positive
  have fits := access.fits
  have total := writeBlock_total junk addr data space.isWrite
  rw [if_pos access.low] at total
  apply carries_sealTlp seqno (tlpBlock_writeBlock junk addr data space.isWrite (by omega))
  · have write := isWrite_writeBlock junk space.isWrite addr data access.low positive fits
    cases space <;> exact write
  · rw [total, Message.extent]
    omega
  · rw [total]
    simp only [headerSize, PcieDllp.size, clientBufferSize, clientMaxPacketDataSize,
      clientMaxPacketHeaderSize]
    omega

section

variable {pkt : Bytes} {space : Space} {addr : BitVec 64} {length : Nat} {tag : Fin 32}

theorem carries_completion (seqno : BitVec 32) {data : Bytes}
    (read : IsRead pkt space.readType addr data.length tag) (short : data.length ≤ 4095) :
    Carries (sealTlp seqno (completionPacket pkt 0 data)) (.completion tag data) := by
  have total := completionPacket_total pkt data 0
  rw [if_neg (by decide)] at total
  have dwords := read.dwords
  have limit := tlpDataLength_le pkt
  apply carries_sealTlp seqno (tlpBlock_completionPacket pkt data 0)
  · exact isCompletion_completionPacket read short
  · rw [total, Message.extent]
    omega
  · rw [total]
    simp only [headerSize, PcieDllp.size, clientBufferSize, clientMaxPacketDataSize,
      clientMaxPacketHeaderSize]
    omega

theorem carries_failure (seqno : BitVec 32) (read : IsRead pkt space.readType addr length tag)
    {error : Int} (failed : error ≠ 0) (data : Bytes) :
    Carries (sealTlp seqno (completionPacket pkt error data)) (.failure tag) := by
  have total := completionPacket_total pkt data error
  rw [if_pos failed] at total
  apply carries_sealTlp seqno (tlpBlock_completionPacket pkt data error)
  · exact isFailure_completionPacket read failed data
  · rw [total]
    rfl
  · rw [total]
    decide

end

def Client.readRoute (client : Client) (space : Space) (addr : BitVec 64) :
    Option FnPtr × BitVec 64 :=
  match space with
  | .memory => barTarget client client.barReadCb addr
  | .config0 => (client.cfg0ReadCb, addr)

def Client.writeRoute (client : Client) (space : Space) (addr : BitVec 64) :
    Option FnPtr × BitVec 64 :=
  match space with
  | .memory => barTarget client client.barWriteCb addr
  | .config0 => (client.cfg0WriteCb, addr)

def misalignment (addr : BitVec 64) : BitVec 64 := BitVec.ofNat 64 (addr.toNat % 4)

/-- Handling a TLP, said in terms of its message. Only the completion of a read still depends on
the bytes of the request. -/
def serve (cbs : Callbacks σ) (world : World σ) (pkt : Bytes) : Message → Outcome (World σ)
  | .read space addr length _ =>
    match world.client.readRoute space (addr &&& ~~~3) with
    | (none, _) => .ok world
    | (some cb, target) => do
      let (error, data, world) ← invokeRead cbs world cb (target + misalignment addr) length
      return (push (bumpSeqno world)
        (sealTlp (world.client.seqno + 1) (completionPacket pkt error data))).2
  | .write space addr data =>
    match world.client.writeRoute space (addr &&& ~~~3) with
    | (none, _) => .ok world
    | (some cb, target) => invokeWrite cbs world cb (target + misalignment addr) data data.length
  | .completion tag data =>
    match world.client.completionCb tag with
    | none => .ok world
    | some cb => do
      let world ← invokeCompletion cbs world tag cb 0 data data.length
      return clearSlot world tag
  | .failure _ => .ok world

section

variable (cbs : Callbacks σ) (world : World σ) {pkt : Bytes}

theorem handleTlp_read {space : Space} {addr : BitVec 64} {length tag : Nat} (index : Fin 32)
    (read : IsRead pkt space.readType addr length tag) :
    handleTlp cbs world pkt = serve cbs world pkt (.read space addr length index) := by
  have handled : handleTlp cbs world pkt = handleMemoryReadRequest cbs world pkt := by
    cases space <;> simp only [handleTlp, read.type, Space.readType]
  have target : readTarget world.client pkt = world.client.readRoute space (addr &&& ~~~3) := by
    cases space <;>
      simp only [readTarget, read.type, Space.readType, Client.readRoute, read.address]
  rw [handled, handleMemoryReadRequest, target, serve]
  cases world.client.readRoute space (addr &&& ~~~3) with
  | mk route target =>
      cases route with
      | none => rfl
      | some cb =>
          simp only [read.bytes, read.offset, misalignment, bind, Except.bind, pure, Except.pure]
          split
          · rfl
          · rw [clientSend_tlp _ (tlpBlock_completionPacket pkt _ _)]

theorem handleTlp_write {space : Space} {addr : BitVec 64} {data : Bytes}
    (write : IsWrite pkt space.writeType addr data) :
    handleTlp cbs world pkt = serve cbs world pkt (.write space addr data) := by
  have handled : handleTlp cbs world pkt = handleMemoryWriteRequest cbs world pkt := by
    cases space <;> simp only [handleTlp, write.type, Space.writeType]
  have target : writeTarget world.client pkt = world.client.writeRoute space (addr &&& ~~~3) := by
    cases space <;>
      simp only [writeTarget, write.type, Space.writeType, Client.writeRoute, write.address]
  have offset : payloadOffset pkt = PcieTlp.rData32 := by
    rw [payloadOffset, write.narrow]
    rfl
  rw [handled, handleMemoryWriteRequest, target, serve]
  cases world.client.writeRoute space (addr &&& ~~~3) with
  | mk route target =>
      cases route with
      | none => rfl
      | some cb =>
          simp only [write.bytes, write.offset, offset, Int.toNat_natCast,
            write.payload, misalignment]

theorem handleTlp_completion {tag : Fin 32} {data : Bytes}
    (completion : IsCompletion pkt tag data) :
    handleTlp cbs world pkt = serve cbs world pkt (.completion tag data) := by
  have bound : PcieTlp.cTag.get pkt < 32 := by
    rw [completion.tag]
    exact tag.isLt
  have slot : (⟨PcieTlp.cTag.get pkt, bound⟩ : Fin 32) = tag := Fin.ext completion.tag
  rw [handleTlp, completion.type]
  change handleCompletion cbs world pkt = _
  rw [handleCompletion, dif_pos bound, slot, completion.count, serve]
  dsimp only
  cases world.client.completionCb tag with
  | none => rfl
  | some cb =>
      exact congrArg (fun bytes => do
        let world ← invokeCompletion cbs world tag cb 0 bytes data.length
        return clearSlot world tag) completion.data

theorem handleTlp_serve {message : Message} (holds : message.Is pkt) :
    handleTlp cbs world pkt = serve cbs world pkt message := by
  cases message with
  | read space addr length tag => exact handleTlp_read cbs world tag holds
  | write space addr data => exact handleTlp_write cbs world holds
  | completion tag data => exact handleTlp_completion cbs world holds
  | failure tag => simp only [handleTlp, IsFailure.type holds, serve]

end

def World.acked (world : World σ) (packet rest : Bytes) (later : List RecvStep) : World σ :=
  (push (world.received packet rest later) (ackOf packet)).2

/-- One call of `warppipe_client_read` on a packet that carries a message acknowledges the packet
and serves the message. -/
theorem clientRead_serve (cbs : Callbacks σ) {world : World σ} {packet rest : Bytes}
    {later : List RecvStep} {message : Message} (arrives : Arrives world.sock packet rest later)
    (carries : Carries packet message) :
    ∃ pkt, message.Is pkt ∧
      warppipeClientRead cbs world = serve cbs (world.acked packet rest later) pkt message := by
  have holds : message.Is
      ((world.received packet rest later).client.buf.bytes.drop Transport.tTlp) := by
    have covers := carries.covers
    have fits := carries.fits
    have seven : headerSize = 7 := rfl
    have start : Transport.tTlp = 3 := rfl
    refine carries.holds.congr (arrives.agree_received.drop Transport.tTlp) (by omega) ?_ ?_
    · rw [List.length_drop, RecvBuffer.length_bytes]
      omega
    · rw [List.length_drop]
  refine ⟨_, holds, ?_⟩
  rw [clientRead_tlp arrives cbs carries.complete, if_pos carries.crc, handleTlp_serve cbs _ holds]
  rfl

end WarpPipe
