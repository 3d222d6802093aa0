import WarpPipe.ClientRuns

/-!
Framing. On a stream of well-formed packets each call of `warppipe_client_read` takes exactly one
packet, in whatever pieces its body arrives.
-/

namespace WarpPipe

open ByteLayout

variable {σ : Type}

def Event.packet? : Event → Option Bytes
  | .packet bytes => some bytes
  | _ => none

def receivedPackets (before after : World σ) : List Bytes :=
  (fresh before after).filterMap Event.packet?

structure Settled (before after : World σ) : Prop where
  buf : after.client.buf = before.client.buf
  incoming : after.sock.incoming = before.sock.incoming
  recvs : after.sock.recvs = before.sock.recvs
  log : ∃ events, after.log = before.log ++ events ∧ events.filterMap Event.packet? = []

theorem Settled.trans {first second third : World σ} (left : Settled first second)
    (right : Settled second third) : Settled first third := by
  obtain ⟨early, earlyLog, earlyNone⟩ := left.log
  obtain ⟨late, lateLog, lateNone⟩ := right.log
  refine ⟨right.buf.trans left.buf, right.incoming.trans left.incoming,
    right.recvs.trans left.recvs, early ++ late, by rw [lateLog, earlyLog, List.append_assoc], ?_⟩
  rw [List.filterMap_append, earlyNone, lateNone]
  rfl

theorem Undisturbed.settled {before after : World σ} (calls : Undisturbed before after) :
    Settled before after := by
  obtain ⟨events, log, kinds⟩ := calls.log
  refine ⟨calls.buf, calls.incoming, calls.recvs, events, log, ?_⟩
  rw [List.filterMap_eq_nil_iff]
  intro event member
  rcases kinds event member with ⟨packet, count, rfl⟩ | ⟨tag, cb, rfl⟩ <;> rfl

theorem settled_emit (world : World σ) (app : σ) (event : Event) (other : event.packet? = none) :
    Settled world ({ world with app := app }.emit event) :=
  ⟨rfl, rfl, rfl, [event], rfl, by simp [other]⟩

theorem Served.settled {world final : World σ} {pkt : Bytes}
    (served : Served world pkt final) :
    Settled world final := by
  cases served with
  | ignored => exact ⟨rfl, rfl, rfl, [], by simp, rfl⟩
  | read cb addr length error data app middle calls =>
      have asked := (settled_emit world app (.readCb cb addr length error data) rfl).trans
        (CallSteps.undisturbed calls).settled
      have counted : Settled middle (bumpSeqno middle) :=
        ⟨rfl, rfl, rfl, [], by simp [bumpSeqno], rfl⟩
      exact (asked.trans counted).trans (undisturbed_push _ _).settled
  | write cb addr data length app final calls =>
      exact (settled_emit world app (.writeCb cb addr data length) rfl).trans
        (CallSteps.undisturbed calls).settled
  | completion tag cb data length app middle stored calls =>
      have invoked := (settled_emit world app (.completion tag cb 0 data length) rfl).trans
        (CallSteps.undisturbed calls).settled
      exact invoked.trans ⟨rfl, rfl, rfl, [], by simp [clearSlot], rfl⟩

theorem Served.active {world final : World σ} {pkt : Bytes}
    (served : Served world pkt final) (sends : world.sock.SendsAll) :
    final.client.active = world.client.active ∧ final.sock.SendsAll := by
  cases served with
  | ignored => exact ⟨rfl, sends⟩
  | read cb addr length error data app middle calls =>
      obtain ⟨active, still⟩ := CallSteps.active calls sends
      rw [push_all (show (bumpSeqno middle).sock.SendsAll from still)]
      exact ⟨active, (still.send _).2⟩
  | write cb addr data length app final calls =>
      obtain ⟨active, still⟩ := CallSteps.active calls sends
      exact ⟨active, still⟩
  | completion tag cb data length app middle stored calls =>
      obtain ⟨active, still⟩ := CallSteps.active calls sends
      exact ⟨active, still⟩

def TagBelow (pkt : Bytes) : Prop := tlpTypeOf pkt = some .cpld → PcieTlp.cTag.get pkt < 32

section

variable {cbs : Callbacks σ} (valid : cbs.Valid) (world : World σ) {pkt : Bytes}

include valid

theorem memoryReadRequest_total : ∃ final, handleMemoryReadRequest cbs world pkt = .ok final := by
  simp only [handleMemoryReadRequest]
  split
  · exact ⟨_, rfl⟩
  · rename_i cb addr _
    obtain ⟨middle, ran⟩ := runCalls_valid
      ({ world with app := _ }.emit (.readCb cb (addr + BitVec.ofNat 64 (firstByteOffset pkt))
        (tlpDataLengthBytes pkt) _ _))
      (valid.read cb world.app (addr + BitVec.ofNat 64 (firstByteOffset pkt))
        (tlpDataLengthBytes pkt))
    simp only [invokeRead, bind, Except.bind, pure, Except.pure]
    rw [ran]
    simp only [clientSend_tlp _ (tlpBlock_completionPacket pkt _ _)]
    exact ⟨_, rfl⟩

theorem memoryWriteRequest_total : ∃ final, handleMemoryWriteRequest cbs world pkt = .ok final := by
  simp only [handleMemoryWriteRequest]
  split
  · exact ⟨_, rfl⟩
  · exact runCalls_valid _ (valid.write _ _ _ _ _)

theorem completion_total (below : PcieTlp.cTag.get pkt < 32) :
    ∃ final, handleCompletion cbs world pkt = .ok final := by
  simp only [handleCompletion, below, dif_pos]
  split
  · exact ⟨_, rfl⟩
  · rename_i cb stored
    obtain ⟨middle, ran⟩ := runCalls_valid
      ({ world with app := _ }.emit (.completion ⟨PcieTlp.cTag.get pkt, below⟩ cb 0 _ _))
      (valid.completion cb world.app 0
        (slice pkt PcieTlp.cData
          (PcieTlp.cByteCountHi.get pkt <<< 8 ||| PcieTlp.cByteCountLo.get pkt))
        ((PcieTlp.cByteCountHi.get pkt <<< 8 ||| PcieTlp.cByteCountLo.get pkt : Nat) : Int))
    simp only [invokeCompletion, bind, Except.bind, pure, Except.pure]
    rw [ran]
    exact ⟨_, rfl⟩

theorem handleTlp_total (below : TagBelow pkt) : ∃ final, handleTlp cbs world pkt = .ok final := by
  simp only [handleTlp]
  split
  all_goals first
    | exact memoryReadRequest_total valid world
    | exact memoryWriteRequest_total valid world
    | (rename_i type; exact completion_total valid world (below type))
    | exact ⟨_, rfl⟩

end

structure Sound (packet : Bytes) : Prop where
  wire : WirePacket packet
  fits : packet.length ≤ clientBufferSize
  tags : CompleteTlp packet → TagBelow (packet.drop Transport.tTlp)

theorem WirePacket.header {packet : Bytes} (wire : WirePacket packet) :
    headerSize ≤ packet.length := by
  have seven : headerSize = 7 := rfl
  cases wire with
  | tlp complete crc =>
      have long := complete.long
      omega
  | dllp complete crc => exact Nat.le_of_eq complete.length.symm

theorem TagBelow.congr {left right : Bytes} (agree : AgreeBelow 12 left right)
    (below : TagBelow right) :
    TagBelow left := by
  intro type
  rw [agree.get PcieTlp.cTag (by decide)]
  exact below (by rw [← tlpTypeOf_congr (agree.mono (by decide))]; exact type)

def checksumValid (packet : Bytes) (buf : RecvBuffer) : Bool :=
  if Transport.tProto.get packet = PcieProto.tlp.code then
    pcieLcrc32Valid (buf.bytes.drop Transport.tUnion)
  else pcieCrc16Valid (buf.bytes.drop Transport.tUnion)

structure Consumed (before after : World σ) (packet rest : Bytes) (later : List RecvStep) :
    Prop where
  incoming : after.sock.incoming = rest
  recvs : after.sock.recvs = later
  sends : after.sock.SendsAll
  active : after.client.active = before.client.active
  buf : after.client.buf.bytes.take packet.length = packet
  checksum : checksumValid packet after.client.buf = true
  received : receivedPackets before after = [packet]
  grows : before.log <+: after.log

section

variable {cbs : Callbacks σ} (valid : cbs.Valid) {world : World σ} (sends : world.sock.SendsAll)
variable {packet rest : Bytes} {later : List RecvStep}

theorem take_received (arrives : Arrives world.sock packet rest later) {final : World σ}
    (buf : final.client.buf = (world.received packet rest later).client.buf) :
    final.client.buf.bytes.take packet.length = packet := by
  rw [buf, arrives.bytes_received, List.take_left']
  rfl

include valid sends

theorem clientRead_soundTlp (arrives : Arrives world.sock packet rest later)
    (complete : CompleteTlp packet) (crc : pcieLcrc32Valid (packet.drop Transport.tUnion) = true)
    (below : TagBelow (packet.drop Transport.tTlp)) :
    ∃ final, warppipeClientRead cbs world = .ok final ∧ Consumed world final packet rest later := by
  have long := complete.long
  have start : Transport.tTlp = 3 := rfl
  have agree := arrives.agree_received
  have belowBuf := TagBelow.congr ((agree.drop Transport.tTlp).mono (by omega)) below
  obtain ⟨final, handled⟩ := handleTlp_total valid (world.acked packet rest later) belowBuf
  have served := (handleTlp_dispatched handled).served
  have settled := served.settled
  obtain ⟨sock, incoming, recvs, still, acked⟩ := acked_all sends packet rest later
  obtain ⟨active, stillAfter⟩ := served.active (by rw [acked]; exact still)
  obtain ⟨events, log, none⟩ := settled.log
  have buf : final.client.buf = (world.received packet rest later).client.buf := by
    rw [settled.buf, acked]
    rfl
  rw [acked, List.append_assoc] at log
  refine ⟨final, ?_, ?_, ?_, stillAfter, ?_, take_received arrives buf, ?_, ?_, ⟨_, log.symm⟩⟩
  · rw [clientRead_tlp arrives cbs complete, if_pos crc]
    exact handled
  · rw [settled.incoming, acked, incoming]
  · rw [settled.recvs, acked, recvs]
  · rw [active, acked]
  · rw [checksumValid, if_pos complete.proto, buf]
    have same := processTlp_crc agree complete arrives.fits
    rw [same, crc]
  · rw [receivedPackets, fresh_eq log, List.filterMap_append, none]
    rfl

omit valid in
theorem clientRead_soundDllp (arrives : Arrives world.sock packet rest later)
    (complete : CompleteDllp packet) (crc : pcieCrc16Valid (packet.drop Transport.tUnion) = true) :
    ∃ final, warppipeClientRead cbs world = .ok final ∧ Consumed world final packet rest later := by
  have length := complete.length
  obtain ⟨final, notes, read, log, kinds, client, sock, -⟩ :=
    clientRead_ack cbs complete
      (⟨arrives.stream, arrives.schedule⟩ : Next world.sock packet rest later)
  have buf : final.client.buf = (world.received packet rest later).client.buf := by
    rw [client]
    rfl
  have silent : notes.filterMap Event.packet? = [] := by
    rw [List.filterMap_eq_nil_iff]
    intro event member
    obtain ⟨note, rfl⟩ := kinds event member
    rfl
  refine ⟨final, read, ?_, ?_, ?_, ?_, take_received arrives buf, ?_, ?_, ⟨_, log.symm⟩⟩
  · rw [sock]
  · rw [sock]
  · rw [sock]
    exact sends
  · rw [client]
  · have notTlp : Transport.tProto.get packet ≠ PcieProto.tlp.code := by
      rw [complete.proto]
      decide
    rw [checksumValid, if_neg notTlp, buf, ← crc]
    apply pcieCrc16Valid_congr
    · exact (arrives.agree_received.drop Transport.tUnion).mono (by rw [length]; decide)
    · rw [List.length_drop, RecvBuffer.length_bytes]
      decide
    · rw [List.length_drop, length]
      decide
  · rw [receivedPackets, fresh_eq log, List.filterMap_cons, silent]
    rfl

theorem clientRead_sound (sound : Sound packet) (stream : world.sock.incoming = packet ++ rest)
    (schedule : packetSchedule world.sock.recvs (packet.length - headerSize) = some later) :
    ∃ final, warppipeClientRead cbs world = .ok final ∧ Consumed world final packet rest later := by
  have arrives : Arrives world.sock packet rest later :=
    ⟨stream, sound.wire.header, sound.fits, schedule⟩
  cases sound.wire with
  | tlp complete crc =>
      exact clientRead_soundTlp valid sends arrives complete crc (sound.tags complete)
  | dllp complete crc => exact clientRead_soundDllp sends arrives complete crc

end

theorem receivedPackets_trans {first second third : World σ} (left : first.log <+: second.log)
    (right : second.log <+: third.log) :
    receivedPackets first third = receivedPackets first second ++ receivedPackets second third := by
  rw [receivedPackets, fresh_trans left right, List.filterMap_append]
  rfl

theorem streamSchedule_append (recvs : List RecvStep) (first second : List Bytes) :
    streamSchedule recvs (first ++ second) =
      (streamSchedule recvs first).bind fun later => streamSchedule later second := by
  induction first generalizing recvs with
  | nil => rfl
  | cons packet rest ih =>
      simp only [List.cons_append, streamSchedule]
      cases packetSchedule recvs (packet.length - headerSize) with
      | none => rfl
      | some later => exact ih later

theorem clientReads_sound {cbs : Callbacks σ} (valid : cbs.Valid) {packets : List Bytes}
    (sound : ∀ packet ∈ packets, Sound packet) {world : World σ} (sends : world.sock.SendsAll)
    {rest : Bytes} (stream : world.sock.incoming = packets.flatten ++ rest) {later : List RecvStep}
    (schedule : streamSchedule world.sock.recvs packets = some later) :
    ∃ final, clientReads cbs packets.length world = .ok final ∧ final.sock.incoming = rest ∧
      final.sock.recvs = later ∧ final.sock.SendsAll ∧ final.client.active = world.client.active ∧
      receivedPackets world final = packets ∧ world.log <+: final.log := by
  induction packets generalizing world with
  | nil =>
      simp only [streamSchedule, Option.some.injEq] at schedule
      exact ⟨world, rfl, stream, schedule, sends, rfl, by simp [receivedPackets, fresh],
        List.prefix_rfl⟩
  | cons packet packets ih =>
      simp only [streamSchedule, Option.bind_eq_some_iff] at schedule
      obtain ⟨between, first, others⟩ := schedule
      rw [List.flatten_cons, List.append_assoc] at stream
      obtain ⟨next, read, consumed⟩ :=
        clientRead_sound valid sends (sound packet (by simp)) stream first
      obtain ⟨final, reads, incoming, recvs, still, active, received, grows⟩ :=
        ih (fun other member => sound other (List.mem_cons_of_mem _ member)) consumed.sends
          consumed.incoming (by rw [consumed.recvs]; exact others)
      refine ⟨final, ?_, incoming, recvs, still, active.trans consumed.active, ?_,
        consumed.grows.trans grows⟩
      · rw [List.length_cons, clientReads, read]
        exact reads
      · rw [receivedPackets_trans consumed.grows grows, consumed.received, received]
        rfl

/-! The packets a client emits. -/

/-- A packet that `client_send_pcie_transport` passed to `send`: an ACK or NAK, a read request, a
write request of at least one byte, or a completion. The tag of a completion is that of the request
it answers, which the peer took from its 32 slots. -/
inductive Emitted : Bytes → Prop where
  | ack {world after : World Unit} {type : PcieDllpType} {seqno : Nat} {rc : Int} {packet : Bytes}
      (ok : warppipeAck world type seqno = .ok (rc, after))
      (sent : packet ∈ sentPackets world after) : Emitted packet
  | read {world after : World Unit} {addr : BitVec 64} {length rc : Int} {cb : Option FnPtr}
      {type : PcieTlpType} {packet : Bytes} (isRead : ReadType type)
      (ok : warppipeReadImp world addr length cb type = .ok (rc, after))
      (sent : packet ∈ sentPackets world after) : Emitted packet
  | write {world after : World Unit} {junk : Nat → Byte} {addr : BitVec 64} {data : Bytes}
      {length rc : Int} {type : PcieTlpType} {packet : Bytes} (isWrite : WriteType type)
      (nonempty : 1 ≤ length)
      (ok : warppipeWriteImp world junk addr data length type = .ok (rc, after))
      (sent : packet ∈ sentPackets world after) : Emitted packet
  | completion {world after : World Unit} {request data : Bytes} {error rc : Int} {packet : Bytes}
      (slot : PcieTlp.rTag.get request < 32)
      (ok : clientSendPcieTransport world (completionPacket request error data) = .ok (rc, after))
      (sent : packet ∈ sentPackets world after) : Emitted packet

theorem sentPackets_push (before : World σ) {world : World σ} (log : world.log = before.log)
    (packet : Bytes) : sentPackets before (push world packet).2 = [packet] := by
  have pushed := push_log world packet
  rw [log] at pushed
  rw [sentPackets, fresh_eq pushed]
  rfl

theorem sentPackets_counted (world : World σ) (packet : Bytes) :
    sentPackets world (push (bumpSeqno world) packet).2 = [packet] :=
  sentPackets_push world (show (bumpSeqno world).log = world.log from rfl) packet

theorem sentPackets_sentRead (world : World σ) (tport : Bytes) (cb : Option FnPtr) :
    sentPackets world (sentRead world tport cb) = [sealTlp (world.client.seqno + 1) tport] := by
  have pushed := push_log (bumpSeqno (bumpTag world)) (sealTlp (world.client.seqno + 1) tport)
  have start : (bumpSeqno (bumpTag world)).log = world.log := rfl
  rw [start] at pushed
  simp only [sentRead]
  split
  · rw [sentPackets, fresh_eq pushed]
    rfl
  · have stored : (storeSlot (push (bumpSeqno (bumpTag world))
        (sealTlp (world.client.seqno + 1) tport)).2 world.client.readTag cb).log =
          world.log ++ [.sent (sealTlp (world.client.seqno + 1) tport)
            (world.sock.send (sealTlp (world.client.seqno + 1) tport)).1,
            .stored world.client.readTag cb] := by
      simp only [storeSlot, World.emit, pushed, List.append_assoc]
      rfl
    rw [sentPackets, fresh_eq stored]
    rfl

theorem tlpType_of_cpld {pkt : Bytes} (type : tlpTypeOf pkt = some .cpld) :
    PcieTlp.tlpType.get pkt = 0x0a := by
  have low : PcieTlp.tlpType.get pkt < 32 := PcieTlp.tlpType.get_lt pkt
  have found := List.find?_some type
  have code := of_decide_eq_true found
  rw [← Nat.shiftLeft_add_eq_or_of_lt (show PcieTlp.tlpType.get pkt < 2 ^ 5 from low),
    Nat.shiftLeft_eq] at code
  rw [show PcieTlpType.cpld.code = 74 from rfl] at code
  omega

theorem sound_sealTlp (seqno : BitVec 32) {tport : Bytes} (block : TlpBlock tport)
    (fits : (sealTlp seqno tport).length ≤ clientBufferSize)
    (tags : TagBelow (tport.drop Transport.tTlp)) : Sound (sealTlp seqno tport) := by
  refine ⟨block.wire_sealTlp seqno, fits, fun _ => TagBelow.congr ?_ tags⟩
  have least := tlpTotalLength_ge block.known
  exact (block.agree_sealTlp seqno).mono (by omega)

theorem tagBelow_request {pkt : Bytes} (type : PcieTlp.tlpType.get pkt ≠ 0x0a) : TagBelow pkt :=
  fun cpld => absurd (tlpType_of_cpld cpld) type

theorem tagBelow_readBlock {type : PcieTlpType} (isRead : ReadType type) (tag : Fin 32)
    (addr : BitVec 64) (length : Int) :
    TagBelow ((readBlock tag type addr length).drop Transport.tTlp) := by
  apply tagBelow_request
  rw [drop_readBlock, tlpType_tlpReqSetAddr _ _ _ (by rw [length_readHeader]; decide),
    (readHeader_fields tag type).2.1]
  rcases isRead with rfl | rfl <;> decide

theorem tagBelow_writeBlock {type : PcieTlpType} (isWrite : WriteType type) (junk : Nat → Byte)
    (addr : BitVec 64) (data : Bytes) :
    TagBelow ((writeBlock junk addr data type).drop Transport.tTlp) := by
  apply tagBelow_request
  rw [(agree_writeBlock junk addr data isWrite).get PcieTlp.tlpType (by decide),
    tlpType_tlpReqSetAddr _ _ _
      (Nat.le_trans (by decide) (long_writeHeader junk addr data.length type)),
    (writeHeader_fields junk addr data.length type).2]
  rcases isWrite with rfl | rfl <;> decide

theorem tagBelow_completionPacket {request : Bytes} (slot : PcieTlp.rTag.get request < 32)
    (error : Int) (data : Bytes) :
    TagBelow ((completionPacket request error data).drop Transport.tTlp) := by
  intro _
  have fields := completionFields_filledTlp request data
  rw [drop_completionPacket]
  split
  · rw [dropData, Field.get_set_disjoint (by decide) (by decide), fields.tag]
    exact slot
  · rw [fields.tag]
    exact slot

theorem Emitted.sound {packet : Bytes} (emitted : Emitted packet)
    (fits : packet.length ≤ clientBufferSize) : Sound packet := by
  cases emitted with
  | @ack world after type seqno rc packet ok sent =>
      obtain ⟨code, acked⟩ := warppipeAck_eq world type seqno
      rw [acked] at ok
      cases ok
      rw [sentPackets_push world rfl] at sent
      cases List.mem_singleton.mp sent
      have long : headerSize ≤ (ackPacket type seqno).length := by
        rw [length_ackPacket]
        decide
      have proto : Transport.tProto.get (sealDllp (ackPacket type seqno)) =
          PcieProto.dllp.code := by
        rw [Field.get_congr (getByte_sealDllp long 0 (by decide)), tProto_ackPacket]
      refine ⟨.dllp ⟨proto, length_sealDllp long⟩ (crc_sealDllp long), fits, fun tlp => ?_⟩
      have clash := tlp.proto.symm.trans proto
      cases clash
  | @read world after addr length rc cb type packet isRead ok sent =>
      rw [warppipeReadImp_eq world isRead, Except.ok.injEq] at ok
      have same := congrArg Prod.snd ok
      rw [afterRead_world] at same
      rw [← show _ = after from same, sentPackets_sentRead] at sent
      cases List.mem_singleton.mp sent
      exact sound_sealTlp _ (tlpBlock_readBlock isRead _ _ _) fits (tagBelow_readBlock isRead _ _ _)
  | @write world after junk addr data length rc type packet isWrite nonempty ok sent =>
      have allowed := writeImp_allowed ok
      obtain ⟨count, rfl⟩ := Int.eq_ofNat_of_zero_le allowed.1
      rw [warppipeWriteImp_eq world junk isWrite addr data count (by omega) (by omega),
        Except.ok.injEq] at ok
      have same := congrArg Prod.snd ok
      rw [← show _ = after from same, afterWrite, sentPackets_counted] at sent
      cases List.mem_singleton.mp sent
      refine sound_sealTlp _ (tlpBlock_writeBlock junk addr _ isWrite ?_) fits
        (tagBelow_writeBlock isWrite junk addr _)
      rw [List.length_take]
      omega
  | @completion world after request data error rc packet slot ok sent =>
      rw [clientSend_tlp world (tlpBlock_completionPacket request data error), Except.ok.injEq]
        at ok
      have same := congrArg Prod.snd ok
      rw [← show _ = after from same, sentPackets_counted] at sent
      cases List.mem_singleton.mp sent
      exact sound_sealTlp _ (tlpBlock_completionPacket request data error) fits
        (tagBelow_completionPacket slot error data)

def pieceSchedule (pieces : List Nat) : List RecvStep := .deliver 6 :: pieces.map .deliver

theorem delivers_pieces (pieces : List Nat) (later : List RecvStep) (count : Nat)
    (total : (pieces.map (· + 1)).sum = count) :
    delivers (pieces.map .deliver ++ later) count = some later := by
  induction pieces generalizing count with
  | nil =>
      subst total
      cases later <;> rfl
  | cons more rest ih =>
      rw [List.map_cons, List.sum_cons] at total
      obtain ⟨before, rfl⟩ : ∃ before, count = before + 1 := ⟨count - 1, by omega⟩
      exact ih (before - more) (by omega)

theorem streamSchedule_pieces (stream : List (Bytes × List Nat)) (later : List RecvStep)
    (total : ∀ part ∈ stream, (part.2.map (· + 1)).sum = part.1.length - headerSize) :
    streamSchedule ((stream.map fun part => pieceSchedule part.2).flatten ++ later)
      (stream.map Prod.fst) = some later := by
  induction stream with
  | nil => rfl
  | cons part rest ih =>
      have first := delivers_pieces part.2
        ((rest.map fun part => pieceSchedule part.2).flatten ++ later) _ (total part (by simp))
      have others := ih fun other member => total other (List.mem_cons_of_mem _ member)
      rw [List.map_cons, List.flatten_cons, List.append_assoc, List.map_cons, streamSchedule]
      rw [pieceSchedule, List.cons_append, packetSchedule, if_pos (by decide), first]
      exact others

theorem agree_of_take {buf : RecvBuffer} {packet : Bytes}
    (taken : buf.bytes.take packet.length = packet) :
    AgreeBelow packet.length buf.bytes packet := by
  intro index bound
  rw [← getByte_take bound, taken]

/-- Framing: in front of each packet of an emitted stream a call of `warppipe_client_read` consumes
exactly that packet. -/
theorem stream_framed {cbs : Callbacks σ} (valid : cbs.Valid) (stream : List (Bytes × List Nat))
    (emitted : ∀ part ∈ stream, Emitted part.1)
    (short : ∀ part ∈ stream, part.1.length ≤ clientBufferSize)
    (total : ∀ part ∈ stream, (part.2.map (· + 1)).sum = part.1.length - headerSize)
    (world : World σ) (sends : world.sock.SendsAll) (active : world.client.active = true)
    (rest : Bytes) (later : List RecvStep)
    (incoming : world.sock.incoming = (stream.map Prod.fst).flatten ++ rest)
    (recvs : world.sock.recvs = (stream.map fun part => pieceSchedule part.2).flatten ++ later)
    (done todo : List (Bytes × List Nat)) (packet : Bytes) (pieces : List Nat)
    (split : stream = done ++ (packet, pieces) :: todo) :
    ∃ before after, clientReads cbs done.length world = .ok before ∧
      before.sock.incoming = packet ++ ((todo.map Prod.fst).flatten ++ rest) ∧
      warppipeClientRead cbs before = .ok after ∧
      after.sock.incoming = (todo.map Prod.fst).flatten ++ rest ∧
      receivedPackets before after = [packet] ∧
      (Transport.tProto.get packet = PcieProto.tlp.code →
        (packet.length : Int) =
          headerSize + tlpTotalLength (after.client.buf.bytes.drop Transport.tTlp)) ∧
      after.client.buf.bytes.take packet.length = packet ∧
      checksumValid packet after.client.buf = true ∧
      after.client.active = true := by
  have sound (part : Bytes × List Nat) (member : part ∈ stream) : Sound part.1 :=
    (emitted part member).sound (short part member)
  have schedule := streamSchedule_pieces stream later total
  rw [← recvs, split, List.map_append, streamSchedule_append, Option.bind_eq_some_iff] at schedule
  obtain ⟨middle, doneSchedule, restSchedule⟩ := schedule
  rw [List.map_cons, streamSchedule, Option.bind_eq_some_iff] at restSchedule
  obtain ⟨after, packetFits, -⟩ := restSchedule
  rw [split, List.map_append, List.flatten_append, List.append_assoc] at incoming
  have doneSound : ∀ other ∈ done.map Prod.fst, Sound other := by
    intro other member
    obtain ⟨part, inDone, rfl⟩ := List.mem_map.mp member
    exact sound part (by rw [split]; exact List.mem_append_left _ inDone)
  obtain ⟨before, reads, beforeIncoming, beforeRecvs, beforeSends, beforeActive, -, -⟩ :=
    clientReads_sound valid doneSound sends incoming doneSchedule
  rw [List.length_map] at reads
  rw [List.map_cons, List.flatten_cons, List.append_assoc] at beforeIncoming
  have packetSound : Sound packet := sound (packet, pieces) (by rw [split]; simp)
  obtain ⟨final, read, consumed⟩ := clientRead_sound valid beforeSends packetSound beforeIncoming
    (by rw [beforeRecvs]; exact packetFits)
  refine ⟨before, final, reads, beforeIncoming, read, consumed.incoming, consumed.received, ?_,
    consumed.buf, consumed.checksum, consumed.active.trans (beforeActive.trans active)⟩
  intro proto
  cases packetSound.wire with
  | dllp complete crc =>
      rw [complete.proto] at proto
      cases proto
  | tlp complete crc =>
      have long := complete.long
      rw [tlpTotalLength_congr (((agree_of_take consumed.buf).drop Transport.tTlp).mono
        (show 4 ≤ packet.length - Transport.tTlp by
          rw [show Transport.tTlp = 3 from rfl]
          omega))]
      exact complete.length

def sampleAck : Bytes := sealDllp (ackPacket .ack 1)

def sampleRead : Bytes := readPacketOf (clientWith []) .cr0 0 4

theorem emitted_sampleAck : Emitted sampleAck := by
  obtain ⟨rc, acked⟩ := warppipeAck_eq (clientWith []) .ack 1
  exact .ack acked (by rw [sentPackets_push _ rfl]; exact List.mem_singleton.mpr rfl)

theorem emitted_sampleRead : Emitted sampleRead := by
  refine .read (Or.inr rfl) (warppipeReadImp_eq (clientWith []) (Or.inr rfl) 0 4 none) ?_
  change sampleRead ∈ sentPackets (clientWith []) (afterRead (clientWith []) .cr0 0 4 none).2
  rw [afterRead_world, sentPackets_sentRead]
  exact List.mem_singleton.mpr rfl

theorem length_sampleRead : sampleRead.length = 19 := by
  have length :=
    (tlpBlock_readBlock (Or.inr rfl) 0 0 4).length_sealTlp ((clientWith []).client.seqno + 1)
  rw [readBlock_total (Or.inr rfl), if_pos (by decide)] at length
  exact Int.ofNat.inj length

theorem sampleStream_framed :
    ∃ before after,
      clientReads silentCallbacks 1 { clientWith (sampleAck ++ (sampleRead ++ [])) with
        sock := ⟨sampleAck ++ (sampleRead ++ []),
          [.deliver 6, .deliver 6, .deliver 3, .deliver 7], []⟩ } = .ok before ∧
      before.sock.incoming = sampleRead ∧
      warppipeClientRead silentCallbacks before = .ok after ∧
      after.sock.incoming = [] ∧ receivedPackets before after = [sampleRead] ∧
      after.client.active = true := by
  have ackLength : sampleAck.length = headerSize := length_sealDllp (by decide)
  obtain ⟨before, after, reads, incoming, read, rest, received, -, -, -, active⟩ :=
    stream_framed silent_valid [(sampleAck, []), (sampleRead, [3, 7])]
      (by simp [emitted_sampleAck, emitted_sampleRead])
      (by simp [ackLength, length_sampleRead, headerSize, PcieDllp.size, clientBufferSize,
        clientMaxPacketDataSize, clientMaxPacketHeaderSize])
      (by simp [ackLength, length_sampleRead, headerSize, PcieDllp.size])
      { clientWith (sampleAck ++ (sampleRead ++ [])) with
        sock :=
          ⟨sampleAck ++ (sampleRead ++ []), [.deliver 6, .deliver 6, .deliver 3, .deliver 7], []⟩ }
      nofun rfl [] [] (by simp) rfl [(sampleAck, [])] [] sampleRead [3, 7] rfl
  exact ⟨before, after, reads, by simpa using incoming, read, by simpa using rest, received, active⟩

end WarpPipe
