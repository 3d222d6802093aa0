import WarpPipe.Invocations

/-!
The request that one of the four transfer calls puts on the wire, for any address and any length.
The length field of a TLP counts up to 1024 double words, and nothing on the way there checks for
more.
-/

namespace WarpPipe

open ByteLayout

variable {σ : Type}

structure Sends (world : World σ) (rc : Int) (next : World σ) (packet : Bytes) : Prop where
  packets : sentPackets world next = [packet]
  output : transferred world next = packet.take (world.sock.send packet).1.toNat
  result : rc = 0 ↔ (world.sock.send packet).1 = packet.length

theorem sends_of_log {world next : World σ} {rc : Int} {packet : Bytes} {later : List Event}
    (log : next.log = world.log ++ (.sent packet (world.sock.send packet).1 :: later))
    (silent : later.filterMap Event.sentPacket? = [] ∧ later.flatMap Event.output = [])
    (result : rc = 0 ↔ (world.sock.send packet).1 = packet.length) :
    Sends world rc next packet := by
  refine ⟨?_, ?_, result⟩
  · rw [sentPackets, fresh_eq log]
    exact congrArg (packet :: ·) silent.1
  · rw [transferred, fresh_eq log, List.flatMap_cons, silent.2, List.append_nil]
    rfl

theorem readImp_sends (world : World σ) {type : PcieTlpType} (isRead : ReadType type)
    (addr : BitVec 64) (length : Int) (cb : Option FnPtr) :
    ∃ rc next, warppipeReadImp world addr length cb type = .ok (rc, next) ∧
      Sends world rc next (readPacketOf world type addr length) := by
  have failed := push_failed_iff (bumpSeqno (bumpTag world)) (readPacketOf world type addr length)
  have log := push_log (bumpSeqno (bumpTag world)) (readPacketOf world type addr length)
  rw [warppipeReadImp_eq world isRead]
  by_cases sent : (push (bumpSeqno (bumpTag world)) (readPacketOf world type addr length)).1 = -1
  · refine ⟨-1, _, congrArg _ (if_pos sent), sends_of_log log ⟨rfl, rfl⟩ ?_⟩
    exact iff_of_false (by decide) (failed.mp sent)
  · have stored :=
      (congrArg (· ++ [.stored world.client.readTag cb]) log).trans (List.append_assoc ..)
    refine ⟨0, _, congrArg _ (if_neg sent), sends_of_log stored ⟨rfl, rfl⟩ ?_⟩
    exact iff_of_true rfl (not_not.mp (mt failed.mpr sent))

theorem push_result (world : World σ) {packet : Bytes} (nonempty : 1 ≤ packet.length) :
    (if (push world packet).1 > 0 then 0 else (push world packet).1) = 0 ↔
      (world.sock.send packet).1 = packet.length := by
  simp only [push]
  split
  · rename_i full
    refine iff_of_true (if_pos ?_) full
    omega
  · rename_i cut
    exact iff_of_false (show ¬(if (-1 : Int) > 0 then (0 : Int) else -1) = 0 by decide) cut

theorem writeImp_sends (world : World σ) (junk : Nat → Byte) {type : PcieTlpType}
    (isWrite : WriteType type) (addr : BitVec 64) (data : Bytes) {length : Nat}
    (available : length ≤ data.length) (nonempty : 1 ≤ addr.toNat % 4 + length) :
    ∃ rc next, warppipeWriteImp world junk addr data length type = .ok (rc, next) ∧
      Sends world rc next
        (sealTlp (world.client.seqno + 1) (writeBlock junk addr (data.take length) type)) := by
  have taken : (data.take length).length = length := by
    rw [List.length_take, Nat.min_eq_left available]
  have block :=
    tlpBlock_writeBlock junk addr (data.take length) isWrite (by rw [taken]; exact nonempty)
  have long := (block.complete_sealTlp (world.client.seqno + 1)).long
  refine ⟨_, _, warppipeWriteImp_eq world junk isWrite addr data length available nonempty, ?_⟩
  exact sends_of_log (push_log ..) ⟨rfl, rfl⟩ (push_result (bumpSeqno world) (by omega))

def headerLength (addr : BitVec 64) : Nat := if addr.toNat < 2 ^ 32 then 12 else 16

theorem headerLength_ge (addr : BitVec 64) : 12 ≤ headerLength addr := by
  rw [headerLength]
  split <;> decide

structure Requests (pkt header : Bytes) (addr : BitVec 64) (length : Int) : Prop where
  long : 16 ≤ header.length
  agree : AgreeBelow (headerLength addr) pkt (tlpReqSetAddr header addr length)

section

variable {pkt header : Bytes} {addr : BitVec 64}

theorem Requests.fmt {length : Int} (requests : Requests pkt header addr length) :
    PcieTlp.tlpFmt.get pkt &&& pcieTlpFmt4dw ≠ 0 ↔ ¬addr.toNat < 2 ^ 32 := by
  have enough := headerLength_ge addr
  rw [requests.agree.get PcieTlp.tlpFmt (Nat.lt_of_lt_of_le (by decide) enough),
    tlpFmt_tlpReqSetAddr header addr length requests.long]
  by_cases low : addr.toNat < 2 ^ 32
  · rw [if_pos low, Nat.and_assoc]
    exact iff_of_false (not_not.mpr (Nat.and_zero _)) (not_not.mpr low)
  · rw [if_neg low, Nat.and_or_distrib_right]
    refine iff_of_true (fun zero => ?_) low
    exact absurd (Nat.or_eq_zero_iff.mp zero).2 (by decide)

theorem Requests.payloadOffset {length : Int} (requests : Requests pkt header addr length) :
    payloadOffset pkt = headerLength addr := by
  rw [WarpPipe.payloadOffset, headerLength]
  by_cases low : addr.toNat < 2 ^ 32
  · rw [if_pos low, if_neg (mt requests.fmt.mp (not_not.mpr low))]
    rfl
  · rw [if_neg low, if_pos (requests.fmt.mpr low)]
    rfl

theorem Requests.address {length : Int} (requests : Requests pkt header addr length) :
    tlpReqGetAddr pkt = addr &&& ~~~3 := by
  have extentLong : 16 ≤ (setExtent header (addr &&& 3).toNat length).length := by
    rw [length_setExtent]
    exact requests.long
  have made : Requests (tlpReqSetAddr header addr length) header addr length :=
    ⟨requests.long, fun _ _ => rfl⟩
  rw [tlpReqGetAddr_congr requests.agree (headerLength_ge addr) fun wide => ?_]
  · rw [tlpReqSetAddr, tlpReqGetAddr_setAddress _ _ extentLong]
  · rw [headerLength, if_neg (made.fmt.mp wide)]

theorem Requests.dwords {length : Nat} (requests : Requests pkt header addr length) :
    tlpDataLength pkt = ((addr.toNat % 4 + length + 3) / 4 + 1023) % 1024 + 1 := by
  have enough := headerLength_ge addr
  rw [tlpDataLength_congr (requests.agree.mono (by omega)),
    tlpDataLength_tlpReqSetAddr _ _ _ requests.long]

theorem Requests.bytes_iff {length : Nat} (requests : Requests pkt header addr length)
    (positive : 1 ≤ length) :
    tlpDataLengthBytes pkt = length ↔ addr.toNat % 4 + length ≤ 4096 := by
  have enough := headerLength_ge addr
  constructor
  · intro same
    -- what the wrapped field counts is less than what was asked for
    have dwords := requests.dwords
    have range := tlpDataLengthBytes_proper ((tlpDataLengthBytes_nonneg_iff pkt).mp (by omega))
    omega
  · intro fits
    have made := requestHeader_tlpReqSetAddr header addr length requests.long positive fits
    rw [tlpDataLengthBytes_congr (requests.agree.mono (by omega)), made.bytes]

end

theorem requests_sealed {header tport : Bytes} {addr : BitVec 64} {length : Int}
    (block : TlpBlock tport) (requests : Requests (tport.drop Transport.tTlp) header addr length)
    (covers : headerLength addr ≤ tlpTotalLength (tport.drop Transport.tTlp)) (seqno : BitVec 32) :
    Requests ((sealTlp seqno tport).drop Transport.tTlp) header addr length := by
  refine ⟨requests.long, fun index bound => ?_⟩
  rw [← requests.agree index bound]
  exact block.agree_sealTlp seqno index (by omega)

theorem requests_readPacketOf (world : World σ) {type : PcieTlpType} (isRead : ReadType type)
    (addr : BitVec 64) (length : Int) :
    Requests ((readPacketOf world type addr length).drop Transport.tTlp)
      (readHeader world.client.readTag type) addr length := by
  have long : 16 ≤ (readHeader world.client.readTag type).length := by
    rw [length_readHeader]
    decide
  refine requests_sealed (tlpBlock_readBlock isRead _ addr length) ⟨long, ?_⟩ ?_ _
  · rw [drop_readBlock]
    exact fun _ _ => rfl
  · rw [readBlock_total isRead, headerLength]
    split <;> decide

theorem requests_writeBlock (junk : Nat → Byte) {type : PcieTlpType} (isWrite : WriteType type)
    (addr : BitVec 64) (data : Bytes) :
    Requests ((writeBlock junk addr data type).drop Transport.tTlp)
      (writeHeader junk addr data.length type) addr data.length := by
  have long := long_writeHeader junk addr data.length type
  refine ⟨by omega, fun index bound => ?_⟩
  rw [← drop_writeRequest, getByte_drop, getByte_drop]
  apply getByte_writeBlock_header junk addr data isWrite
  rw [headerLength] at bound
  have start : Transport.tTlp = 3 := rfl
  split at bound <;> omega

theorem requests_sealedWrite (seqno : BitVec 32) (junk : Nat → Byte) {type : PcieTlpType}
    (isWrite : WriteType type) (addr : BitVec 64) {data : Bytes}
    (nonempty : 1 ≤ addr.toNat % 4 + data.length) :
    Requests ((sealTlp seqno (writeBlock junk addr data type)).drop Transport.tTlp)
      (writeHeader junk addr data.length type) addr data.length := by
  refine requests_sealed (tlpBlock_writeBlock junk addr data isWrite nonempty)
    (requests_writeBlock junk isWrite addr data) ?_ seqno
  rw [writeBlock_total junk addr data isWrite, headerLength]
  split <;> omega

structure Transfer where
  addr : BitVec 64
  length : Int
  data : Option Bytes

def Call.transfer (client : Client) : Call → Option Transfer
  | .read barIdx addr length _ =>
    if client.bar barIdx = 0 then none
    else some ⟨(client.bar barIdx).setWidth 64 + addr, length, none⟩
  | .config0Read addr length _ => some ⟨addr, length, none⟩
  | .write _ barIdx addr data length =>
    if client.bar barIdx = 0 then none
    else some ⟨(client.bar barIdx).setWidth 64 + addr, length, some data⟩
  | .config0Write _ addr data length => some ⟨addr, length, some data⟩
  | _ => none

def Call.Asks : Call → Prop
  | .read _ _ length _ | .config0Read _ length _ => 1 ≤ length
  | .write _ _ _ data length | .config0Write _ _ data length => 1 ≤ length ∧ length ≤ data.length
  | _ => False

def Transfer.Fits (transfer : Transfer) : Prop := transfer.addr.toNat % 4 + transfer.length ≤ 4096

theorem fits_iff (addr : BitVec 64) (count : Nat) (data : Option Bytes) :
    Transfer.Fits ⟨addr, count, data⟩ ↔ addr.toNat % 4 + count ≤ 4096 := by
  simp only [Transfer.Fits]
  omega

structure Transfer.Carried (transfer : Transfer) (pkt : Bytes) : Prop where
  bytes : tlpDataLengthBytes pkt = transfer.length
  payload : ∀ data, transfer.data = some data →
    payloadOffset pkt + firstByteOffset pkt + transfer.length ≤ tlpTotalLength pkt ∧
      slice pkt (payloadOffset pkt + firstByteOffset pkt) transfer.length.toNat =
        data.take transfer.length.toNat

theorem carried_sealedWrite (seqno : BitVec 32) (junk : Nat → Byte) {type : PcieTlpType}
    (isWrite : WriteType type) {addr : BitVec 64} {data : Bytes} {length : Nat}
    (available : length ≤ data.length) (positive : 1 ≤ length)
    (fits : addr.toNat % 4 + length ≤ 4096) :
    Transfer.Carried ⟨addr, length, some data⟩
      ((sealTlp seqno (writeBlock junk addr (data.take length) type)).drop Transport.tTlp) := by
  have taken : (data.take length).length = length := by
    rw [List.length_take, Nat.min_eq_left available]
  have nonempty : 1 ≤ addr.toNat % 4 + (data.take length).length := by omega
  have block := tlpBlock_writeBlock junk addr (data.take length) isWrite nonempty
  have requests := requests_sealedWrite seqno junk isWrite addr nonempty
  rw [taken] at requests
  have enough := headerLength_ge addr
  have made :=
    requestHeader_tlpReqSetAddr (writeHeader junk addr length type) addr length requests.long
    positive fits
  have offset :
      firstByteOffset
        ((sealTlp seqno (writeBlock junk addr (data.take length) type)).drop Transport.tTlp) =
        addr.toNat % 4 := by
    rw [firstByteOffset_congr (requests.agree.mono (by omega)), made.offset]
  have total := writeBlock_total junk addr (data.take length) isWrite
  rw [taken] at total
  have covers : headerLength addr + addr.toNat % 4 + length ≤
      (tlpTotalLength
        ((writeBlock junk addr (data.take length) type).drop Transport.tTlp)).toNat := by
    rw [total, headerLength]
    split <;> omega
  refine ⟨(requests.bytes_iff positive).mpr fits, ?_⟩
  rintro _ ⟨⟩
  rw [requests.payloadOffset, offset, block.total_sealTlp seqno, Int.toNat_natCast]
  refine ⟨by push_cast; omega, ?_⟩
  have same :
      slice ((sealTlp seqno (writeBlock junk addr (data.take length) type)).drop Transport.tTlp)
      (headerLength addr + addr.toNat % 4) length =
        slice ((writeBlock junk addr (data.take length) type).drop Transport.tTlp)
          (headerLength addr + addr.toNat % 4) length := by
    have sealedLength := block.length_sealTlp seqno
    have room := block.room
    have start : Transport.tTlp = 3 := rfl
    have seven : headerSize = 7 := rfl
    refine slice_congr ?_ ?_ fun index bound => block.agree_sealTlp seqno _ (by omega)
    · rw [List.length_drop]
      omega
    · rw [List.length_drop]
      omega
  have own := slice_writeBlock junk addr (data.take length) isWrite
  rw [taken] at own
  exact same.trans own

def HandsOver (world : World σ) (result : Outcome (Int × World σ)) (transfer : Transfer) : Prop :=
  ∃ rc next packet, result = .ok (rc, next) ∧ Sends world rc next packet ∧ 1 ≤ packet.length ∧
    (transfer.Carried (packet.drop Transport.tTlp) ↔ transfer.Fits)

theorem readImp_handsOver (world : World σ) {type : PcieTlpType} (isRead : ReadType type)
    (addr : BitVec 64) {length : Int} (positive : 1 ≤ length) (cb : Option FnPtr) :
    HandsOver world (warppipeReadImp world addr length cb type) ⟨addr, length, none⟩ := by
  obtain ⟨count, rfl⟩ := Int.eq_ofNat_of_zero_le (show 0 ≤ length by omega)
  obtain ⟨rc, next, ran, sends⟩ := readImp_sends world isRead addr count cb
  have requests := requests_readPacketOf world isRead addr count
  have long := ((tlpBlock_readBlock isRead world.client.readTag addr count).complete_sealTlp
    (world.client.seqno + 1)).long
  have bytes := requests.bytes_iff (show 1 ≤ count by omega)
  refine ⟨rc, next, _, ran, sends, Nat.le_trans (by decide) long, ?_⟩
  rw [fits_iff, ← bytes]
  exact ⟨fun carried => carried.bytes, fun same => ⟨same, nofun⟩⟩

theorem writeImp_handsOver (world : World σ) (junk : Nat → Byte) {type : PcieTlpType}
    (isWrite : WriteType type) (addr : BitVec 64) {data : Bytes} {length : Int}
    (asks : 1 ≤ length ∧ length ≤ data.length) :
    HandsOver world (warppipeWriteImp world junk addr data length type)
      ⟨addr, length, some data⟩ := by
  obtain ⟨count, rfl⟩ := Int.eq_ofNat_of_zero_le (show 0 ≤ length by omega)
  have available : count ≤ data.length := by omega
  have taken : (data.take count).length = count := by
    rw [List.length_take, Nat.min_eq_left available]
  have nonempty : 1 ≤ addr.toNat % 4 + (data.take count).length := by omega
  obtain ⟨rc, next, ran, sends⟩ := writeImp_sends world junk isWrite addr data available (by omega)
  have requests := requests_sealedWrite (world.client.seqno + 1) junk isWrite addr nonempty
  have long :=
    ((tlpBlock_writeBlock junk addr _ isWrite nonempty).complete_sealTlp
      (world.client.seqno + 1)).long
  rw [taken] at requests
  refine ⟨rc, next, _, ran, sends, Nat.le_trans (by decide) long, ?_⟩
  rw [fits_iff]
  constructor
  · intro carried
    exact (requests.bytes_iff (by omega)).mp carried.bytes
  · intro fits
    exact carried_sealedWrite _ junk isWrite available (by omega) fits

theorem call_cases (world : World σ) {call : Call} (asks : call.Asks) :
    (call.transfer world.client = none ∧ call.run world = .ok (-1, world)) ∨
      ∃ transfer, call.transfer world.client = some transfer ∧
        HandsOver world (call.run world) transfer := by
  cases call with
  | registerBar => exact asks.elim
  | registerConfig0ReadCb => exact asks.elim
  | registerConfig0WriteCb => exact asks.elim
  | read barIdx addr length cb =>
      by_cases unset : world.client.bar barIdx = 0
      · exact .inl ⟨if_pos unset, if_pos unset⟩
      · refine .inr ⟨_, if_neg unset, ?_⟩
        rw [Call.run, warppipeRead, if_neg unset]
        exact readImp_handsOver world (.inl rfl) _ asks cb
  | config0Read addr length cb =>
      exact .inr ⟨_, rfl, readImp_handsOver world (.inr rfl) addr asks cb⟩
  | write junk barIdx addr data length =>
      by_cases unset : world.client.bar barIdx = 0
      · exact .inl ⟨if_pos unset, if_pos unset⟩
      · refine .inr ⟨_, if_neg unset, ?_⟩
        rw [Call.run, warppipeWrite, if_neg unset]
        exact writeImp_handsOver world junk (.inl rfl) _ asks
  | config0Write junk addr data length =>
      exact .inr ⟨_, rfl, writeImp_handsOver world junk (.inr rfl) addr asks⟩

def Socket.TakesNothing (sock : Socket) : Prop :=
  ∃ rest, sock.sends = .failed :: rest ∨ sock.sends = .short 0 :: rest

theorem takesNothing_iff (sock : Socket) {packet : Bytes} (nonempty : 1 ≤ packet.length) :
    packet.take (sock.send packet).1.toNat = [] ↔ sock.TakesNothing := by
  have none : packet.take (sock.send packet).1.toNat = [] ↔ (sock.send packet).1.toNat = 0 := by
    rw [← List.length_eq_zero_iff, List.length_take]
    omega
  rw [none, Socket.TakesNothing, Socket.send]
  cases schedule : sock.sends with
  | nil =>
      simp only [Int.toNat_natCast, reduceCtorEq, or_self, exists_false, iff_false]
      omega
  | cons step rest =>
      cases step with
      | all =>
          simp only [Int.toNat_natCast, List.cons.injEq, reduceCtorEq, false_and, or_self,
            exists_false, iff_false]
          omega
      | short count =>
          simp only [List.cons.injEq, SendStep.short.injEq, reduceCtorEq, false_and, false_or,
            exists_and_left, exists_eq', and_true]
          omega
      | failed => simp

/-- The call reports success for what the peer can decode, and refuses what does not fit. -/
structure Honest (world : World σ) (call : Call) (rc : Int) (next : World σ) : Prop where
  carried : rc = 0 → ∃ transfer packet, call.transfer world.client = some transfer ∧
    sentPackets world next = [packet] ∧ transfer.Carried (packet.drop Transport.tTlp)
  refused : (∀ transfer, call.transfer world.client = some transfer → ¬transfer.Fits) →
    rc ≠ 0 ∧ transferred world next = []

/-- A transfer call is honest iff the transfer fits into one TLP, or no byte is sent for another
reason. What does not fit is sent all the same, as a shorter transfer. -/
theorem transfers_honest_iff (world : World σ) {call : Call} (asks : call.Asks) :
    ∃ rc next, call.run world = .ok (rc, next) ∧
      (Honest world call rc next ↔
        ∀ transfer, call.transfer world.client = some transfer → transfer.Fits ∨
          world.sock.TakesNothing) ∧
      ∀ transfer, call.transfer world.client = some transfer →
        ∃ packet, sentPackets world next = [packet] ∧
        (transfer.Carried (packet.drop Transport.tTlp) ↔ transfer.Fits) := by
  rcases call_cases world asks with
    ⟨rejected, ran⟩ | ⟨transfer, accepted, rc, next, packet, ran, sends, nonempty, carried⟩
  · refine ⟨-1, world, ran, ?_, fun transfer accepted => ?_⟩
    · refine iff_of_true ⟨nofun, fun _ => ⟨by decide, ?_⟩⟩ fun transfer accepted => ?_
      · rw [transferred, fresh, List.drop_length]
        rfl
      · rw [rejected] at accepted
        cases accepted
    · rw [rejected] at accepted
      cases accepted
  · have only {other : Transfer} (same : call.transfer world.client = some other) :
        other = transfer :=
      Option.some.inj (same.symm.trans accepted)
    have nothing := takesNothing_iff world.sock nonempty
    rw [← sends.output] at nothing
    refine ⟨rc, next, ran, ⟨fun honest other same => ?_, fun fits => ?_⟩, fun other same => ?_⟩
    · rw [only same]
      by_contra neither
      rw [not_or] at neither
      have refused := honest.refused fun other same => by
        rw [only same]
        exact neither.1
      exact neither.2 (nothing.mp refused.2)
    · rcases fits transfer accepted with inside | blocked
      · exact ⟨fun _ => ⟨transfer, packet, accepted, sends.packets, carried.mpr inside⟩,
          fun outside => absurd inside (outside transfer accepted)⟩
      · have silent := nothing.mpr blocked
        have failed : rc ≠ 0 := by
          intro zero
          have taken := sends.output
          rw [sends.result.mp zero, Int.toNat_natCast, List.take_length, silent] at taken
          rw [← taken] at nonempty
          exact absurd nonempty (by decide)
        exact ⟨fun zero => absurd zero failed, fun _ => ⟨failed, silent⟩⟩
    · rw [only same]
      exact ⟨packet, sends.packets, carried⟩

theorem longest_read_honest :
    ∃ rc next, Call.run (clientWith []) (.config0Read 0 4096 (some 7)) = .ok (rc, next) ∧
      Honest (clientWith []) (.config0Read 0 4096 (some 7)) rc next := by
  obtain ⟨rc, next, ran, honest, -⟩ := transfers_honest_iff (clientWith [])
    (show Call.Asks (.config0Read 0 4096 (some 7)) from (by decide : (1 : Int) ≤ 4096))
  refine ⟨rc, next, ran, honest.mpr ?_⟩
  rintro transfer ⟨⟩
  exact .inl ((fits_iff 0 4096 none).mpr (by decide))

/-- One byte more: the call returns 0, and four bytes were asked for. -/
theorem longer_read_truncated :
    (Call.run (clientWith []) (.config0Read 0 4097 (some 7))).map (fun result =>
      (result.1, (sentPackets (clientWith []) result.2).map fun packet =>
        tlpDataLengthBytes (packet.drop Transport.tTlp))) = .ok (0, [4]) := by
  decide +kernel

end WarpPipe
