import WarpPipe.Framing

/-!
The link layer over whole runs: TLPs are numbered, every TLP that arrives is acknowledged once and
first, and a corrupted TLP has no effect.
-/

namespace WarpPipe

open ByteLayout

variable {σ : Type}

def isTlpPacket (packet : Bytes) : Bool := Transport.tProto.get packet == PcieProto.tlp.code

def tlpsIn (log : List Event) : List Bytes := (log.filterMap Event.sentPacket?).filter isTlpPacket

structure Numbered (world : World σ) : Prop where
  seqno : world.client.seqno = BitVec.ofNat 32 (tlpsIn world.log).length
  tlps : ∀ index packet, (tlpsIn world.log)[index]? = some packet →
    receivedSeqno (packet.drop Transport.tUnion) = (index + 1) % 4096 ∧
      pcieLcrc32Valid (packet.drop Transport.tUnion) = true

theorem tlpsIn_append (log events : List Event) :
    tlpsIn (log ++ events) = tlpsIn log ++ tlpsIn events := by
  rw [tlpsIn, List.filterMap_append, List.filter_append]
  rfl

theorem tlpsIn_tlp {packet : Bytes} {count : Int} (isTlp : isTlpPacket packet = true) :
    tlpsIn [.sent packet count] = [packet] := by
  simp [tlpsIn, Event.sentPacket?, isTlp]

theorem Numbered.keep {world next : World σ} (numbered : Numbered world) {events : List Event}
    (seqno : next.client.seqno = world.client.seqno) (log : next.log = world.log ++ events)
    (none : tlpsIn events = []) : Numbered next := by
  have same : tlpsIn next.log = tlpsIn world.log := by
    rw [log, tlpsIn_append, none, List.append_nil]
  refine ⟨?_, ?_⟩
  · rw [seqno, same, numbered.seqno]
  · rw [same]
    exact numbered.tlps

theorem Numbered.pushTlp {world : World σ} (numbered : Numbered world) {tport : Bytes}
    (block : TlpBlock tport) :
    Numbered (push (bumpSeqno world) (sealTlp (world.client.seqno + 1) tport)).2 := by
  have isTlp : isTlpPacket (sealTlp (world.client.seqno + 1) tport) = true := by
    rw [isTlpPacket, (block.complete_sealTlp _).proto]
    rfl
  have tlps : tlpsIn (push (bumpSeqno world) (sealTlp (world.client.seqno + 1) tport)).2.log =
      tlpsIn world.log ++ [sealTlp (world.client.seqno + 1) tport] := by
    rw [push_log, tlpsIn_append, tlpsIn_tlp isTlp]
    rfl
  have next : world.client.seqno + 1 = BitVec.ofNat 32 ((tlpsIn world.log).length + 1) := by
    rw [numbered.seqno, BitVec.ofNat_add]
    rfl
  refine ⟨?_, ?_⟩
  · rw [tlps, List.length_append, List.length_singleton, ← next, push_client]
    split <;> rfl
  · rw [tlps]
    intro index packet found
    by_cases old : index < (tlpsIn world.log).length
    · rw [List.getElem?_append_left old] at found
      exact numbered.tlps index packet found
    · rw [List.getElem?_append_right (by omega), List.getElem?_singleton] at found
      split at found
      · rename_i last
        cases found
        have position : index = (tlpsIn world.log).length := by omega
        refine ⟨?_, block.lcrc_sealTlp _⟩
        rw [block.seqno_sealTlp, next, BitVec.toNat_ofNat, position]
        omega
      · cases found

theorem tlpsIn_ack (packet : Bytes) (count : Int) : tlpsIn [.sent (ackOf packet) count] = [] := by
  have proto := (ackFor_ackOf packet).complete.proto
  simp [tlpsIn, Event.sentPacket?, isTlpPacket, proto, PcieProto.code]

section

variable {world : World σ} (numbered : Numbered world)

include numbered

theorem Numbered.call {next : World σ} (step : CallStep world next) : Numbered next := by
  cases step with
  | registered client same => exact numbered.keep same.seqno (List.append_nil _).symm rfl
  | sentWrite tport block => exact numbered.pushTlp block
  | sentRead tport cb block =>
      have tagged : Numbered (bumpTag world) := numbered.keep rfl (List.append_nil _).symm rfl
      have sent := tagged.pushTlp block
      simp only [WarpPipe.sentRead]
      split
      · exact sent
      · exact sent.keep rfl rfl rfl

theorem Numbered.calls {final : World σ} (steps : CallSteps world final) : Numbered final := by
  induction steps with
  | refl => exact numbered
  | tail _ step ih => exact ih.call step

theorem Numbered.pushAck (packet : Bytes) : Numbered (push world (ackOf packet)).2 := by
  refine numbered.keep ?_ (push_log _ _) (tlpsIn_ack _ _)
  rw [push_client]
  split <;> rfl

theorem Numbered.served {pkt : Bytes} {final : World σ}
    (served : Served world pkt final) : Numbered final := by
  cases served with
  | ignored => exact numbered
  | read cb addr length error data app middle calls =>
      have asked : Numbered ({ world with app := app }.emit (.readCb cb addr length error data)) :=
        numbered.keep rfl rfl rfl
      exact (asked.calls calls).pushTlp (tlpBlock_completionPacket pkt data error)
  | write cb addr data length app final calls =>
      have asked : Numbered ({ world with app := app }.emit (.writeCb cb addr data length)) :=
        numbered.keep rfl rfl rfl
      exact asked.calls calls
  | completion tag cb data length app middle stored calls =>
      have invoked : Numbered ({ world with app := app }.emit (.completion tag cb 0 data length)) :=
        numbered.keep rfl rfl rfl
      exact (invoked.calls calls).keep rfl (List.append_nil _).symm rfl

theorem Numbered.read {cbs : Callbacks σ} {final : World σ} (step : ReadStep cbs world final) :
    Numbered final := by
  have refilled (incoming : Bytes) (recvs : List RecvStep) (buf : RecvBuffer) :
      Numbered (world.refill incoming recvs buf) := numbered.keep rfl (List.append_nil _).symm rfl
  have noted (incoming : Bytes) (recvs : List RecvStep) (buf : RecvBuffer) (packet : Bytes) :
      Numbered ((world.refill incoming recvs buf).emit (.packet packet)) :=
    (refilled incoming recvs buf).keep rfl rfl rfl
  cases step with
  | idle => exact refilled ..
  | dropped incoming recvs buf =>
      exact (refilled incoming recvs buf).keep rfl (List.append_nil _).symm rfl
  | dllp incoming recvs buf packet note => exact (noted incoming recvs buf packet).keep rfl rfl rfl
  | corrupted => exact noted ..
  | rejected incoming recvs buf packet => exact (noted incoming recvs buf packet).pushAck packet
  | accepted incoming recvs buf packet final handled =>
      exact ((noted incoming recvs buf packet).pushAck packet).served handled.served

theorem Numbered.step {cbs : Callbacks σ} {action : Action} {final : World σ}
    (ok : clientStep cbs world action = .ok final) : Numbered final := by
  cases action with
  | call call => exact numbered.call (clientStep_call ok)
  | receive arrived =>
      have joined : Numbered (world.arrive arrived) :=
        numbered.keep rfl (List.append_nil _).symm rfl
      exact joined.read (clientRead_ok ok)

end

/-! Requests and handlers send TLPs only. -/

structure SendsTlps (before after : World σ) : Prop where
  log : ∃ events, after.log = before.log ++ events ∧
    ∀ packet count, .sent packet count ∈ events →
      CompleteTlp packet ∧ pcieLcrc32Valid (packet.drop Transport.tUnion) = true

theorem SendsTlps.trans {first second third : World σ} (left : SendsTlps first second)
    (right : SendsTlps second third) : SendsTlps first third := by
  obtain ⟨early, earlyLog, earlyTlps⟩ := left.log
  obtain ⟨late, lateLog, lateTlps⟩ := right.log
  refine ⟨early ++ late, by rw [lateLog, earlyLog, List.append_assoc],
    fun packet count member => ?_⟩
  rcases List.mem_append.mp member with inEarly | inLate
  · exact earlyTlps packet count inEarly
  · exact lateTlps packet count inLate

theorem sendsTlps_quiet {before after : World σ} {events : List Event}
    (log : after.log = before.log ++ events) (none : events.filterMap Event.sentPacket? = []) :
    SendsTlps before after := by
  refine ⟨events, log, fun packet count member => ?_⟩
  have absent := List.filterMap_eq_nil_iff.mp none _ member
  cases absent

theorem sendsTlps_push (world : World σ) {tport : Bytes} (block : TlpBlock tport)
    (seqno : BitVec 32) :
    SendsTlps world (push world (sealTlp seqno tport)).2 := by
  refine ⟨_, push_log _ _, fun packet count member => ?_⟩
  cases List.mem_singleton.mp member
  exact ⟨block.complete_sealTlp seqno, block.lcrc_sealTlp seqno⟩

theorem CallStep.sendsTlps {world next : World σ} (step : CallStep world next) :
    SendsTlps world next := by
  cases step with
  | registered client same => exact sendsTlps_quiet (List.append_nil _).symm rfl
  | sentWrite tport block =>
      have counted : SendsTlps world (bumpSeqno world) :=
        sendsTlps_quiet (List.append_nil _).symm rfl
      exact counted.trans (sendsTlps_push _ block _)
  | sentRead tport cb block =>
      have counted : SendsTlps world (bumpSeqno (bumpTag world)) :=
        sendsTlps_quiet (List.append_nil _).symm rfl
      have sent := counted.trans (sendsTlps_push _ block (world.client.seqno + 1))
      simp only [WarpPipe.sentRead]
      split
      · exact sent
      · exact sent.trans (sendsTlps_quiet rfl rfl)

theorem CallSteps.sendsTlps {world final : World σ} (steps : CallSteps world final) :
    SendsTlps world final := by
  induction steps with
  | refl => exact sendsTlps_quiet (List.append_nil _).symm rfl
  | tail _ step ih => exact ih.trans step.sendsTlps

theorem Served.sendsTlps {world final : World σ} {pkt : Bytes}
    (served : Served world pkt final) : SendsTlps world final := by
  cases served with
  | ignored => exact sendsTlps_quiet (List.append_nil _).symm rfl
  | read cb addr length error data app middle calls =>
      have asked :
          SendsTlps world ({ world with app := app }.emit (.readCb cb addr length error data)) :=
        sendsTlps_quiet rfl rfl
      have counted : SendsTlps middle (bumpSeqno middle) :=
        sendsTlps_quiet (List.append_nil _).symm rfl
      exact ((asked.trans (CallSteps.sendsTlps calls)).trans counted).trans
        (sendsTlps_push _ (tlpBlock_completionPacket pkt data error) _)
  | write cb addr data length app final calls =>
      have asked :
          SendsTlps world ({ world with app := app }.emit (.writeCb cb addr data length)) :=
        sendsTlps_quiet rfl rfl
      exact asked.trans (CallSteps.sendsTlps calls)
  | completion tag cb data length app middle stored calls =>
      have invoked : SendsTlps world
          ({ world with app := app }.emit (.completion tag cb 0 data length)) :=
            sendsTlps_quiet rfl rfl
      exact (invoked.trans (CallSteps.sendsTlps calls)).trans
        (sendsTlps_quiet (List.append_nil _).symm rfl)

structure SameState (before after : Client) : Prop where
  seqno : after.seqno = before.seqno
  readTag : after.readTag = before.readTag
  completionCb : after.completionCb = before.completionCb
  bar : after.bar = before.bar
  barSize : after.barSize = before.barSize
  barReadCb : after.barReadCb = before.barReadCb
  barWriteCb : after.barWriteCb = before.barWriteCb

/-- How the link layer treats a TLP: one DLLP goes out first, no other follows, and a TLP that is
not acknowledged has no effect. -/
structure TlpAnswered (before after : World σ) (packet : Bytes) : Prop where
  answer : ∃ ack others, sentPackets before after = ack :: others ∧
    AckFor (if pcieLcrc32Valid (packet.drop Transport.tUnion) then .ack else .nak)
      (receivedSeqno (packet.drop Transport.tUnion)) ack ∧
    ∀ other ∈ others, CompleteTlp other
  refused : pcieLcrc32Valid (packet.drop Transport.tUnion) = false →
    invocations before after = [] ∧ SameState before.client after.client

structure Rested (world : World σ) : Prop where
  sends : world.sock.SendsAll
  incoming : world.sock.incoming = []
  recvs : world.sock.recvs = []

theorem Rested.next {world : World σ} (rested : Rested world) (packet : Bytes) :
    Next (world.arrive packet).sock packet [] [] :=
  Waiting.next ⟨rested.incoming, rested.recvs⟩ packet

section

variable {cbs : Callbacks σ} {world : World σ} (rested : Rested world) {packet : Bytes}

include rested

theorem Rested.arrives (complete : CompleteTlp packet) (fits : packet.length ≤ clientBufferSize) :
    Arrives (world.arrive packet).sock packet [] [] := by
  have next := rested.next packet
  have long := complete.long
  have seven : headerSize = 7 := rfl
  exact ⟨next.stream, by omega, fits, next.schedule⟩

theorem Rested.acked (packet : Bytes) :
    ∃ sock, sock.incoming = [] ∧ sock.recvs = [] ∧ sock.SendsAll ∧
      (world.arrive packet).acked packet [] [] =
        { client := { world.client with buf := world.client.buf.store 0 packet }
          sock := sock
          app := world.app
          log := world.log ++ [.packet packet, .sent (ackOf packet) (ackOf packet).length] } :=
  acked_all (show (world.arrive packet).sock.SendsAll from rested.sends) packet [] []

theorem receive_validTlp (valid : cbs.Valid) (complete : CompleteTlp packet)
    (fits : packet.length ≤ clientBufferSize) (below : TagBelow (packet.drop Transport.tTlp))
    (crc : pcieLcrc32Valid (packet.drop Transport.tUnion) = true) :
    ∃ after, clientStep cbs world (.receive packet) = .ok after ∧ TlpAnswered world after packet ∧
      Rested after := by
  have long := complete.long
  have start : Transport.tTlp = 3 := rfl
  have arrives := rested.arrives complete fits
  obtain ⟨sock, incoming, schedule, sends, acked⟩ := rested.acked packet
  have belowBuf :=
    TagBelow.congr ((arrives.agree_received.drop Transport.tTlp).mono (by omega)) below
  obtain ⟨final, handled⟩ :=
    handleTlp_total valid ((world.arrive packet).acked packet [] []) belowBuf
  have served := (handleTlp_dispatched handled).served
  have settled := served.settled
  obtain ⟨events, eventsLog, tlps⟩ := served.sendsTlps.log
  rw [acked, List.append_assoc] at eventsLog
  refine ⟨final, ?_,
    ⟨⟨ackOf packet, events.filterMap Event.sentPacket?, ?_, ackFor_ackOf packet, ?_⟩, ?_⟩,
    (served.active (by rw [acked]; exact sends)).2, ?_, ?_⟩
  · rw [clientStep, clientRead_tlp arrives cbs complete, if_pos crc]
    exact handled
  · rw [sentPackets, fresh_eq eventsLog, List.filterMap_append]
    rfl
  · intro other member
    obtain ⟨event, inEvents, found⟩ := List.mem_filterMap.mp member
    cases event with
    | sent bytes count =>
        cases found
        exact (tlps _ _ inEvents).1
    | _ => cases found
  · intro refused
    rw [crc] at refused
    cases refused
  · rw [settled.incoming, acked, incoming]
  · rw [settled.recvs, acked, schedule]

theorem receive_corruptTlp (complete : CompleteTlp packet) (fits : packet.length ≤ clientBufferSize)
    (crc : pcieLcrc32Valid (packet.drop Transport.tUnion) = false) :
    ∃ after, clientStep cbs world (.receive packet) = .ok after ∧ TlpAnswered world after packet ∧
      Rested after := by
  obtain ⟨sock, incoming, schedule, sends, acked⟩ := rested.acked packet
  have log := congrArg World.log acked
  refine ⟨(world.arrive packet).acked packet [] [], ?_,
    ⟨⟨ackOf packet, [], ?_, ackFor_ackOf packet, nofun⟩, ?_⟩, ?_⟩
  · rw [clientStep, clientRead_tlp (rested.arrives complete fits) cbs complete, crc]
    rfl
  · rw [sentPackets, fresh_eq log]
    rfl
  · intro _
    refine ⟨by rw [invocations, fresh_eq log]; rfl, ?_⟩
    rw [acked]
    exact ⟨rfl, rfl, rfl, rfl, rfl, rfl, rfl⟩
  · rw [acked]
    exact ⟨sends, incoming, schedule⟩

theorem receive_tlp (valid : cbs.Valid) (complete : CompleteTlp packet)
    (fits : packet.length ≤ clientBufferSize) (below : TagBelow (packet.drop Transport.tTlp)) :
    ∃ after, clientStep cbs world (.receive packet) = .ok after ∧ TlpAnswered world after packet ∧
      Rested after := by
  cases crc : pcieLcrc32Valid (packet.drop Transport.tUnion) with
  | true => exact receive_validTlp rested valid complete fits below crc
  | false => exact receive_corruptTlp rested complete fits crc

theorem receive_dllp (complete : CompleteDllp packet) :
    ∃ after, clientStep cbs world (.receive packet) = .ok after ∧ sentPackets world after = [] ∧
      Rested after := by
  obtain ⟨final, notes, read, log, kinds, -, sock, -⟩ :=
    clientRead_ack cbs complete (rested.next packet)
  refine ⟨final, read, ?_, ⟨by rw [sock]; exact rested.sends, by rw [sock], by rw [sock]⟩⟩
  have none : notes.filterMap Event.sentPacket? = [] := by
    rw [List.filterMap_eq_nil_iff]
    intro event member
    obtain ⟨note, rfl⟩ := kinds event member
    rfl
  rw [sentPackets, fresh_eq (show final.log = world.log ++ _ from log), List.filterMap_cons, none]
  rfl

end

/-- A request that C defines, or the arrival of one complete packet of a known format that fits the
buffer, corrupted or not. -/
def Deliverable : Action → Prop
  | .call call => call.Valid
  | .receive packet => packet.length ≤ clientBufferSize ∧
      (CompleteDllp packet ∨ CompleteTlp packet ∧ TagBelow (packet.drop Transport.tTlp))

theorem Rested.step {cbs : Callbacks σ} (valid : cbs.Valid) {world : World σ}
    (rested : Rested world) {action : Action} (deliverable : Deliverable action) :
    ∃ next, clientStep cbs world action = .ok next ∧ Rested next := by
  cases action with
  | call call =>
      obtain ⟨result, ran⟩ := Call.run_valid world deliverable
      have step := Call.run_ok ran
      have undisturbed := step.undisturbed
      refine ⟨result.2, by simp only [clientStep, ran, Except.map],
        (step.active rested.sends).2, ?_, ?_⟩
      · rw [undisturbed.incoming, rested.incoming]
      · rw [undisturbed.recvs, rested.recvs]
  | receive packet =>
      obtain ⟨fits, dllp | ⟨tlp, below⟩⟩ := deliverable
      · obtain ⟨next, ok, -, stays⟩ := receive_dllp rested dllp
        exact ⟨next, ok, stays⟩
      · obtain ⟨next, ok, -, stays⟩ := receive_tlp rested valid tlp fits below
        exact ⟨next, ok, stays⟩

theorem createdWorld_numbered (memory : Client) (fd : Int) (sock : Socket) (app : σ) :
    Numbered (createdWorld memory fd sock app) :=
  ⟨rfl, fun index packet found => by simp [createdWorld, tlpsIn] at found⟩

/-- A created client whose sends work. In every run the `n`-th TLP it sent carries `n` modulo 4096
and a valid LCRC. After every sequence of requests and complete packets, the next TLP that arrives
is answered by one ACK or NAK, before anything else it makes the client send, and has no effect
when it is corrupted; a DLLP is answered by nothing. -/
theorem link_layer {cbs : Callbacks σ} (valid : cbs.Valid) (memory : Client) (fd : Int) (app : σ)
    {sends : List SendStep} (all : ∀ step ∈ sends, step = .all) (actions : List Action) :
    (∀ world, Runs.run (clientStep cbs) (createdWorld memory fd ⟨[], [], sends⟩ app)
        actions = .ok world →
      ∀ index packet, (tlpsIn world.log)[index]? = some packet →
        receivedSeqno (packet.drop Transport.tUnion) = (index + 1) % 4096 ∧
          pcieLcrc32Valid (packet.drop Transport.tUnion) = true) ∧
    ((∀ action ∈ actions, Deliverable action) →
      ∃ world, Runs.run (clientStep cbs) (createdWorld memory fd ⟨[], [], sends⟩ app)
          actions = .ok world ∧
        (∀ packet, CompleteTlp packet → packet.length ≤ clientBufferSize →
          TagBelow (packet.drop Transport.tTlp) →
          ∃ after, clientStep cbs world (.receive packet) = .ok after ∧
            TlpAnswered world after packet) ∧
        (∀ packet, CompleteDllp packet →
          ∃ after, clientStep cbs world (.receive packet) = .ok after ∧
            sentPackets world after = [])) := by
  refine ⟨fun world ran => ?_, fun deliverable => ?_⟩
  · have numbered : Numbered world := Runs.run_invariant
      (fun _ _ _ holds _ ok => holds.step ok) (createdWorld_numbered memory fd _ app)
      (Runs.along_of_forall _ fun _ _ => trivial) ran
    exact numbered.tlps
  · obtain ⟨world, ran, rested⟩ := Runs.run_total
      (fun (state : World σ) action (holds : Rested state) (allowed : Deliverable action) =>
        holds.step valid allowed)
      (show Rested (createdWorld memory fd ⟨[], [], sends⟩ app) from ⟨all, rfl, rfl⟩)
      (Runs.along_of_forall _ deliverable)
    refine ⟨world, ran, fun packet complete fits below => ?_, fun packet complete => ?_⟩
    · obtain ⟨after, ok, answered, -⟩ := receive_tlp rested valid complete fits below
      exact ⟨after, ok, answered⟩
    · obtain ⟨after, ok, silent, -⟩ := receive_dllp rested complete
      exact ⟨after, ok, silent⟩

theorem sampleRead_answered :
    ∃ world after,
      Runs.run (clientStep silentCallbacks)
        (createdWorld (clientWith []).client 3 ⟨[], [], [.all]⟩ ())
        [.call (.config0Read 0 4 none), .receive sampleRead] = .ok world ∧
      clientStep silentCallbacks world (.receive sampleRead) = .ok after ∧
      TlpAnswered world after sampleRead := by
  have complete : CompleteTlp sampleRead :=
    (tlpBlock_readBlock (Or.inr rfl) 0 0 4).complete_sealTlp _
  have fits : sampleRead.length ≤ clientBufferSize := by
    rw [length_sampleRead]
    decide
  have below := (emitted_sampleRead.sound fits).tags complete
  obtain ⟨world, ran, answered, -⟩ := (link_layer silent_valid (clientWith []).client 3 ()
    (show ∀ step ∈ [SendStep.all], step = .all by simp)
      [.call (.config0Read 0 4 none), .receive sampleRead]).2
      (by simp [Deliverable, Call.Valid, complete, below, fits])
  obtain ⟨after, ok, holds⟩ := answered sampleRead complete fits below
  exact ⟨world, after, ran, ok, holds⟩

end WarpPipe
