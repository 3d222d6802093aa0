import WarpPipe.Messages

/-!
What the receiving half of the client does when a complete packet arrives: the receive loop puts
its bytes into the buffer however `recv` splits them, and the packet is then processed as a whole.
-/

namespace WarpPipe

open ByteLayout

variable {σ : Type}

/-- The schedule that is left when the receive loop has its `count` bytes; none if a `recv` on the
way there reports an error. -/
def delivers : List RecvStep → Nat → Option (List RecvStep)
  | recvs, 0 => some recvs
  | [], _ + 1 => some []
  | .deliver more :: rest, count + 1 => delivers rest (count - more)
  | _ :: _, _ + 1 => none

def packetSchedule : List RecvStep → Nat → Option (List RecvStep)
  | [], _ => some []
  | .deliver more :: rest, count => if headerSize ≤ more + 1 then delivers rest count else none
  | _ :: _, _ => none

def World.absorb (world : World σ) (offset count : Nat) (recvs : List RecvStep) : World σ :=
  { world with
    sock := { world.sock with incoming := world.sock.incoming.drop count, recvs := recvs }
    client := { world.client with
      buf := world.client.buf.store offset (world.sock.incoming.take count) } }

theorem absorb_absorb (world : World σ) (offset first second : Nat) (recvs later : List RecvStep)
    (available : first ≤ world.sock.incoming.length) :
    (world.absorb offset first recvs).absorb (offset + first) second later =
      world.absorb offset (first + second) later := by
  have taken : (world.sock.incoming.take first).length = first := by
    rw [List.length_take, Nat.min_eq_left available]
  have joined := overwrite_append world.client.buf.bytes (world.sock.incoming.take first)
    ((world.sock.incoming.drop first).take second) offset
  rw [taken, ← List.take_add] at joined
  simp only [World.absorb, RecvBuffer.store, List.drop_drop]
  congr

theorem take_eq (sock : Socket) (limit : Nat) (recvs : List RecvStep) (positive : 1 ≤ limit)
    (available : 1 ≤ sock.incoming.length) :
    sock.take limit recvs = (.received (sock.incoming.take limit),
      { sock with incoming := sock.incoming.drop limit, recvs := recvs }) := by
  rw [Socket.take, if_neg]
  intro empty
  have length := congrArg List.length empty
  simp only [List.length_take, List.length_nil] at length
  omega

theorem recvInto_take (world : World σ) (offset count limit : Nat) (rest : List RecvStep)
    (positive : 1 ≤ limit) (available : 1 ≤ world.sock.incoming.length)
    (recv : world.sock.recv count = world.sock.take limit rest)
    (inside : offset + limit ≤ clientBufferSize) :
    recvInto world offset count =
      .ok (.received (world.sock.incoming.take limit), world.absorb offset limit rest) := by
  rw [recvInto, recv, take_eq _ _ _ positive available]
  refine if_pos ?_
  rw [List.length_take]
  omega

theorem recvInto_deliver (world : World σ) (offset count more : Nat) (rest : List RecvStep)
    (next : world.sock.recvs = .deliver more :: rest) (positive : 1 ≤ count)
    (available : 1 ≤ world.sock.incoming.length) (inside : offset + count ≤ clientBufferSize) :
    recvInto world offset count =
      .ok (.received (world.sock.incoming.take (min count (more + 1))),
        world.absorb offset (min count (more + 1)) rest) := by
  apply recvInto_take _ _ _ _ _ (by omega) available _ (by omega)
  rw [Socket.recv, next]

theorem recvInto_unscheduled (world : World σ) (offset count : Nat)
    (done : world.sock.recvs = []) (positive : 1 ≤ count)
    (available : 1 ≤ world.sock.incoming.length) (inside : offset + count ≤ clientBufferSize) :
    recvInto world offset count =
      .ok (.received (world.sock.incoming.take count), world.absorb offset count []) := by
  apply recvInto_take _ _ _ _ _ positive available _ inside
  rw [Socket.recv, done]

theorem receiveLoop_done (fuel : Nat) (world : World σ) (len total : Nat) (done : total ≤ len) :
    receiveLoop fuel world len total = .ok (true, world) := by
  cases fuel <;> simp [receiveLoop, Nat.not_lt.mpr done]

theorem receiveLoop_delivers (fuel : Nat) (world : World σ) (len total : Nat)
    (later : List RecvStep) (schedule : delivers world.sock.recvs (total - len) = some later)
    (available : total - len ≤ world.sock.incoming.length) (enough : total - len ≤ fuel)
    (inside : total ≤ clientBufferSize) :
    receiveLoop fuel world len total = .ok (true, world.absorb len (total - len) later) := by
  induction fuel generalizing world len with
  | zero =>
      rw [receiveLoop_done _ _ _ _ (by omega)]
      have none : total - len = 0 := by omega
      rw [none] at schedule ⊢
      simp only [delivers, Option.some.injEq] at schedule
      subst later
      rfl
  | succ fuel ih =>
      by_cases more : len < total
      · obtain ⟨count, remaining⟩ : ∃ count, total - len = count + 1 := ⟨total - len - 1, by omega⟩
        rw [receiveLoop, if_pos more]
        cases recvs : world.sock.recvs with
        | nil =>
            rw [recvs, remaining] at schedule
            simp only [delivers, Option.some.injEq] at schedule
            subst later
            simp only [recvInto_unscheduled world len (total - len) recvs (by omega)
              (by omega) (by omega)]
            rw [List.length_take, Nat.min_eq_left available]
            exact receiveLoop_done _ _ _ _ (by omega)
        | cons step rest =>
            cases step with
            | deliver extra =>
                rw [recvs, remaining] at schedule
                simp only [delivers] at schedule
                simp only [recvInto_deliver world len (total - len) extra rest recvs (by omega)
                  (by omega) (by omega)]
                have taken : (world.sock.incoming.take (min (total - len) (extra + 1))).length =
                    min (total - len) (extra + 1) := by
                  rw [List.length_take]
                  omega
                rw [taken]
                have left : total - (len + min (total - len) (extra + 1)) =
                  count - extra := by omega
                rw [ih]
                · rw [absorb_absorb _ _ _ _ _ _ (by omega)]
                  congr
                  omega
                · rw [left]
                  exact schedule
                · simp only [World.absorb, List.length_drop]
                  omega
                · omega
            | again => simp [delivers, recvs, remaining] at schedule
            | failed => simp [delivers, recvs, remaining] at schedule
            | closed => simp [delivers, recvs, remaining] at schedule
      · rw [receiveLoop_done _ _ _ _ (by omega)]
        have none : total - len = 0 := by omega
        rw [none] at schedule ⊢
        simp only [delivers, Option.some.injEq] at schedule
        subst later
        rfl

def World.received (world : World σ) (packet rest : Bytes) (later : List RecvStep) : World σ :=
  { world with
    sock := { world.sock with incoming := rest, recvs := later }
    client := { world.client with buf := world.client.buf.store 0 packet } }.emit (.packet packet)

structure Arrives (sock : Socket) (packet rest : Bytes) (later : List RecvStep) : Prop where
  stream : sock.incoming = packet ++ rest
  header : headerSize ≤ packet.length
  fits : packet.length ≤ clientBufferSize
  schedule : packetSchedule sock.recvs (packet.length - headerSize) = some later

def ackOf (packet : Bytes) : Bytes :=
  sealDllp (ackPacket (if pcieLcrc32Valid (packet.drop Transport.tUnion) then .ack else .nak)
    (receivedSeqno (packet.drop Transport.tUnion)))

theorem receivedSeqno_lt (pkt : Bytes) : receivedSeqno pkt < 4096 := by
  have hi : PcieDltlp.dlSeqnoHi.get pkt < 16 := PcieDltlp.dlSeqnoHi.get_lt pkt
  have lo : PcieDltlp.dlSeqnoLo.get pkt < 256 := PcieDltlp.dlSeqnoLo.get_lt pkt
  rw [receivedSeqno, lengthField_eq _ _ lo]
  omega

theorem ackFor_ackOf (packet : Bytes) :
    AckFor (if pcieLcrc32Valid (packet.drop Transport.tUnion) then .ack else .nak)
      (receivedSeqno (packet.drop Transport.tUnion)) (ackOf packet) :=
  ackFor_sealDllp _ _ (receivedSeqno_lt _)

theorem processTlp_crc {buf : RecvBuffer} {packet : Bytes}
    (agree : AgreeBelow packet.length buf.bytes packet) (complete : CompleteTlp packet)
    (fits : packet.length ≤ clientBufferSize) :
    pcieLcrc32Valid (buf.bytes.drop Transport.tUnion) =
      pcieLcrc32Valid (packet.drop Transport.tUnion) := by
  have inner := agree.drop Transport.tUnion
  have least := tlpTotalLength_ge complete.known
  have announced := complete.length
  have seven : headerSize = 7 := rfl
  have one : Transport.tUnion = 1 := rfl
  have size : clientBufferSize = 4117 := rfl
  have offset : lcrcOffset (packet.drop Transport.tUnion) + 4 =
      packet.length - Transport.tUnion := by
    have known := complete.known
    rw [lcrcOffset, List.drop_drop, show PcieDltlp.dlTlp = 2 from rfl,
      show Transport.tUnion + 2 = Transport.tTlp from rfl]
    omega
  apply pcieLcrc32Valid_congr (by rw [offset]; exact inner) (inner.mono (by omega))
  · rw [List.length_drop, RecvBuffer.length_bytes]
    omega
  · rw [List.length_drop]
    omega

/-- The link layer answers every TLP; only a valid one reaches its handler. -/
theorem processTlp_eq (cbs : Callbacks σ) {world : World σ} {packet : Bytes}
    (agree : AgreeBelow packet.length world.client.buf.bytes packet) (complete : CompleteTlp packet)
    (fits : packet.length ≤ clientBufferSize) :
    processTlp cbs world =
      if pcieLcrc32Valid (packet.drop Transport.tUnion) then
        handleTlp cbs (push world (ackOf packet)).2 (world.client.buf.bytes.drop Transport.tTlp)
      else .ok (push world (ackOf packet)).2 := by
  have inner := agree.drop Transport.tUnion
  have least := tlpTotalLength_ge complete.known
  have announced := complete.length
  have seven : headerSize = 7 := rfl
  have one : Transport.tUnion = 1 := rfl
  have valid := processTlp_crc agree complete fits
  have seqno : receivedSeqno (world.client.buf.bytes.drop Transport.tUnion) =
      receivedSeqno (packet.drop Transport.tUnion) := by
    rw [receivedSeqno, receivedSeqno,
      inner.get PcieDltlp.dlSeqnoHi (show 0 < packet.length - Transport.tUnion by omega),
      inner.get PcieDltlp.dlSeqnoLo (show 1 < packet.length - Transport.tUnion by omega)]
  obtain ⟨rc, acked⟩ := warppipeAck_eq world
    (if pcieLcrc32Valid (packet.drop Transport.tUnion) then .ack else .nak)
    (receivedSeqno (packet.drop Transport.tUnion))
  simp only [processTlp, valid, seqno, acked, bind, Except.bind, List.drop_drop]
  rfl

section

variable {world : World σ} {packet rest : Bytes} {later : List RecvStep}
variable (arrives : Arrives world.sock packet rest later)

include arrives

theorem Arrives.recvHeader :
    ∃ recvs, delivers recvs (packet.length - headerSize) = some later ∧
      recvInto world 0 headerSize =
        .ok (.received (packet.take headerSize), world.absorb 0 headerSize recvs) := by
  have stream := arrives.stream
  have header := arrives.header
  have schedule := arrives.schedule
  have seven : headerSize = 7 := rfl
  have size : clientBufferSize = 4117 := rfl
  have length := congrArg List.length stream
  rw [List.length_append] at length
  have taken : world.sock.incoming.take headerSize = packet.take headerSize := by
    rw [stream, List.take_append_of_le_length header]
  cases recvs : world.sock.recvs with
  | nil =>
      rw [recvs] at schedule
      simp only [packetSchedule, Option.some.injEq] at schedule
      refine ⟨[], ?_, ?_⟩
      · subst later
        cases packet.length - headerSize <;> rfl
      · rw [recvInto_unscheduled world 0 headerSize recvs (by omega) (by omega) (by omega), taken]
  | cons step tail =>
      cases step with
      | deliver more =>
          rw [recvs, packetSchedule] at schedule
          by_cases whole : headerSize ≤ more + 1
          · rw [if_pos whole] at schedule
            refine ⟨tail, schedule, ?_⟩
            rw [recvInto_deliver world 0 headerSize more tail recvs (by omega)
                (by omega) (by omega),
              Nat.min_eq_left whole, taken]
          · rw [if_neg whole] at schedule
            cases schedule
      | again => simp [packetSchedule, recvs] at schedule
      | failed => simp [packetSchedule, recvs] at schedule
      | closed => simp [packetSchedule, recvs] at schedule

theorem Arrives.absorb_packet :
    (world.absorb 0 packet.length later).emit (.packet packet) =
      world.received packet rest later := by
  have stream := arrives.stream
  simp only [World.absorb, World.received, World.emit, stream, List.take_left', List.drop_left']

theorem Arrives.bytes_received :
    (world.received packet rest later).client.buf.bytes =
      packet ++ world.client.buf.bytes.drop packet.length := by
  have fits := arrives.fits
  exact overwrite_zero _ _ (by rw [world.client.buf.length_bytes]; exact fits)

omit arrives in
theorem take_absorb_header (stream : world.sock.incoming = packet ++ rest)
    (header : headerSize ≤ packet.length) (recvs : List RecvStep) :
    AgreeBelow headerSize (world.absorb 0 headerSize recvs).client.buf.bytes packet := by
  intro index bound
  have seven : headerSize = 7 := rfl
  have size : clientBufferSize = 4117 := rfl
  have length := world.client.buf.length_bytes
  have taken : world.sock.incoming.take headerSize = packet.take headerSize := by
    rw [stream, List.take_append_of_le_length header]
  simp only [World.absorb, RecvBuffer.store, taken]
  rw [overwrite_zero _ _ (by rw [List.length_take]; omega),
    getByte_append_left (by rw [List.length_take]; omega), getByte_take bound]

theorem clientRead_processTlp (cbs : Callbacks σ) (complete : CompleteTlp packet) :
    warppipeClientRead cbs world = processTlp cbs (world.received packet rest later) := by
  obtain ⟨recvs, schedule, recvHeader⟩ := arrives.recvHeader
  have header := arrives.header
  have fits := arrives.fits
  have stream := arrives.stream
  have seven : headerSize = 7 := rfl
  have start : Transport.tTlp = 3 := rfl
  have agree := take_absorb_header stream header recvs
  have length := congrArg List.length stream
  rw [List.length_append] at length
  have proto : PcieProto.ofCode?
      (Transport.tProto.get (world.absorb 0 headerSize recvs).client.buf.bytes) = some .tlp := by
    rw [agree.get Transport.tProto (by decide), complete.proto]
    rfl
  have total :
      tlpTotalLength ((world.absorb 0 headerSize recvs).client.buf.bytes.drop Transport.tTlp) =
      ((packet.length - headerSize : Nat) : Int) := by
    rw [tlpTotalLength_congr (agree.drop Transport.tTlp)]
    have announced := complete.length
    omega
  have loop := receiveLoop_delivers (packet.length - headerSize) (world.absorb 0 headerSize recvs)
    headerSize packet.length later schedule (by simp only [World.absorb, List.length_drop]; omega)
    (Nat.le_refl _) fits
  have joined :=
    absorb_absorb world 0 headerSize (packet.length - headerSize) recvs later (by omega)
  rw [Nat.zero_add, Nat.add_sub_cancel' header] at joined
  rw [joined] at loop
  have bytes := arrives.bytes_received
  rw [← arrives.absorb_packet] at bytes
  have prefixed : (world.absorb 0 packet.length later).client.buf.bytes.take
      packet.length = packet := by
    rw [show (world.absorb 0 packet.length later).client.buf.bytes = _ from bytes, List.take_left']
    rfl
  simp only [warppipeClientRead, recvHeader]
  rw [if_pos (by rw [List.length_take]; omega), readPacket, proto]
  simp only [readTlp, total, Int.toNat_natCast, Nat.sub_add_cancel header]
  rw [if_neg (by omega), if_pos fits, loop]
  simp only [bind, Except.bind, if_true, prefixed, arrives.absorb_packet]

theorem clientRead_dllp (cbs : Callbacks σ) (complete : CompleteDllp packet) :
    warppipeClientRead cbs world =
      .ok (if pcieCrc16Valid (packet.drop Transport.tUnion) then
        handleDllp (world.received packet rest later)
          ((world.received packet rest later).client.buf.bytes.drop Transport.tUnion)
      else world.received packet rest later) := by
  obtain ⟨recvs, schedule, recvHeader⟩ := arrives.recvHeader
  have header := arrives.header
  have length := complete.length
  have agree := take_absorb_header arrives.stream header recvs
  have proto : PcieProto.ofCode?
      (Transport.tProto.get (world.absorb 0 headerSize recvs).client.buf.bytes) = some .dllp := by
    rw [agree.get Transport.tProto (by decide), complete.proto]
    rfl
  rw [length, Nat.sub_self, delivers, Option.some.injEq] at schedule
  subst recvs
  have whole := arrives.absorb_packet
  have bytes := arrives.bytes_received
  rw [length] at whole
  rw [← whole] at bytes ⊢
  have prefixed : (world.absorb 0 headerSize later).client.buf.bytes.take headerSize = packet := by
    rw [show (world.absorb 0 headerSize later).client.buf.bytes = _ from bytes, ← length,
      List.take_left']
    rfl
  have valid :
      pcieCrc16Valid ((world.absorb 0 headerSize later).client.buf.bytes.drop Transport.tUnion) =
      pcieCrc16Valid (packet.drop Transport.tUnion) := by
    apply pcieCrc16Valid_congr (agree.drop Transport.tUnion)
    · rw [List.length_drop, RecvBuffer.length_bytes]
      decide
    · rw [List.length_drop, length]
      decide
  simp only [warppipeClientRead, recvHeader]
  rw [if_pos (by rw [List.length_take, length]; rfl), readPacket, proto]
  simp only [readDllp, prefixed, valid]
  rfl

theorem Arrives.agree_received :
    AgreeBelow packet.length (world.received packet rest later).client.buf.bytes packet := by
  rw [arrives.bytes_received]
  exact agreeBelow_append _ _

theorem clientRead_tlp (cbs : Callbacks σ) (complete : CompleteTlp packet) :
    warppipeClientRead cbs world =
      if pcieLcrc32Valid (packet.drop Transport.tUnion) then
        handleTlp cbs (push (world.received packet rest later) (ackOf packet)).2
          ((world.received packet rest later).client.buf.bytes.drop Transport.tTlp)
      else .ok (push (world.received packet rest later) (ackOf packet)).2 := by
  rw [clientRead_processTlp arrives cbs complete,
    processTlp_eq cbs arrives.agree_received complete arrives.fits]

end

def streamSchedule : List RecvStep → List Bytes → Option (List RecvStep)
  | recvs, [] => some recvs
  | recvs, packet :: rest =>
    (packetSchedule recvs (packet.length - headerSize)).bind fun later => streamSchedule later rest

theorem streamSchedule_nil (packets : List Bytes) : streamSchedule [] packets = some [] := by
  induction packets with
  | nil => rfl
  | cons packet rest ih => exact ih

def clientReads (cbs : Callbacks σ) : Nat → World σ → Outcome (World σ)
  | 0, world => .ok world
  | count + 1, world => (warppipeClientRead cbs world).bind (clientReads cbs count)

end WarpPipe
