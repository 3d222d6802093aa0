import WarpPipe.Trace

/-!
The library hands the state of the application through, and never looks at its log. A client behaves
the same for an application that shows less of its state, and after whatever happened before.
-/

namespace WarpPipe

open ByteLayout

variable {σ τ : Type}

def World.seen (view : σ → τ) (earlier : List Event) (world : World σ) : World τ where
  client := world.client
  sock := world.sock
  app := view world.app
  log := earlier ++ world.log

/-- What `view` shows of the callbacks are the callbacks `other`. -/
structure Callbacks.Through (cbs : Callbacks σ) (view : σ → τ) (other : Callbacks τ) : Prop where
  read : ∀ cb app addr length, other.read cb (view app) addr length =
    { app := view (cbs.read cb app addr length).app, error := (cbs.read cb app addr length).error
      data := (cbs.read cb app addr length).data, calls := (cbs.read cb app addr length).calls }
  write : ∀ cb app addr data length, other.write cb (view app) addr data length =
    ⟨view (cbs.write cb app addr data length).app, (cbs.write cb app addr data length).calls⟩
  completion : ∀ cb app errorCode data length,
    other.completion cb (view app) errorCode data length =
    ⟨view (cbs.completion cb app errorCode data length).app,
      (cbs.completion cb app errorCode data length).calls⟩

section

variable (view : σ → τ) (earlier : List Event)

-- In brackets, so that `simp` rewrites with these by congruence: the conditions of the functions
-- below are decided on the client, and a definitional rewrite would leave the instances behind.
theorem seen_client (world : World σ) : (world.seen view earlier).client = world.client := (rfl)

theorem seen_sock (world : World σ) : (world.seen view earlier).sock = world.sock := (rfl)

theorem seen_app (world : World σ) : (world.seen view earlier).app = view world.app := (rfl)

theorem emit_seen (world : World σ) (event : Event) :
    (world.seen view earlier).emit event = (world.emit event).seen view earlier := by
  simp only [World.emit, World.seen, List.append_assoc]

def seenResult {ρ : Type} (result : Outcome (ρ × World σ)) : Outcome (ρ × World τ) :=
  result.map fun (value, after) => (value, after.seen view earlier)

theorem handleDllp_seen (world : World σ) (pkt : Bytes) :
    handleDllp (world.seen view earlier) pkt = (handleDllp world pkt).seen view earlier := by
  simp only [handleDllp, emit_seen]
  split
  · rfl
  · split
    · rfl
    · rfl

theorem transmit_seen (world : World σ) (tport : Bytes) (packetLength : Int) :
    transmit (world.seen view earlier) tport packetLength =
      seenResult view earlier (transmit world tport packetLength) := by
  by_cases fits : packetLength.toNat ≤ tport.length
  · by_cases whole : (world.sock.send (tport.take packetLength.toNat)).1 ≠ packetLength
    · have same : ((world.seen view earlier).sock.send (tport.take packetLength.toNat)).1 ≠
        packetLength := whole
      simp only [transmit, if_pos fits, if_pos whole, if_pos same, seenResult, Except.map,
        Except.ok.injEq, Prod.mk.injEq, true_and]
      simp only [World.deactivate, World.emit, World.seen, List.append_assoc]
    · have same : ¬((world.seen view earlier).sock.send (tport.take packetLength.toNat)).1 ≠
        packetLength := whole
      simp only [transmit, if_pos fits, if_neg whole, if_neg same, seenResult, Except.map]
      simp only [World.emit, World.seen, List.append_assoc]
  · simp only [transmit, if_neg fits, seenResult, Except.map]

theorem clientSendPcieTransport_seen (world : World σ) (tport : Bytes) :
    clientSendPcieTransport (world.seen view earlier) tport =
      seenResult view earlier (clientSendPcieTransport world tport) := by
  simp only [clientSendPcieTransport, seen_client]
  split
  · by_cases room :
        lcrcOffset ((onUnion (setSeqno (world.client.seqno + 1)) tport).drop Transport.tUnion) + 4 ≤
        ((onUnion (setSeqno (world.client.seqno + 1)) tport).drop Transport.tUnion).length
    · rw [if_pos room, if_pos room]
      exact transmit_seen view earlier
        { world with client := { world.client with seqno := world.client.seqno + 1 } } _ _
    · rw [if_neg room, if_neg room]
      rfl
  · exact transmit_seen view earlier world _ _
  · exact transmit_seen view earlier world _ _

theorem readImp_seen (world : World σ) (addr : BitVec 64) (length : Int) (cb : Option FnPtr)
    (type : PcieTlpType) :
    warppipeReadImp (world.seen view earlier) addr length cb type =
      seenResult view earlier (warppipeReadImp world addr length cb type) := by
  have sent := clientSendPcieTransport_seen view earlier
    { world with client := { world.client with readTag := world.client.readTag + 1 } }
    (onTlp (fun tlp => tlpReqSetAddr tlp addr length) (readRequest world.client.readTag type))
  simp only [warppipeReadImp, World.seen] at sent ⊢
  rw [sent]
  cases clientSendPcieTransport
      { world with client := { world.client with readTag := world.client.readTag + 1 } }
      (onTlp (fun tlp => tlpReqSetAddr tlp addr length)
        (readRequest world.client.readTag type)) with
  | error fault => rfl
  | ok result =>
      simp only [seenResult, Except.map, bind, Except.bind]
      split
      · rfl
      · simp only [pure, Except.pure, World.emit, World.seen, List.append_assoc]

theorem writeImp_seen (world : World σ) (junk : Nat → Byte) (addr : BitVec 64) (data : Bytes)
    (length : Int) (type : PcieTlpType) :
    warppipeWriteImp (world.seen view earlier) junk addr data length type =
      seenResult view earlier (warppipeWriteImp world junk addr data length type) := by
  simp only [warppipeWriteImp]
  split
  · rw [clientSendPcieTransport_seen]
    cases clientSendPcieTransport world _ with
    | error fault => rfl
    | ok result => rfl
  · rfl

theorem call_seen (world : World σ) (call : Call) :
    call.run (world.seen view earlier) = seenResult view earlier (call.run world) := by
  cases call with
  | registerBar => rfl
  | registerConfig0ReadCb => rfl
  | registerConfig0WriteCb => rfl
  | read barIdx addr length cb =>
      by_cases unset : world.client.bar barIdx = 0
      · simp only [Call.run, warppipeRead, if_pos unset, seen_client]
        rfl
      · simp only [Call.run, warppipeRead, if_neg unset, seen_client]
        exact readImp_seen ..
  | config0Read addr length cb => exact readImp_seen ..
  | write junk barIdx addr data length =>
      by_cases unset : world.client.bar barIdx = 0
      · simp only [Call.run, warppipeWrite, if_pos unset, seen_client]
        rfl
      · simp only [Call.run, warppipeWrite, if_neg unset, seen_client]
        exact writeImp_seen ..
  | config0Write junk addr data length => exact writeImp_seen ..

theorem runCalls_seen (world : World σ) (calls : List Call) :
    runCalls (world.seen view earlier) calls =
      (runCalls world calls).map (World.seen view earlier) := by
  induction calls generalizing world with
  | nil => rfl
  | cons call rest ih =>
      simp only [runCalls, call_seen]
      cases call.run world with
      | error fault => rfl
      | ok result => exact ih result.2

theorem ack_seen (world : World σ) (type : PcieDllpType) (seqno : Nat) :
    warppipeAck (world.seen view earlier) type seqno =
      seenResult view earlier (warppipeAck world type seqno) := by
  simp only [warppipeAck, clientSendPcieTransport_seen]
  cases clientSendPcieTransport world (ackPacket type seqno) with
  | error fault => rfl
  | ok result => rfl

theorem recvInto_seen (world : World σ) (offset count : Nat) :
    recvInto (world.seen view earlier) offset count =
      seenResult view earlier (recvInto world offset count) := by
  simp only [recvInto, seen_sock]
  split
  · split
    · rfl
    · rfl
  · rfl

theorem receiveLoop_seen (fuel : Nat) (world : World σ) (len total : Nat) :
    receiveLoop fuel (world.seen view earlier) len total =
      seenResult view earlier (receiveLoop fuel world len total) := by
  induction fuel generalizing world len with
  | zero =>
      simp only [receiveLoop]
      split
      · rfl
      · rfl
  | succ fuel ih =>
      by_cases more : len < total
      · simp only [receiveLoop, if_pos more, recvInto_seen]
        cases recvInto world len (total - len) with
        | error fault => rfl
        | ok result =>
            obtain ⟨received, after⟩ := result
            cases received with
            | received bytes => exact ih after _
            | again => rfl
            | closed => rfl
            | failed => rfl
      · simp only [receiveLoop, if_neg more]
        rfl

variable {view} {cbs : Callbacks σ} {other : Callbacks τ} (through : cbs.Through view other)

include through

theorem invokeRead_seen (world : World σ) (cb : FnPtr) (addr : BitVec 64) (length : Int) :
    invokeRead other (world.seen view earlier) cb addr length =
      (invokeRead cbs world cb addr length).map fun (error, data, after) =>
        (error, data, after.seen view earlier) := by
  have called := runCalls_seen view earlier
    (World.emit { world with app := (cbs.read cb world.app addr length).app }
      (.readCb cb addr length (cbs.read cb world.app addr length).error
        (fillBuffer length (cbs.read cb world.app addr length).data))) (cbs.read cb world.app
          addr length).calls
  rw [← emit_seen] at called
  simp only [invokeRead, seen_app, through.read]
  refine (congrArg (fun result => result >>= _) called).trans ?_
  cases runCalls _ _ with
  | error fault => rfl
  | ok after => rfl

theorem invokeWrite_seen (world : World σ) (cb : FnPtr) (addr : BitVec 64) (data : Bytes)
    (length : Int) :
    invokeWrite other (world.seen view earlier) cb addr data length =
      (invokeWrite cbs world cb addr data length).map (World.seen view earlier) := by
  simp only [invokeWrite, seen_app, through.write]
  rw [← runCalls_seen, ← emit_seen]
  rfl

theorem invokeCompletion_seen (world : World σ) (tag : Fin 32) (cb : FnPtr) (errorCode : Int)
    (data : Bytes) (length : Int) :
    invokeCompletion other (world.seen view earlier) tag cb errorCode data length =
      (invokeCompletion cbs world tag cb errorCode data length).map (World.seen view earlier) := by
  simp only [invokeCompletion, seen_app, through.completion]
  rw [← runCalls_seen, ← emit_seen]
  rfl

theorem handleTlp_seen (world : World σ) (pkt : Bytes) :
    handleTlp other (world.seen view earlier) pkt =
      (handleTlp cbs world pkt).map (World.seen view earlier) := by
  have reads : handleMemoryReadRequest other (world.seen view earlier) pkt =
      (handleMemoryReadRequest cbs world pkt).map (World.seen view earlier) := by
    simp only [handleMemoryReadRequest, seen_client]
    split
    · rfl
    · rw [invokeRead_seen earlier through]
      cases invokeRead cbs world _ _ _ with
      | error fault => rfl
      | ok result =>
          simp only [Except.map, bind, Except.bind, clientSendPcieTransport_seen]
          cases clientSendPcieTransport result.2.2 _ with
          | error fault => rfl
          | ok result => rfl
  have writes : handleMemoryWriteRequest other (world.seen view earlier) pkt =
      (handleMemoryWriteRequest cbs world pkt).map (World.seen view earlier) := by
    simp only [handleMemoryWriteRequest, seen_client]
    split
    · rfl
    · exact invokeWrite_seen earlier through ..
  have completes : handleCompletion other (world.seen view earlier) pkt =
      (handleCompletion cbs world pkt).map (World.seen view earlier) := by
    simp only [handleCompletion, seen_client]
    split
    · split
      · rfl
      · rw [invokeCompletion_seen earlier through]
        cases invokeCompletion cbs world _ _ _ _ _ with
        | error fault => rfl
        | ok after => rfl
    · rfl
  simp only [handleTlp]
  split
  · exact reads
  · exact reads
  · exact reads
  · exact reads
  · exact writes
  · exact writes
  · exact writes
  · exact writes
  · exact completes
  · rfl

theorem processTlp_seen (world : World σ) :
    processTlp other (world.seen view earlier) =
      (processTlp cbs world).map (World.seen view earlier) := by
  simp only [processTlp, ack_seen, seen_client]
  cases warppipeAck world _ _ with
  | error fault => rfl
  | ok result =>
      simp only [seenResult, Except.map, bind, Except.bind]
      split
      · exact handleTlp_seen earlier through ..
      · rfl

theorem readTlp_seen (world : World σ) :
    readTlp other (world.seen view earlier) =
      (readTlp cbs world).map (World.seen view earlier) := by
  simp only [readTlp, seen_client]
  split
  · rfl
  · split
    · simp only [receiveLoop_seen]
      cases receiveLoop _ world _ _ with
      | error fault => rfl
      | ok result =>
          obtain ⟨complete, after⟩ := result
          cases complete with
          | false => rfl
          | true =>
              simp only [seenResult, Except.map, bind, Except.bind, if_true]
              rw [emit_seen]
              exact processTlp_seen earlier through _
    · rfl

theorem readPacket_seen (world : World σ) :
    readPacket other (world.seen view earlier) =
      (readPacket cbs world).map (World.seen view earlier) := by
  simp only [readPacket, seen_client]
  split
  · simp only [readDllp, emit_seen, Except.map]
    congr 1
    by_cases valid : pcieCrc16Valid (world.client.buf.bytes.drop Transport.tUnion)
    · simp only [seen_client, if_pos valid]
      exact handleDllp_seen ..
    · simp only [seen_client, if_neg valid]
  · exact readTlp_seen earlier through world
  · rfl

/-- A client reads the same packet, sends the same bytes and leaves the same client behind. -/
theorem clientRead_seen (world : World σ) :
    warppipeClientRead other (world.seen view earlier) =
      (warppipeClientRead cbs world).map (World.seen view earlier) := by
  simp only [warppipeClientRead, recvInto_seen]
  cases recvInto world 0 headerSize with
  | error fault => rfl
  | ok result =>
      obtain ⟨received, after⟩ := result
      cases received with
      | received bytes =>
          simp only [seenResult, Except.map]
          split
          · exact readPacket_seen earlier through after
          · rfl
      | again => rfl
      | closed => rfl
      | failed => rfl

end

end WarpPipe
