import WarpPipe.Calls

/-!
The receive buffer of the client against the packets it can be asked to hold. `CLIENT_BUFFER_SIZE`
counts one protocol byte, 16 header bytes, 4096 data bytes and the LCRC, but not the two bytes of
the sequence number.
-/

namespace WarpPipe

open ByteLayout

variable {σ : Type}

/-! Faults of the handlers: none of them concerns the receive buffer. -/

theorem transmit_error {world : World σ} {tport : Bytes} {packetLength : Int} {fault : Fault}
    (error : transmit world tport packetLength = .error fault) : fault = .outOfBounds := by
  simp only [transmit] at error
  split at error
  · split at error <;> cases error
  · cases error
    rfl

theorem clientSend_error {world : World σ} {tport : Bytes} {fault : Fault}
    (error : clientSendPcieTransport world tport = .error fault) : fault = .outOfBounds := by
  simp only [clientSendPcieTransport] at error
  split at error
  · split at error
    · exact transmit_error error
    · cases error
      rfl
  · exact transmit_error error
  · exact transmit_error error

theorem writeImp_error {world : World σ} {junk : Nat → Byte} {addr : BitVec 64} {data : Bytes}
    {length : Int} {type : PcieTlpType} {fault : Fault}
    (error : warppipeWriteImp world junk addr data length type = .error fault) :
    fault = .outOfBounds := by
  simp only [warppipeWriteImp] at error
  split at error
  · simp only [bind, Except.bind, pure, Except.pure] at error
    split at error
    · rename_i sent
      cases error
      exact clientSend_error sent
    · cases error
  · cases error
    rfl

theorem readImp_error {world : World σ} {addr : BitVec 64} {length : Int} {cb : Option FnPtr}
    {type : PcieTlpType} (isRead : ReadType type) {fault : Fault} :
    warppipeReadImp world addr length cb type ≠ .error fault := by
  rw [warppipeReadImp_eq world isRead]
  exact nofun

theorem Call.run_error {world : World σ} {call : Call} {fault : Fault}
    (error : call.run world = .error fault) : fault = .outOfBounds := by
  cases call with
  | registerBar => cases error
  | registerConfig0ReadCb => cases error
  | registerConfig0WriteCb => cases error
  | read barIdx addr length cb =>
      simp only [Call.run, warppipeRead] at error
      split at error
      · cases error
      · exact absurd error (readImp_error (Or.inl rfl))
  | config0Read addr length cb => exact absurd error (readImp_error (Or.inr rfl))
  | write junk barIdx addr data length =>
      simp only [Call.run, warppipeWrite] at error
      split at error
      · cases error
      · exact writeImp_error error
  | config0Write junk addr data length => exact writeImp_error error

theorem runCalls_error {world : World σ} {calls : List Call} {fault : Fault}
    (error : runCalls world calls = .error fault) : fault = .outOfBounds := by
  induction calls generalizing world with
  | nil => cases error
  | cons call rest ih =>
      simp only [runCalls, bind, Except.bind] at error
      split at error
      · rename_i ran
        cases error
        exact Call.run_error ran
      · exact ih error

theorem memoryReadRequest_error {cbs : Callbacks σ} {world : World σ} {pkt : Bytes} {fault : Fault}
    (error : handleMemoryReadRequest cbs world pkt = .error fault) : fault = .outOfBounds := by
  simp only [handleMemoryReadRequest] at error
  split at error
  · cases error
  · simp only [invokeRead, bind, Except.bind, pure, Except.pure] at error
    split at error
    · rename_i invoked
      split at invoked
      · rename_i ran
        cases invoked
        cases error
        exact runCalls_error ran
      · cases invoked
    · rw [clientSend_tlp _ (tlpBlock_completionPacket pkt _ _)] at error
      cases error

theorem completion_error {cbs : Callbacks σ} {world : World σ} {pkt : Bytes} {fault : Fault}
    (error : handleCompletion cbs world pkt = .error fault) : fault = .outOfBounds := by
  simp only [handleCompletion] at error
  split at error
  · split at error
    · cases error
    · simp only [bind, Except.bind, pure, Except.pure] at error
      split at error
      · rename_i ran
        cases error
        exact runCalls_error ran
      · cases error
  · cases error
    rfl

theorem memoryWriteRequest_error {cbs : Callbacks σ} {world : World σ} {pkt : Bytes} {fault : Fault}
    (error : handleMemoryWriteRequest cbs world pkt = .error fault) : fault = .outOfBounds := by
  simp only [handleMemoryWriteRequest] at error
  split at error
  · cases error
  · exact runCalls_error error

theorem handleTlp_error {cbs : Callbacks σ} {world : World σ} {pkt : Bytes} {fault : Fault}
    (error : handleTlp cbs world pkt = .error fault) : fault = .outOfBounds := by
  simp only [handleTlp] at error
  split at error
  all_goals first
    | exact memoryReadRequest_error error
    | exact memoryWriteRequest_error error
    | exact completion_error error
    | cases error

theorem processTlp_error {cbs : Callbacks σ} {world : World σ} {fault : Fault}
    (error : processTlp cbs world = .error fault) : fault = .outOfBounds := by
  obtain ⟨rc, acked⟩ := warppipeAck_eq world
    (if pcieLcrc32Valid (world.client.buf.bytes.drop Transport.tUnion) then .ack else .nak)
    (receivedSeqno (world.client.buf.bytes.drop Transport.tUnion))
  simp only [processTlp, acked, bind, Except.bind] at error
  split at error
  · exact handleTlp_error error
  · cases error

theorem recv_length {sock next : Socket} {count : Nat} {bytes : Bytes}
    (received : sock.recv count = (.received bytes, next)) :
    1 ≤ bytes.length ∧ bytes.length ≤ count := by
  have taken (limit : Nat) (recvs : List RecvStep) (small : limit ≤ count)
      (took : sock.take limit recvs = (.received bytes, next)) :
      1 ≤ bytes.length ∧ bytes.length ≤ count := by
    simp only [Socket.take] at took
    split at took
    · cases took
    · rename_i nonempty
      cases took
      refine ⟨List.length_pos_iff.mpr nonempty, ?_⟩
      rw [List.length_take]
      omega
  simp only [Socket.recv] at received
  split at received
  · exact taken _ _ (Nat.le_refl _) received
  · exact taken _ _ (Nat.min_le_left _ _) received
  · cases received
  · cases received
  · cases received

/-- However `recv` behaves, the loop ends and stores inside the buffer. -/
theorem receiveLoop_total (fuel : Nat) (world : World σ) (len total : Nat)
    (inside : total ≤ clientBufferSize) (enough : total - len ≤ fuel) :
    ∃ result, receiveLoop fuel world len total = .ok result := by
  induction fuel generalizing world len with
  | zero => exact ⟨_, receiveLoop_done _ _ _ _ (by omega)⟩
  | succ fuel ih =>
      by_cases more : len < total
      · rw [receiveLoop, if_pos more, recvInto]
        split
        · rename_i bytes next received
          split at received
          · rename_i got sock recv
            have bounds := recv_length recv
            split at received
            · cases received
              exact ih _ _ (by omega)
            · cases received
          · rename_i notReceived _
            cases received
            exact absurd rfl (notReceived bytes)
        · exact ⟨_, rfl⟩
        · rename_i fault received
          split at received
          · rename_i got sock recv
            have bounds := recv_length recv
            rw [if_pos (by omega)] at received
            cases received
          · cases received
      · exact ⟨_, receiveLoop_done _ _ _ _ (by omega)⟩

/-- A header of four double words with the longest payload: a length field of 0, for 1024. -/
def Oversized (pkt : Bytes) : Prop :=
  PcieTlp.tlpFmt.get pkt = pcieTlpFmt4dwData ∧
    PcieTlp.tlpLengthHi.get pkt = 0 ∧ PcieTlp.tlpLengthLo.get pkt = 0

instance (pkt : Bytes) : Decidable (Oversized pkt) := inferInstanceAs (Decidable (_ ∧ _ ∧ _))

theorem total_fits_iff {pkt : Bytes} (known : 0 ≤ tlpTotalLength pkt) :
    (tlpTotalLength pkt).toNat + headerSize ≤ clientBufferSize ↔ ¬Oversized pkt := by
  have hi : PcieTlp.tlpLengthHi.get pkt < 4 := PcieTlp.tlpLengthHi.get_lt pkt
  have lo : PcieTlp.tlpLengthLo.get pkt < 256 := PcieTlp.tlpLengthLo.get_lt pkt
  have dwords := tlpDataLength_eq pkt
  have cases := tlpTotalLength_cases pkt
  simp only [Oversized, pcieTlpFmt4dwData, headerSize, PcieDllp.size, clientBufferSize,
    clientMaxPacketDataSize, clientMaxPacketHeaderSize]
  omega

theorem recvInto_header {world : World σ} {header : Bytes} (seven : header.length = headerSize)
    (first : (world.sock.recv headerSize).1 = .received header) :
    ∃ next, recvInto world 0 headerSize = .ok (.received header, next) ∧
      AgreeBelow headerSize next.client.buf.bytes header := by
  have size : clientBufferSize = 4117 := rfl
  have length : headerSize = 7 := rfl
  have split : world.sock.recv headerSize =
      (.received header, (world.sock.recv headerSize).2) := Prod.ext first rfl
  refine ⟨{ world with
    sock := (world.sock.recv headerSize).2
    client := { world.client with buf := world.client.buf.store 0 header } }, ?_, ?_⟩
  · rw [recvInto, split]
    exact if_pos (by omega)
  · intro index bound
    simp only [RecvBuffer.store]
    rw [overwrite_zero _ _ (by rw [RecvBuffer.length_bytes]; omega), getByte_append_left (by omega)]

section

variable (cbs : Callbacks σ) {world : World σ} {header : Bytes} (seven : header.length = headerSize)
variable (proto : Transport.tProto.get header = PcieProto.tlp.code)
variable (known : 0 ≤ tlpTotalLength (header.drop Transport.tTlp))
variable (first : (world.sock.recv headerSize).1 = .received header)

include seven proto known first

omit known in
theorem clientRead_readTlp :
    ∃ next, warppipeClientRead cbs world = readTlp cbs next ∧
      tlpTotalLength (next.client.buf.bytes.drop Transport.tTlp) =
        tlpTotalLength (header.drop Transport.tTlp) := by
  obtain ⟨next, received, agree⟩ := recvInto_header seven first
  refine ⟨next, ?_, tlpTotalLength_congr (agree.drop Transport.tTlp)⟩
  have code : PcieProto.ofCode? (Transport.tProto.get next.client.buf.bytes) = some .tlp := by
    rw [agree.get Transport.tProto (by decide), proto]
    rfl
  simp only [warppipeClientRead, received, seven, if_true, readPacket, code]

theorem clientRead_oversized (oversized : Oversized (header.drop Transport.tTlp)) :
    warppipeClientRead cbs world = .error .assertFailed := by
  obtain ⟨next, read, total⟩ := clientRead_readTlp cbs seven proto first
  have tooLong := mt (total_fits_iff known).mp (not_not_intro oversized)
  rw [read]
  simp only [readTlp, total]
  rw [if_neg (by omega), if_neg tooLong]
  rfl

theorem clientRead_inside (fits : ¬Oversized (header.drop Transport.tTlp)) {fault : Fault}
    (error : warppipeClientRead cbs world = .error fault) : fault = .outOfBounds := by
  obtain ⟨next, read, total⟩ := clientRead_readTlp cbs seven proto first
  have inside := (total_fits_iff known).mpr fits
  obtain ⟨⟨done, after⟩, looped⟩ := receiveLoop_total
    ((tlpTotalLength (header.drop Transport.tTlp)).toNat + headerSize - headerSize) next headerSize
    _ inside (Nat.le_refl _)
  rw [read] at error
  simp only [readTlp, total] at error
  rw [if_neg (by omega), if_pos inside, looped] at error
  simp only [bind, Except.bind] at error
  split at error
  · exact processTlp_error error
  · cases error

/-- For every accepted TLP header and everything the socket does afterwards: the assertion holds
and every byte lands in `client->buf`, unless the header asks for 16 header bytes and 1024 double
words. -/
theorem receiveBuffer_suffices_iff :
    (warppipeClientRead cbs world ≠ .error .assertFailed ∧
      warppipeClientRead cbs world ≠ .error .bufferOverrun) ↔
        ¬Oversized (header.drop Transport.tTlp) := by
  constructor
  · intro holds oversized
    exact holds.1 (clientRead_oversized cbs seven proto known first oversized)
  · intro fits
    exact ⟨fun error =>
      absurd (clientRead_inside cbs seven proto known first fits error) (by decide),
      fun error => absurd (clientRead_inside cbs seven proto known first fits error) (by decide)⟩

end

def clientWith (incoming : Bytes) : World Unit where
  client := warppipeClientCreate
    { fd := 0, seqno := 0, active := false, barReadCb := fun _ => none, barWriteCb := fun _ => none
      bar := fun _ => 0, barSize := fun _ => 0, cfg0ReadCb := none, cfg0WriteCb := none
      completionCb := fun _ => none, readTag := 0
      buf := ⟨List.replicate clientBufferSize 0, List.length_replicate⟩ } 3
  sock := { incoming := incoming, recvs := [], sends := [] }
  app := ()
  log := []

def silentCallbacks : Callbacks σ where
  read := fun _ app _ _ => { app := app, error := 0, data := [], calls := [] }
  write := fun _ app _ _ _ => { app := app, calls := [] }
  completion := fun _ app _ _ _ => { app := app, calls := [] }

def mwr64Header (lengthHi lengthLo : Byte) : Bytes := [3, 0, 1, 0x60, 0, lengthHi, lengthLo]

theorem mwr64_longest_asserts :
    warppipeClientRead silentCallbacks (clientWith (mwr64Header 0 0)) = .error .assertFailed :=
  clientRead_oversized _ (show (mwr64Header 0 0).length = headerSize by decide)
    (by decide) (by decide) (by decide) (by decide)

theorem mwr64_shorter_fits :
    ¬Oversized ((mwr64Header 3 255).drop Transport.tTlp) ∧
      warppipeClientRead silentCallbacks (clientWith (mwr64Header 3 255)) ≠ .error .assertFailed ∧
      warppipeClientRead silentCallbacks (clientWith (mwr64Header 3 255)) ≠ .error .bufferOverrun :=
  ⟨by decide, (receiveBuffer_suffices_iff silentCallbacks
    (show (mwr64Header 3 255).length = headerSize by decide) (by decide) (by decide)
    (by decide)).mpr (by decide)⟩

end WarpPipe
