import WarpPipe.ClientRuns
import WarpPipe.ReceiveBuffer
import WarpPipe.Trace

/-!
What the packets of a client say about the blocks it allocated: two runs that differ only in what
those blocks held before. Only `warppipe_write_imp` sends a block that it got from `malloc`.
-/

namespace WarpPipe

open ByteLayout

variable {σ : Type}

def Call.withHeap (heap : Nat → Byte) : Call → Call
  | .write _ barIdx addr data length => .write heap barIdx addr data length
  | .config0Write _ addr data length => .config0Write heap addr data length
  | call => call

/-- The request on blocks of zeros. Two requests with one erasure differ in their heap only. -/
def Call.erase (call : Call) : Call := call.withHeap fun _ => 0

def Action.erase : Action → Action
  | .call request => .call request.erase
  | .receive arrived => .receive arrived

def ReadReturn.erase (ret : ReadReturn σ) : ReadReturn σ :=
  { ret with calls := ret.calls.map Call.erase }

def CallbackReturn.erase (ret : CallbackReturn σ) : CallbackReturn σ :=
  { ret with calls := ret.calls.map Call.erase }

def Callbacks.erase (cbs : Callbacks σ) : Callbacks σ where
  read cb app addr length := (cbs.read cb app addr length).erase
  write cb app addr data length := (cbs.write cb app addr data length).erase
  completion cb app errorCode data length := (cbs.completion cb app errorCode data length).erase

def Call.isWrite : Call → Bool
  | .write .. | .config0Write .. => true
  | _ => false

def Sendable (addr : BitVec 64) (data : Bytes) (length : Int) : Prop :=
  0 ≤ length ∧ length ≤ data.length ∧ 1 ≤ addr.toNat % 4 + length

def Call.Writes (client : Client) : Call → Prop
  | .write _ barIdx _ _ _ => client.bar barIdx ≠ 0
  | .config0Write .. => True
  | _ => False

/-- No write request reaches `warppipe_write_imp`: the application makes none, and no callback that
could be invoked now makes one. -/
def Writeless (cbs : Callbacks σ) (world : World σ) : Action → Prop
  | .call call => ¬call.Writes world.client
  | .receive _ =>
    (∀ cb addr length, ∀ call ∈ (cbs.read cb world.app addr length).calls, call.isWrite = false) ∧
    (∀ cb addr data length, ∀ call ∈ (cbs.write cb world.app addr data length).calls,
      call.isWrite = false) ∧
    ∀ cb errorCode data length, ∀ call ∈ (cbs.completion cb world.app errorCode data length).calls,
      call.isWrite = false

/-- The packets that one request hands to `send`. A request that faults has none to tell: it may
have sent whatever lies behind its block. -/
def packetsOf (world : World σ) (call : Call) : Outcome (List Bytes) :=
  (call.run world).map fun (_, next) => sentPackets world next

theorem Call.erase_of_isWrite {call : Call} (other : call.isWrite = false) : call.erase = call := by
  cases call with
  | write => cases other
  | config0Write => cases other
  | _ => rfl

theorem Call.isWrite_erase (call : Call) : call.erase.isWrite = call.isWrite := by
  cases call <;> rfl

theorem erase_calls {calls : List Call} (others : ∀ call ∈ calls, call.isWrite = false) :
    calls.map Call.erase = calls := by
  rw [List.map_congr_left fun call member =>
    Call.erase_of_isWrite (others call member), List.map_id']

theorem isWrite_erase_iff {calls : List Call} :
    (∀ call ∈ calls.map Call.erase, call.isWrite = false) ↔
      ∀ call ∈ calls, call.isWrite = false := by
  rw [List.forall_mem_map]
  simp only [Call.isWrite_erase]

theorem Call.writes_withHeap (heap : Nat → Byte) (client : Client) (call : Call) :
    (call.withHeap heap).Writes client ↔ call.Writes client := by
  cases call <;> rfl

theorem writeless_erase (cbs : Callbacks σ) (world : World σ) (action : Action) :
    Writeless cbs.erase world action.erase ↔ Writeless cbs world action := by
  cases action with
  | call call => exact not_congr (Call.writes_withHeap _ _ call)
  | receive arrived =>
      simp only [Writeless, Action.erase, Callbacks.erase, ReadReturn.erase, CallbackReturn.erase,
        isWrite_erase_iff]

theorem Sendable.encode {addr : BitVec 64} {data : Bytes} {length : Int}
    (sendable : Sendable addr data length) :
    ∃ count : Nat, length = count ∧ count ≤ data.length ∧ 1 ≤ addr.toNat % 4 + count := by
  obtain ⟨nonneg, available, nonempty⟩ := sendable
  obtain ⟨count, rfl⟩ := Int.eq_ofNat_of_zero_le nonneg
  exact ⟨count, rfl, by omega, by omega⟩

theorem writeImp_unsendable (world : World σ) (heap : Nat → Byte) {type : PcieTlpType}
    (isWrite : WriteType type) {addr : BitVec 64} {data : Bytes} {length : Int}
    (unsendable : ¬Sendable addr data length) :
    warppipeWriteImp world heap addr data length type = .error .outOfBounds := by
  by_cases available : 0 ≤ length ∧ length ≤ data.length
  · have empty : length = 0 ∧ addr.toNat % 4 = 0 := by
      simp only [Sendable, available, true_and] at unsendable
      omega
    obtain ⟨rfl, aligned⟩ := empty
    exact writeImp_empty world heap isWrite addr data aligned
  · rw [warppipeWriteImp]
    exact if_neg fun inside => available ⟨inside.1, inside.2.1⟩

theorem getByte_writeHeader_tag (heap : Nat → Byte) (addr : BitVec 64) (length : Int)
    (type : PcieTlpType) : getByte (writeHeader heap addr length type) 6 = heap 9 := by
  have least := writeAllocation_ge length (addr &&& 3).toNat
  simp only [Transport.size] at least
  rw [writeHeader, Field.getByte_set_ne (by decide), Field.getByte_set_ne (by decide), getByte_drop,
    Field.getByte_set_ne (by decide), getByte, List.getD_eq_getElem?_getD, List.getElem?_map,
    List.getElem?_range (by simp only [Transport.tTlp, Transport.tUnion, PcieDltlp.dlTlp]; omega)]
  rfl

theorem getByte_write_tag (seqno : BitVec 32) (heap : Nat → Byte) {addr : BitVec 64} {data : Bytes}
    {type : PcieTlpType} (isWrite : WriteType type) (nonempty : 1 ≤ addr.toNat % 4 + data.length) :
    getByte (sealTlp seqno (writeBlock heap addr data type)) 9 = heap 9 := by
  have block := tlpBlock_writeBlock heap addr data isWrite nonempty
  have least := tlpTotalLength_ge block.known
  have long := long_writeHeader heap addr data.length type
  rw [block.getByte_sealTlp seqno 9 (by omega) (Or.inr (by decide)),
    show 9 = Transport.tTlp + 6 from rfl, ← getByte_drop,
    agree_writeBlock heap addr data isWrite 6 (by decide),
    getByte_tlpReqSetAddr_header _ _ _ (by omega) 6 (by decide) (by decide),
    getByte_setExtent _ _ _ 6 (by decide) (by decide) (by decide), getByte_writeHeader_tag]
  rfl

theorem writeImp_packet (world : World σ) (heap : Nat → Byte) {type : PcieTlpType}
    (isWrite : WriteType type) {addr : BitVec 64} {data : Bytes} {length : Int}
    (sendable : Sendable addr data length) :
    ∃ rc next packet, warppipeWriteImp world heap addr data length type = .ok (rc, next) ∧
      sentPackets world next = [packet] ∧ getByte packet 9 = heap 9 := by
  obtain ⟨count, rfl, available, nonempty⟩ := sendable.encode
  refine ⟨_, _, sealTlp (world.client.seqno + 1) (writeBlock heap addr (data.take count) type),
    warppipeWriteImp_eq world heap isWrite addr data count available nonempty, ?_, ?_⟩
  · have log := push_log (bumpSeqno world)
      (sealTlp (world.client.seqno + 1) (writeBlock heap addr (data.take count) type))
    rw [show (bumpSeqno world).log = world.log from rfl] at log
    rw [sentPackets, fresh_eq log]
    rfl
  · refine getByte_write_tag _ heap isWrite ?_
    rwa [List.length_take, Nat.min_eq_left available]

theorem Call.run_withHeap {world : World σ} {call : Call} (heap : Nat → Byte)
    (silent : ¬call.Writes world.client) : (call.withHeap heap).run world = call.run world := by
  cases call with
  | write junk barIdx addr data length =>
      have unset : world.client.bar barIdx = 0 := not_not.mp silent
      simp only [Call.withHeap, Call.run, warppipeWrite, if_pos unset]
  | config0Write junk addr data length => exact absurd trivial silent
  | _ => rfl

theorem Call.run_silent {world : World σ} {call : Call} (silent : ¬call.Writes world.client) :
    ∃ result, call.run world = .ok result := by
  cases call with
  | write junk barIdx addr data length => exact ⟨_, if_pos (not_not.mp silent)⟩
  | config0Write junk addr data length => exact absurd trivial silent
  | read barIdx addr length cb =>
      by_cases unset : world.client.bar barIdx = 0
      · exact ⟨_, if_pos unset⟩
      · exact ⟨_, (if_neg unset).trans (warppipeReadImp_eq world (Or.inl rfl) ..)⟩
  | config0Read addr length cb => exact ⟨_, warppipeReadImp_eq world (Or.inr rfl) ..⟩
  | registerBar => exact ⟨_, rfl⟩
  | registerConfig0ReadCb => exact ⟨_, rfl⟩
  | registerConfig0WriteCb => exact ⟨_, rfl⟩

theorem writeImp_shows (world : World σ) (heap : Nat → Byte) {type : PcieTlpType}
    (isWrite : WriteType type) {addr : BitVec 64} {data : Bytes} {length : Int}
    {packets : List Bytes} (sent : (warppipeWriteImp world heap addr data length type).map
      (fun (_, next) => sentPackets world next) = .ok packets) :
    ∃ packet, packets = [packet] ∧ getByte packet 9 = heap 9 := by
  by_cases sendable : Sendable addr data length
  · obtain ⟨rc, next, packet, ran, pushed, tag⟩ := writeImp_packet world heap isWrite sendable
    rw [ran] at sent
    simp only [Except.map, Except.ok.injEq] at sent
    exact ⟨packet, sent.symm.trans pushed, tag⟩
  · rw [writeImp_unsendable world heap isWrite sendable] at sent
    cases sent

theorem packetsOf_shows {world : World σ} {call : Call} (writes : call.Writes world.client)
    (heap : Nat → Byte) {packets : List Bytes}
    (sent : packetsOf world (call.withHeap heap) = .ok packets) :
    ∃ packet, packets = [packet] ∧ getByte packet 9 = heap 9 := by
  cases call with
  | write junk barIdx addr data length =>
      have set : world.client.bar barIdx ≠ 0 := writes
      simp only [packetsOf, Call.withHeap, Call.run, warppipeWrite, if_neg set] at sent
      exact writeImp_shows world heap (Or.inl rfl) sent
  | config0Write junk addr data length => exact writeImp_shows world heap (Or.inr rfl) sent
  | _ => exact writes.elim

theorem packetsOf_independent_iff (world : World σ) (call : Call) :
    (∃ packets, ∀ heap, packetsOf world (call.withHeap heap) = .ok packets) ↔
      ¬call.Writes world.client := by
  constructor
  · rintro ⟨packets, same⟩ writes
    obtain ⟨zero, zeroSent, zeroTag⟩ := packetsOf_shows writes (fun _ => 0) (same _)
    obtain ⟨one, oneSent, oneTag⟩ := packetsOf_shows writes (fun _ => 1) (same _)
    rw [zeroSent, List.singleton_inj] at oneSent
    rw [oneSent, oneTag] at zeroTag
    exact absurd zeroTag (by decide)
  · intro silent
    obtain ⟨result, ran⟩ := Call.run_silent silent
    refine ⟨sentPackets world result.2, fun heap => ?_⟩
    rw [packetsOf, Call.run_withHeap heap silent, ran]
    rfl

/-! Received packets: the callbacks matter only at the application state the step starts from. -/

structure Callbacks.AgreeAt (cbs other : Callbacks σ) (app : σ) : Prop where
  read : ∀ cb addr length, cbs.read cb app addr length = other.read cb app addr length
  write : ∀ cb addr data length, cbs.write cb app addr data length =
    other.write cb app addr data length
  completion : ∀ cb errorCode data length,
    cbs.completion cb app errorCode data length = other.completion cb app errorCode data length

section

variable {cbs other : Callbacks σ} {world : World σ} (agree : cbs.AgreeAt other world.app)

include agree

theorem handleTlp_congr (pkt : Bytes) : handleTlp cbs world pkt = handleTlp other world pkt := by
  simp only [handleTlp, handleMemoryReadRequest, handleMemoryWriteRequest, handleCompletion,
    invokeRead, invokeWrite, invokeCompletion, agree.read, agree.write, agree.completion]

theorem processTlp_congr : processTlp cbs world = processTlp other world := by
  simp only [processTlp]
  obtain ⟨rc, acked⟩ := warppipeAck_eq world
    (if pcieLcrc32Valid (world.client.buf.bytes.drop Transport.tUnion) then .ack else .nak)
    (receivedSeqno (world.client.buf.bytes.drop Transport.tUnion))
  rw [acked]
  simp only [bind, Except.bind]
  rw [handleTlp_congr]
  rwa [push_app]

theorem readTlp_congr : readTlp cbs world = readTlp other world := by
  simp only [readTlp, bind, Except.bind]
  split
  · rfl
  · split
    · split
      · rfl
      · rename_i outcome received
        obtain ⟨complete, next⟩ := outcome
        obtain ⟨incoming, recvs, buf, -, result, -⟩ := receiveLoop_ok received
        cases complete with
        | true =>
            rw [if_pos rfl] at result
            subst result
            exact processTlp_congr agree
        | false => rfl
    · rfl

theorem clientRead_congr : warppipeClientRead cbs world = warppipeClientRead other world := by
  simp only [warppipeClientRead]
  split
  · rename_i bytes next received
    obtain ⟨incoming, recvs, buf, rfl, -⟩ := recvInto_ok received
    have same : readTlp cbs (world.refill incoming recvs buf) = readTlp other _ :=
      readTlp_congr agree
    simp only [readPacket, same]
  all_goals rfl

end

theorem agreeAt_erase {cbs : Callbacks σ} {world : World σ} {arrived : Bytes}
    (writeless : Writeless cbs world (.receive arrived)) : cbs.erase.AgreeAt cbs world.app := by
  obtain ⟨reads, writes, completions⟩ := writeless
  refine ⟨fun cb addr length => ?_, fun cb addr data length => ?_,
    fun cb errorCode data length => ?_⟩
  · simp only [Callbacks.erase, ReadReturn.erase, erase_calls (reads cb addr length)]
  · simp only [Callbacks.erase, CallbackReturn.erase, erase_calls (writes cb addr data length)]
  · simp only [Callbacks.erase, CallbackReturn.erase,
      erase_calls (completions cb errorCode data length)]

theorem clientStep_erase {cbs : Callbacks σ} {world : World σ} {action : Action}
    (writeless : Writeless cbs world action) :
    clientStep cbs.erase world action.erase = clientStep cbs world action := by
  cases action with
  | call call =>
      simp only [clientStep, Action.erase, Call.erase, Call.run_withHeap _ writeless]
  | receive arrived =>
      have agree := agreeAt_erase writeless
      exact clientRead_congr (show cbs.erase.AgreeAt cbs (world.arrive arrived).app from agree)

theorem run_erase {cbs : Callbacks σ} {world : World σ} {actions : List Action}
    (writeless : Runs.Along (clientStep cbs) (Writeless cbs) world actions) :
    Runs.run (clientStep cbs.erase) world (actions.map Action.erase) =
      Runs.run (clientStep cbs) world actions := by
  induction actions generalizing world with
  | nil => rfl
  | cons action rest ih =>
      simp only [List.map_cons, Runs.run, clientStep_erase writeless.1]
      cases stepped : clientStep cbs world action with
      | ok next => exact ih (writeless.2 next stepped)
      | error fault => rfl

theorem along_erase {cbs other : Callbacks σ} (alike : cbs.erase = other.erase) {world : World σ}
    {actions others : List Action} (same : actions.map Action.erase = others.map Action.erase)
    (writeless : Runs.Along (clientStep cbs) (Writeless cbs) world actions) :
    Runs.Along (clientStep other) (Writeless other) world others := by
  induction actions generalizing world others with
  | nil =>
      rw [List.map_nil, eq_comm, List.map_eq_nil_iff] at same
      rw [same]
      trivial
  | cons action rest ih =>
      cases others with
      | nil => cases same
      | cons first later =>
          rw [List.map_cons, List.map_cons, List.cons.injEq] at same
          have meets := writeless.1
          rw [← writeless_erase, alike, same.1, writeless_erase] at meets
          refine ⟨meets, fun next stepped => ?_⟩
          rw [← clientStep_erase meets, ← alike, ← same.1, clientStep_erase writeless.1] at stepped
          exact ih same.2 (writeless.2 next stepped)

/-- Two runs that differ in nothing but the heap end alike, with the same packets sent, as long as
no request reaches `warppipe_write_imp`; one that does shows what its block held before, or
faults. -/
theorem sent_bytes_independent_iff {cbs other : Callbacks σ} (alike : cbs.erase = other.erase)
    (world : World σ) :
    (∀ call : Call,
      (∃ packets, ∀ heap, packetsOf world (call.withHeap heap) = .ok packets) ↔
        ¬call.Writes world.client) ∧
    ∀ actions others : List Action, actions.map Action.erase = others.map Action.erase →
      Runs.Along (clientStep cbs) (Writeless cbs) world actions →
      Runs.run (clientStep cbs) world actions = Runs.run (clientStep other) world others := by
  refine ⟨packetsOf_independent_iff world, fun actions others same writeless => ?_⟩
  have otherWriteless := along_erase alike same writeless
  rw [← run_erase writeless, alike, same, run_erase otherWriteless]

theorem unset_bar_write_hidden :
    Runs.run (clientStep silentCallbacks) (clientWith [])
        [.call (.write (fun _ => 0) 2 0 [7] 1), .call (.config0Read 0 4 none)] =
      Runs.run (clientStep silentCallbacks) (clientWith [])
        [.call (.write (fun _ => 0xff) 2 0 [7] 1), .call (.config0Read 0 4 none)] := by
  have independent :=
    sent_bytes_independent_iff (show silentCallbacks.erase = silentCallbacks.erase from rfl)
    (clientWith [])
  refine independent.2 _ _ rfl ⟨fun writes => writes rfl, fun next _ => ⟨?_, fun _ _ => trivial⟩⟩
  exact not_false

/-- One byte for address 1: the fields, the tag and the padding show the block that `malloc`
gave. -/
theorem write_shows_heap :
    packetsOf (clientWith []) (.config0Write (fun _ => 0) 1 [7] 1) =
      .ok [[3, 0x00, 1, 0x44, 0x00, 0x00, 1, 0x00, 0x00, 0x00, 2, 0, 0, 0, 0, 0x00, 7, 0x00, 0x00,
        0xf5, 0x59, 0xdd, 0xec]] ∧
    packetsOf (clientWith []) (.config0Write (fun _ => 0xff) 1 [7] 1) =
      .ok [[3, 0xf0, 1, 0x44, 0xff, 0xfc, 1, 0xff, 0xff, 0xff, 2, 0, 0, 0, 0, 0xff, 7, 0xff, 0xff,
        0xe9, 0x2e, 0x22, 0x79]] := by
  decide +kernel

end WarpPipe
