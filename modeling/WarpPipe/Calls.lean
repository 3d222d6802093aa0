import WarpPipe.ClientRead

/-!
What a request of the application, a callback or an incoming packet can do to the client. Each
function has one lemma that names every way it can end; the invariants over whole runs follow from
these.
-/

namespace WarpPipe

open ByteLayout

variable {σ : Type}

structure SameLink (left right : Client) : Prop where
  fd : left.fd = right.fd
  seqno : left.seqno = right.seqno
  active : left.active = right.active
  completionCb : left.completionCb = right.completionCb
  readTag : left.readTag = right.readTag
  buf : left.buf = right.buf

def sentRead (world : World σ) (tport : Bytes) (cb : Option FnPtr) : World σ :=
  let sent := push (bumpSeqno (bumpTag world)) (sealTlp (world.client.seqno + 1) tport)
  if sent.1 = -1 then sent.2 else storeSlot sent.2 world.client.readTag cb

inductive CallStep (world : World σ) : World σ → Prop where
  | registered (client : Client) (same : SameLink client world.client) :
      CallStep world { world with client := client }
  | sentWrite (tport : Bytes) (block : TlpBlock tport) :
      CallStep world (push (bumpSeqno world) (sealTlp (world.client.seqno + 1) tport)).2
  | sentRead (tport : Bytes) (cb : Option FnPtr) (block : TlpBlock tport) :
      CallStep world (sentRead world tport cb)

abbrev CallSteps (world final : World σ) : Prop := Relation.ReflTransGen CallStep world final

theorem SameLink.refl (client : Client) : SameLink client client := ⟨rfl, rfl, rfl, rfl, rfl, rfl⟩

theorem registerBar_cases (client : Client) (bar : BitVec 64) (barSize : BitVec 32) (barIdx : Fin 6)
    (readCb writeCb : Option FnPtr) :
    warppipeRegisterBar client bar barSize barIdx readCb writeCb = (-1, client) ∨
      client.bar barIdx = 0 ∧ ¬(barSize = 0 ∨ barSize &&& (barSize - 1) ≠ 0) ∧
        warppipeRegisterBar client bar barSize barIdx readCb writeCb = (0, { client with
          bar := Function.update client.bar barIdx (bar.setWidth 32)
          barSize := Function.update client.barSize barIdx barSize
          barReadCb := Function.update client.barReadCb barIdx readCb
          barWriteCb := Function.update client.barWriteCb barIdx writeCb }) := by
  rw [warppipeRegisterBar]
  split
  · exact .inl rfl
  · rename_i free
    split
    · exact .inl rfl
    · rename_i accepted
      exact .inr ⟨not_not.mp free, accepted, rfl⟩

theorem sameLink_registerBar (client : Client) (bar : BitVec 64) (barSize : BitVec 32)
    (barIdx : Fin 6) (readCb writeCb : Option FnPtr) :
    SameLink (warppipeRegisterBar client bar barSize barIdx readCb writeCb).2 client := by
  rcases registerBar_cases client bar barSize barIdx readCb writeCb with same | ⟨-, -, changed⟩
  · rw [same]
    exact .refl client
  · rw [changed]
    exact ⟨rfl, rfl, rfl, rfl, rfl, rfl⟩

theorem afterRead_world (world : World σ) (type : PcieTlpType) (addr : BitVec 64) (length : Int)
    (cb : Option FnPtr) :
    (afterRead world type addr length cb).2 =
      sentRead world (readBlock world.client.readTag type addr length) cb := by
  exact apply_ite Prod.snd _ _ _

theorem readImp_ok {world final : World σ} {type : PcieTlpType} (isRead : ReadType type)
    {addr : BitVec 64} {length rc : Int} {cb : Option FnPtr}
    (ok : warppipeReadImp world addr length cb type = .ok (rc, final)) : CallStep world final := by
  rw [warppipeReadImp_eq world isRead, Except.ok.injEq] at ok
  have same := (afterRead_world world type addr length cb).symm.trans (congrArg Prod.snd ok)
  rw [← show _ = final from same]
  exact .sentRead _ _ (tlpBlock_readBlock isRead _ _ _)

theorem clientSend_overrun (world : World σ) {tport : Bytes}
    (proto : Transport.tProto.get tport = PcieProto.tlp.code) (nonempty : 1 ≤ tport.length)
    (overrun : (tport.length : Int) < headerSize + tlpTotalLength (tport.drop Transport.tTlp)) :
    clientSendPcieTransport world tport = .error .outOfBounds := by
  have code : PcieProto.ofCode? (Transport.tProto.get tport) = some .tlp := by
    rw [proto]
    rfl
  have inner := drop_onUnion (setSeqno (world.client.seqno + 1)) nonempty
  simp only [clientSendPcieTransport, code, inner]
  refine if_neg ?_
  rw [lcrcOffset, drop_setSeqno, List.drop_drop, length_setSeqno, List.length_drop,
    show Transport.tUnion + PcieDltlp.dlTlp = Transport.tTlp from rfl,
    show PcieDltlp.dlTlp = 2 from rfl, show Transport.tUnion = 1 from rfl]
  simp only [headerSize, PcieDllp.size] at overrun
  omega

/-- The empty write to an aligned address announces 1024 double words that its block has not. -/
theorem writeImp_empty (world : World σ) (junk : Nat → Byte) {type : PcieTlpType}
    (isWrite : WriteType type) (addr : BitVec 64) (data : Bytes) (aligned : addr.toNat % 4 = 0) :
    warppipeWriteImp world junk addr data 0 type = .error .outOfBounds := by
  have total := writeBlock_total junk addr [] isWrite
  have proto := tProto_writeRequest junk addr 0 type
  have length := length_writeRequest junk addr 0 type
  have size := writeAllocation_eq addr []
  simp only [writeBlock, overwrite_nil, List.length_nil, Nat.cast_zero, aligned] at total size
  rw [size] at length
  have overrun := clientSend_overrun world proto (by omega) (by
    rw [total, length, show headerSize = 7 from rfl]
    split <;> omega)
  simp only [warppipeWriteImp, Int.toNat_zero, List.take_zero, overwrite_nil, overrun]
  exact ite_self _

theorem writeImp_allowed {world final : World σ} {junk : Nat → Byte} {type : PcieTlpType}
    {addr : BitVec 64} {data : Bytes} {length rc : Int}
    (ok : warppipeWriteImp world junk addr data length type = .ok (rc, final)) :
    0 ≤ length ∧ length ≤ data.length := by
  simp only [warppipeWriteImp] at ok
  split at ok
  · rename_i inside
    exact ⟨inside.1, inside.2.1⟩
  · cases ok

theorem writeImp_pushes {world final : World σ} {junk : Nat → Byte} {type : PcieTlpType}
    (isWrite : WriteType type) {addr : BitVec 64} {data : Bytes} {length rc : Int}
    (ok : warppipeWriteImp world junk addr data length type = .ok (rc, final)) :
    ∃ tport, TlpBlock tport ∧
      final = (push (bumpSeqno world) (sealTlp (world.client.seqno + 1) tport)).2 := by
  have allowed := writeImp_allowed ok
  obtain ⟨count, rfl⟩ := Int.eq_ofNat_of_zero_le allowed.1
  have available : count ≤ data.length := by exact_mod_cast allowed.2
  by_cases nonempty : 1 ≤ addr.toNat % 4 + count
  · rw [warppipeWriteImp_eq world junk isWrite addr data count available nonempty] at ok
    cases ok
    refine ⟨_, tlpBlock_writeBlock junk addr _ isWrite ?_, rfl⟩
    rwa [List.length_take, Nat.min_eq_left available]
  · have none : count = 0 := by omega
    subst none
    rw [show ((0 : Nat) : Int) = 0 from rfl, writeImp_empty world junk isWrite addr data (by omega)]
      at ok
    cases ok

theorem writeImp_ok {world final : World σ} {junk : Nat → Byte} {type : PcieTlpType}
    (isWrite : WriteType type) {addr : BitVec 64} {data : Bytes} {length rc : Int}
    (ok : warppipeWriteImp world junk addr data length type = .ok (rc, final)) :
    CallStep world final := by
  obtain ⟨tport, block, rfl⟩ := writeImp_pushes isWrite ok
  exact .sentWrite tport block

theorem Call.run_ok {world final : World σ} {call : Call} {rc : Int}
    (ok : call.run world = .ok (rc, final)) : CallStep world final := by
  have unchanged : CallStep world world := .registered world.client (.refl _)
  cases call with
  | registerBar bar barSize barIdx readCb writeCb =>
      cases ok
      exact .registered _ (sameLink_registerBar ..)
  | registerConfig0ReadCb readCb =>
      cases ok
      exact .registered _ ⟨rfl, rfl, rfl, rfl, rfl, rfl⟩
  | registerConfig0WriteCb writeCb =>
      cases ok
      exact .registered _ ⟨rfl, rfl, rfl, rfl, rfl, rfl⟩
  | read barIdx addr length cb =>
      simp only [Call.run, warppipeRead] at ok
      split at ok
      · cases ok
        exact unchanged
      · exact readImp_ok (Or.inl rfl) ok
  | config0Read addr length cb => exact readImp_ok (Or.inr rfl) ok
  | write junk barIdx addr data length =>
      simp only [Call.run, warppipeWrite] at ok
      split at ok
      · cases ok
        exact unchanged
      · exact writeImp_ok (Or.inl rfl) ok
  | config0Write junk addr data length => exact writeImp_ok (Or.inr rfl) ok

theorem runCalls_ok {world final : World σ} {calls : List Call}
    (ok : runCalls world calls = .ok final) : CallSteps world final := by
  induction calls generalizing world with
  | nil =>
      cases ok
      exact .refl
  | cons call rest ih =>
      simp only [runCalls, bind, Except.bind] at ok
      split at ok
      · cases ok
      · rename_i result ran
        exact .head (Call.run_ok ran) (ih ok)

def Call.Valid : Call → Prop
  | .write _ _ _ data length | .config0Write _ _ data length => 1 ≤ length ∧ length ≤ data.length
  | _ => True

theorem writeImp_valid (world : World σ) (junk : Nat → Byte) {type : PcieTlpType}
    (isWrite : WriteType type) (addr : BitVec 64) {data : Bytes} {length : Int}
    (valid : 1 ≤ length ∧ length ≤ data.length) :
    ∃ result, warppipeWriteImp world junk addr data length type = .ok result := by
  obtain ⟨count, rfl⟩ := Int.eq_ofNat_of_zero_le (show 0 ≤ length by omega)
  exact ⟨_, warppipeWriteImp_eq world junk isWrite addr data count (by omega) (by omega)⟩

theorem Call.run_valid (world : World σ) {call : Call} (valid : call.Valid) :
    ∃ result, call.run world = .ok result := by
  cases call with
  | registerBar => exact ⟨_, rfl⟩
  | registerConfig0ReadCb => exact ⟨_, rfl⟩
  | registerConfig0WriteCb => exact ⟨_, rfl⟩
  | read barIdx addr length cb =>
      simp only [Call.run, warppipeRead]
      split
      · exact ⟨_, rfl⟩
      · exact ⟨_, warppipeReadImp_eq world (Or.inl rfl) _ _ _⟩
  | config0Read addr length cb => exact ⟨_, warppipeReadImp_eq world (Or.inr rfl) _ _ _⟩
  | write junk barIdx addr data length =>
      simp only [Call.run, warppipeWrite]
      split
      · exact ⟨_, rfl⟩
      · exact writeImp_valid world junk (Or.inl rfl) _ valid
  | config0Write junk addr data length => exact writeImp_valid world junk (Or.inr rfl) addr valid

theorem runCalls_valid (world : World σ) {calls : List Call} (valid : ∀ call ∈ calls, call.Valid) :
    ∃ final, runCalls world calls = .ok final := by
  induction calls generalizing world with
  | nil => exact ⟨world, rfl⟩
  | cons call rest ih =>
      obtain ⟨result, ran⟩ := Call.run_valid world (valid call (by simp))
      simp only [runCalls, ran, bind, Except.bind]
      exact ih result.2 fun other member => valid other (List.mem_cons_of_mem _ member)

structure Callbacks.Valid (cbs : Callbacks σ) : Prop where
  read : ∀ cb app addr length, ∀ call ∈ (cbs.read cb app addr length).calls, call.Valid
  write : ∀ cb app addr data length, ∀ call ∈ (cbs.write cb app addr data length).calls, call.Valid
  completion : ∀ cb app error data length,
    ∀ call ∈ (cbs.completion cb app error data length).calls, call.Valid

structure Callbacks.Quiet (cbs : Callbacks σ) : Prop where
  read : ∀ cb app addr length, (cbs.read cb app addr length).calls = []
  write : ∀ cb app addr data length, (cbs.write cb app addr data length).calls = []
  completion : ∀ cb app error data length, (cbs.completion cb app error data length).calls = []

theorem runCalls_quiet {world final : World σ} {calls : List Call} (none : calls = [])
    (ok : runCalls world calls = .ok final) : final = world := by
  subst none
  cases ok
  rfl

inductive Served (world : World σ) (pkt : Bytes) : World σ → Prop where
  | ignored : Served world pkt world
  | read (cb : FnPtr) (addr : BitVec 64) (length error : Int) (data : Bytes) (app : σ)
      (middle : World σ)
      (calls : CallSteps ({ world with app := app }.emit (.readCb cb addr length error data))
        middle) :
      Served world pkt (push (bumpSeqno middle)
        (sealTlp (middle.client.seqno + 1) (completionPacket pkt error data))).2
  | write (cb : FnPtr) (addr : BitVec 64) (data : Bytes) (length : Int) (app : σ) (final : World σ)
      (calls : CallSteps ({ world with app := app }.emit (.writeCb cb addr data length)) final) :
      Served world pkt final
  | completion (tag : Fin 32) (cb : FnPtr) (data : Bytes) (length : Int) (app : σ)
      (middle : World σ) (stored : world.client.completionCb tag = some cb)
      (calls : CallSteps ({ world with app := app }.emit (.completion tag cb 0 data length))
        middle) :
      Served world pkt (clearSlot middle tag)

inductive Dispatched (cbs : Callbacks σ) (world : World σ) (pkt : Bytes) : World σ → Prop where
  | ignored : Dispatched cbs world pkt world
  | read (cb : FnPtr) (addr : BitVec 64) (length : Int) (middle : World σ)
      (target : (readTarget world.client pkt).1 = some cb)
      (ran : runCalls ({ world with app := (cbs.read cb world.app addr length).app }.emit
        (.readCb cb addr length (cbs.read cb world.app addr length).error
          (fillBuffer length (cbs.read cb world.app addr length).data)))
        (cbs.read cb world.app addr length).calls = .ok middle) :
      Dispatched cbs world pkt (push (bumpSeqno middle) (sealTlp (middle.client.seqno + 1)
        (completionPacket pkt (cbs.read cb world.app addr length).error
          (fillBuffer length (cbs.read cb world.app addr length).data)))).2
  | write (cb : FnPtr) (addr : BitVec 64) (data : Bytes) (length : Int) (final : World σ)
      (target : (writeTarget world.client pkt).1 = some cb) (size : length = tlpDataLengthBytes pkt)
      (ran : runCalls ({ world with app := (cbs.write cb world.app addr data length).app }.emit
        (.writeCb cb addr data length)) (cbs.write cb world.app addr data
          length).calls = .ok final) :
      Dispatched cbs world pkt final
  | completion (tag : Fin 32) (cb : FnPtr) (data : Bytes) (length : Int) (middle : World σ)
      (stored : world.client.completionCb tag = some cb)
      (ran : runCalls ({ world with app := (cbs.completion cb world.app 0 data length).app }.emit
        (.completion tag cb 0 data length)) (cbs.completion cb world.app 0 data
          length).calls = .ok middle) :
      Dispatched cbs world pkt (clearSlot middle tag)

theorem memoryReadRequest_dispatched {cbs : Callbacks σ} {world final : World σ} {pkt : Bytes}
    (ok : handleMemoryReadRequest cbs world pkt = .ok final) : Dispatched cbs world pkt final := by
  simp only [handleMemoryReadRequest] at ok
  split at ok
  · cases ok
    exact .ignored
  · rename_i target
    simp only [invokeRead, bind, Except.bind, pure, Except.pure] at ok
    split at ok
    · cases ok
    · rename_i served invoked
      split at invoked
      · cases invoked
      · rename_i middle ran
        cases invoked
        rw [clientSend_tlp middle (tlpBlock_completionPacket pkt _ _)] at ok
        cases ok
        exact .read _ _ _ middle (by rw [target]) ran

theorem memoryWriteRequest_dispatched {cbs : Callbacks σ} {world final : World σ} {pkt : Bytes}
    (ok : handleMemoryWriteRequest cbs world pkt = .ok final) : Dispatched cbs world pkt final := by
  simp only [handleMemoryWriteRequest] at ok
  split at ok
  · cases ok
    exact .ignored
  · rename_i target
    exact .write _ _ _ _ _ (by rw [target]) rfl ok

theorem completion_dispatched {cbs : Callbacks σ} {world final : World σ} {pkt : Bytes}
    (ok : handleCompletion cbs world pkt = .ok final) : Dispatched cbs world pkt final := by
  simp only [handleCompletion] at ok
  split at ok
  · split at ok
    · cases ok
      exact .ignored
    · rename_i cb stored
      simp only [bind, Except.bind, pure, Except.pure] at ok
      split at ok
      · cases ok
      · rename_i middle ran
        cases ok
        exact .completion _ cb _ _ middle stored ran
  · cases ok

theorem handleTlp_dispatched {cbs : Callbacks σ} {world final : World σ} {pkt : Bytes}
    (ok : handleTlp cbs world pkt = .ok final) : Dispatched cbs world pkt final := by
  simp only [handleTlp] at ok
  split at ok
  all_goals first
    | exact memoryReadRequest_dispatched ok
    | exact memoryWriteRequest_dispatched ok
    | exact completion_dispatched ok
    | (cases ok; exact .ignored)

theorem Dispatched.served {cbs : Callbacks σ} {world final : World σ} {pkt : Bytes}
    (handled : Dispatched cbs world pkt final) : Served world pkt final := by
  cases handled with
  | ignored => exact .ignored
  | read cb addr length middle target ran =>
      exact .read _ _ _ _ _ _ middle (runCalls_ok ran)
  | write cb addr data length final target size ran =>
      exact .write _ _ _ _ _ _ (runCalls_ok ran)
  | completion tag cb data length middle stored ran =>
      exact .completion _ cb _ _ _ middle stored (runCalls_ok ran)

/-! A call of `warppipe_client_read` on any socket. -/

def World.refill (world : World σ) (incoming : Bytes) (recvs : List RecvStep) (buf : RecvBuffer) :
    World σ :=
  { world with
    sock := { world.sock with incoming := incoming, recvs := recvs }
    client := { world.client with buf := buf } }

structure HeadTlp (stream : Bytes) (buf : RecvBuffer) (packet : Bytes) : Prop where
  complete : CompleteTlp packet
  buffer : AgreeBelow packet.length buf.bytes packet
  stream : AgreeBelow packet.length buf.bytes stream

inductive ReadStep (cbs : Callbacks σ) (world : World σ) : World σ → Prop where
  | idle (incoming : Bytes) (recvs : List RecvStep) (buf : RecvBuffer) :
      ReadStep cbs world (world.refill incoming recvs buf)
  | dropped (incoming : Bytes) (recvs : List RecvStep) (buf : RecvBuffer) :
      ReadStep cbs world (world.refill incoming recvs buf).deactivate
  | dllp (incoming : Bytes) (recvs : List RecvStep) (buf : RecvBuffer) (packet : Bytes)
      (note : DllpNote) :
      ReadStep cbs world
        (((world.refill incoming recvs buf).emit (.packet packet)).emit (.dllp note))
  | corrupted (incoming : Bytes) (recvs : List RecvStep) (buf : RecvBuffer) (packet : Bytes) :
      ReadStep cbs world ((world.refill incoming recvs buf).emit (.packet packet))
  | rejected (incoming : Bytes) (recvs : List RecvStep) (buf : RecvBuffer) (packet : Bytes)
      (head : HeadTlp world.sock.incoming buf packet) :
      ReadStep cbs world
        (push ((world.refill incoming recvs buf).emit (.packet packet)) (ackOf packet)).2
  | accepted (incoming : Bytes) (recvs : List RecvStep) (buf : RecvBuffer) (packet : Bytes)
      (final : World σ)
      (handled : Dispatched cbs (push ((world.refill incoming recvs buf).emit (.packet packet))
        (ackOf packet)).2 (buf.bytes.drop Transport.tTlp) final)
      (head : HeadTlp world.sock.incoming buf packet) :
      ReadStep cbs world final

theorem take_received_bytes {sock next : Socket} {limit : Nat} {recvs : List RecvStep}
    {bytes : Bytes} (took : sock.take limit recvs = (.received bytes, next)) :
    bytes = sock.incoming.take bytes.length ∧ next.incoming = sock.incoming.drop bytes.length := by
  simp only [Socket.take] at took
  split at took
  · cases took
  · cases took
    rw [List.length_take]
    by_cases short : limit ≤ sock.incoming.length
    · rw [Nat.min_eq_left short]
      exact ⟨rfl, rfl⟩
    · rw [Nat.min_eq_right (by omega), List.take_of_length_le (by omega), List.take_length,
        List.drop_length, List.drop_of_length_le (by omega)]
      exact ⟨rfl, rfl⟩

theorem recv_bytes {sock next : Socket} {count : Nat} {bytes : Bytes}
    (received : sock.recv count = (.received bytes, next)) :
    bytes = sock.incoming.take bytes.length ∧ next.incoming = sock.incoming.drop bytes.length := by
  simp only [Socket.recv] at received
  split at received
  · exact take_received_bytes received
  · exact take_received_bytes received
  · cases received
  · cases received
  · cases received

theorem recv_sends (sock : Socket) (count : Nat) : (sock.recv count).2.sends = sock.sends := by
  simp only [Socket.recv, Socket.take]
  split <;> (try split) <;> rfl

theorem recvInto_ok {world next : World σ} {offset count : Nat} {result : RecvResult}
    (ok : recvInto world offset count = .ok (result, next)) :
    ∃ incoming recvs buf, next = world.refill incoming recvs buf ∧
      AgreeBelow offset buf.bytes world.client.buf.bytes := by
  have sends := recv_sends world.sock count
  simp only [recvInto] at ok
  split at ok
  · rename_i bytes sock received
    rw [received] at sends
    split at ok
    · cases ok
      refine ⟨sock.incoming, sock.recvs, world.client.buf.store offset bytes, ?_, ?_⟩
      · simp only [World.refill, ← sends]
      · intro index bound
        exact getByte_overwrite_before bound
    · cases ok
  · rename_i sock _ received
    rw [received] at sends
    cases ok
    refine ⟨sock.incoming, sock.recvs, world.client.buf, ?_, fun _ _ => rfl⟩
    simp only [World.refill, ← sends]

theorem recvInto_bytes {world next : World σ} {offset count : Nat} {bytes : Bytes}
    (ok : recvInto world offset count = .ok (.received bytes, next)) :
    next.sock.incoming = world.sock.incoming.drop bytes.length ∧
      ∀ index, offset ≤ index → index < offset + bytes.length →
        getByte next.client.buf.bytes index = getByte world.sock.incoming (index - offset) := by
  simp only [recvInto] at ok
  split at ok
  · rename_i got sock received
    obtain ⟨taken, dropped⟩ := recv_bytes received
    split at ok
    · rename_i inside
      cases ok
      refine ⟨dropped, fun index start stop => ?_⟩
      have room : offset + bytes.length ≤ world.client.buf.bytes.length := by
        rw [RecvBuffer.length_bytes]
        exact inside
      simp only [RecvBuffer.store]
      rw [getByte_overwrite room, if_pos ⟨start, stop⟩, taken, getByte_take (by omega)]
    · cases ok
  · rename_i sock other received
    cases ok
    exact absurd rfl (other bytes)

theorem receiveLoop_ok {fuel : Nat} {world next : World σ} {len total : Nat} {done : Bool}
    (ok : receiveLoop fuel world len total = .ok (done, next)) :
    ∃ incoming recvs buf, AgreeBelow len buf.bytes world.client.buf.bytes ∧
      next = (if done then world.refill incoming recvs buf
        else (world.refill incoming recvs buf).deactivate) ∧
      (done = true → ∀ index, len ≤ index → index < total →
        getByte buf.bytes index = getByte world.sock.incoming (index - len)) := by
  induction fuel generalizing world len with
  | zero =>
      simp only [receiveLoop] at ok
      split at ok
      · cases ok
      · cases ok
        exact ⟨next.sock.incoming, next.sock.recvs, next.client.buf, fun _ _ => rfl, rfl,
          fun _ index start stop => by omega⟩
  | succ fuel ih =>
      simp only [receiveLoop] at ok
      split at ok
      · split at ok
        · rename_i bytes after received
          obtain ⟨dropped, stored⟩ := recvInto_bytes received
          obtain ⟨incoming, recvs, buf, rfl, kept⟩ := recvInto_ok received
          obtain ⟨lastIncoming, lastRecvs, lastBuf, agree, result, filled⟩ := ih ok
          refine ⟨lastIncoming, lastRecvs, lastBuf, fun index bound => ?_, result,
            fun complete index start stop => ?_⟩
          · rw [agree index (by omega)]
            exact kept index bound
          · by_cases first : index < len + bytes.length
            · rw [agree index first, stored index start first]
            · rw [filled complete index (by omega) stop, dropped, getByte_drop]
              congr 1
              omega
        · rename_i after _ received
          obtain ⟨incoming, recvs, buf, rfl, kept⟩ := recvInto_ok received
          cases ok
          refine ⟨incoming, recvs, buf, kept, rfl, ?_⟩
          intro clash
          cases clash
        · cases ok
      · cases ok
        exact ⟨next.sock.incoming, next.sock.recvs, next.client.buf, fun _ _ => rfl, rfl,
          fun _ index start stop => by omega⟩

def HandlesHead (cbs : Callbacks σ) (world final : World σ) : Prop :=
  ∃ incoming recvs buf packet, HeadTlp world.sock.incoming buf packet ∧
    handleTlp cbs (push ((world.refill incoming recvs buf).emit (.packet packet)) (ackOf packet)).2
      (buf.bytes.drop Transport.tTlp) = .ok final

def HandlesNothing (cbs : Callbacks σ) (world final : World σ) : Prop :=
  ReadStep cbs world final ∧ final.app = world.app ∧
    ∃ buf active, final.client = { world.client with buf := buf, active := active }

theorem readDllp_nothing (cbs : Callbacks σ) (world : World σ) (incoming : Bytes)
    (recvs : List RecvStep) (buf : RecvBuffer) :
    HandlesNothing cbs world (readDllp (world.refill incoming recvs buf)) := by
  simp only [readDllp]
  split
  · simp only [handleDllp]
    split
    · exact ⟨.dllp .., rfl, _, _, rfl⟩
    · split <;> exact ⟨.dllp .., rfl, _, _, rfl⟩
  · exact ⟨.corrupted .., rfl, _, _, rfl⟩

theorem refill_nothing (cbs : Callbacks σ) (world : World σ) (incoming : Bytes)
    (recvs : List RecvStep) (buf : RecvBuffer) :
    HandlesNothing cbs world (world.refill incoming recvs buf) ∧
      HandlesNothing cbs world (world.refill incoming recvs buf).deactivate :=
  ⟨⟨.idle .., rfl, _, _, rfl⟩, ⟨.dropped .., rfl, _, _, rfl⟩⟩

theorem rejected_nothing (cbs : Callbacks σ) {world : World σ} {packet : Bytes} {buf : RecvBuffer}
    (head : HeadTlp world.sock.incoming buf packet) (incoming : Bytes) (recvs : List RecvStep) :
    HandlesNothing cbs world
      (push ((world.refill incoming recvs buf).emit (.packet packet)) (ackOf packet)).2 := by
  refine ⟨.rejected _ _ _ _ head, push_app _ _, ?_⟩
  rw [push_client]
  split <;> exact ⟨_, _, rfl⟩

theorem complete_take {buf last : RecvBuffer}
    (proto : Transport.tProto.get buf.bytes = PcieProto.tlp.code)
    (known : ¬tlpTotalLength (buf.bytes.drop Transport.tTlp) < 0)
    (fits : (tlpTotalLength (buf.bytes.drop Transport.tTlp)).toNat + headerSize ≤ clientBufferSize)
    (agree : AgreeBelow headerSize last.bytes buf.bytes) :
    let packet := last.bytes.take
      ((tlpTotalLength (buf.bytes.drop Transport.tTlp)).toNat + headerSize)
    AgreeBelow packet.length last.bytes packet ∧ CompleteTlp packet ∧
      packet.length ≤ clientBufferSize := by
  intro packet
  have length : packet.length =
      (tlpTotalLength (buf.bytes.drop Transport.tTlp)).toNat + headerSize := by
    rw [List.length_take, last.length_bytes, Nat.min_eq_left fits]
  have agreePacket : AgreeBelow packet.length last.bytes packet := by
    intro index bound
    exact (getByte_take (by omega)).symm
  have header : AgreeBelow headerSize packet buf.bytes := by
    intro index bound
    rw [← agreePacket index (by omega), agree index bound]
  have total := tlpTotalLength_congr (header.drop Transport.tTlp)
  refine ⟨agreePacket, ⟨?_, by omega, by omega⟩, by omega⟩
  rw [header.get Transport.tProto (by decide), proto]

theorem readTlp_cases {cbs : Callbacks σ} {world final : World σ} {incoming : Bytes}
    {recvs : List RecvStep} {buf : RecvBuffer}
    (proto : Transport.tProto.get buf.bytes = PcieProto.tlp.code)
    (header : AgreeBelow headerSize buf.bytes world.sock.incoming)
    (dropped : incoming = world.sock.incoming.drop headerSize)
    (ok : readTlp cbs (world.refill incoming recvs buf) = .ok final) :
    HandlesHead cbs world final ∨ HandlesNothing cbs world final := by
  simp only [readTlp] at ok
  split at ok
  · cases ok
    exact .inr (refill_nothing ..).2
  · rename_i known
    split at ok
    · rename_i fits
      simp only [bind, Except.bind] at ok
      split at ok
      · cases ok
      · rename_i result looped
        obtain ⟨done, next⟩ := result
        obtain ⟨lastIncoming, lastRecvs, lastBuf, agree, rfl, filled⟩ := receiveLoop_ok looped
        cases done with
        | false =>
            cases ok
            exact .inr (refill_nothing cbs world lastIncoming lastRecvs lastBuf).2
        | true =>
            obtain ⟨agreePacket, complete, short⟩ := complete_take proto known fits agree
            simp only [if_true] at ok
            have head : HeadTlp world.sock.incoming lastBuf (lastBuf.bytes.take
                ((tlpTotalLength (buf.bytes.drop Transport.tTlp)).toNat + headerSize)) := by
              refine ⟨complete, agreePacket, fun index bound => ?_⟩
              have inside := Nat.lt_of_lt_of_le bound (List.length_take_le _ _)
              by_cases inHeader : index < headerSize
              · rw [agree _ inHeader]
                exact header _ inHeader
              · rw [filled rfl _ (by omega) inside]
                change getByte incoming _ = _
                rw [dropped, getByte_drop]
                congr 1
                omega
            rw [processTlp_eq cbs agreePacket complete short] at ok
            split at ok
            · exact .inl ⟨_, _, _, _, head, ok⟩
            · cases ok
              exact .inr (rejected_nothing cbs head _ _)
    · cases ok

theorem clientRead_cases {cbs : Callbacks σ} {world final : World σ}
    (ok : warppipeClientRead cbs world = .ok final) :
    HandlesHead cbs world final ∨ HandlesNothing cbs world final := by
  simp only [warppipeClientRead] at ok
  split at ok
  · rename_i bytes next received
    obtain ⟨dropped, stored⟩ := recvInto_bytes received
    obtain ⟨incoming, recvs, buf, rfl, -⟩ := recvInto_ok received
    split at ok
    · rename_i whole
      rw [whole] at dropped stored
      simp only [readPacket] at ok
      split at ok
      · cases ok
        exact .inr (readDllp_nothing ..)
      · rename_i code
        exact readTlp_cases (PcieProto.code_eq code)
          (fun index bound => stored index (Nat.zero_le _) (by omega)) dropped ok
      · cases ok
        exact .inr (refill_nothing ..).2
    · cases ok
      exact .inr (refill_nothing ..).2
  · rename_i next received
    obtain ⟨incoming, recvs, buf, rfl, -⟩ := recvInto_ok received
    cases ok
    exact .inr (refill_nothing ..).1
  · rename_i next _ _ received
    obtain ⟨incoming, recvs, buf, rfl, -⟩ := recvInto_ok received
    cases ok
    exact .inr (refill_nothing ..).2
  · cases ok

/-- Every way a call of `warppipe_client_read` can end. -/
theorem clientRead_ok {cbs : Callbacks σ} {world final : World σ}
    (ok : warppipeClientRead cbs world = .ok final) : ReadStep cbs world final := by
  rcases clientRead_cases ok with ⟨incoming, recvs, buf, packet, head, handled⟩ | nothing
  · exact .accepted _ _ _ _ _ (handleTlp_dispatched handled) head
  · exact nothing.1

end WarpPipe
