import WarpPipe.Trace
import WarpPipe.Windows
import WarpPipe.ReceiveBuffer

/-!
One transaction from end to end: a write reaches the write callback of the other side with its
data, and a read comes back with the bytes that the read callback of the other side produced.
-/

namespace WarpPipe

open ByteLayout

variable {σ τ : Type}

theorem carries_positive {packet : Bytes} {message : Message} (carries : Carries packet message) :
    1 ≤ packet.length := by
  have covers := carries.covers
  have seven : headerSize = 7 := rfl
  omega

theorem transferred_sent {before after : World σ} {packet : Bytes} {events : List Event}
    (log : after.log = before.log ++ .sent packet packet.length :: events)
    (silent : events.flatMap Event.output = []) : transferred before after = packet := by
  rw [transferred, fresh_eq log, List.flatMap_cons, silent, Event.output]
  simp

theorem writeImp_transfers {requester : World σ} (sends : requester.sock.SendsAll) (space : Space)
    (junk : Nat → Byte) {addr : BitVec 64} {data : Bytes} (access : Encodable addr data.length) :
    ∃ sent, warppipeWriteImp requester junk addr data data.length space.writeRequest =
        .ok (0, sent) ∧
      Carries (transferred requester sent) (.write space addr data) := by
  have positive := access.positive
  have carries := carries_write space (requester.client.seqno + 1) junk access
  have pushed := push_all (show (bumpSeqno requester).sock.SendsAll from sends)
    (sealTlp (requester.client.seqno + 1) (writeBlock junk addr data space.writeRequest))
  have nonempty := carries_positive carries
  rw [warppipeWriteImp_eq requester junk space.isWrite addr data data.length
      (Nat.le_refl _) (by omega),
    List.take_length, afterWrite, pushed]
  refine ⟨_, by rw [if_pos (by omega)], ?_⟩
  rw [transferred_sent rfl rfl]
  exact carries

theorem readImp_transfers {requester : World σ} (sends : requester.sock.SendsAll) (space : Space)
    {addr : BitVec 64} {length : Nat} (access : Encodable addr length) (cb : Option FnPtr) :
    ∃ sent, warppipeReadImp requester addr length cb space.readRequest = .ok (0, sent) ∧
      Carries (transferred requester sent) (.read space addr length requester.client.readTag) ∧
      sent.client.completionCb = Function.update requester.client.completionCb
        requester.client.readTag cb := by
  have carries := carries_read space (requester.client.seqno + 1) requester.client.readTag access
  have pushed := push_all (show (bumpSeqno (bumpTag requester)).sock.SendsAll from sends)
    (readPacketOf requester space.readRequest addr length)
  have log : (storeSlot (push (bumpSeqno (bumpTag requester))
      (readPacketOf requester space.readRequest addr length)).2 requester.client.readTag cb).log =
        requester.log ++ .sent (readPacketOf requester space.readRequest addr length)
          (readPacketOf requester space.readRequest addr length).length ::
            [.stored requester.client.readTag cb] := by
    rw [pushed]
    simp [storeSlot, World.emit, bumpSeqno, bumpTag]
  rw [pushed] at log
  rw [warppipeReadImp_eq requester space.isRead, afterRead, pushed]
  refine ⟨_, by rw [if_neg (by simp only; omega)], ?_, rfl⟩
  rw [transferred_sent log rfl]
  exact carries

theorem acked_all {world : World σ} (sends : world.sock.SendsAll) (packet rest : Bytes)
    (later : List RecvStep) :
    ∃ sock, sock.incoming = rest ∧ sock.recvs = later ∧ sock.SendsAll ∧
      world.acked packet rest later =
        { client := { world.client with buf := world.client.buf.store 0 packet }
          sock := sock
          app := world.app
          log := world.log ++ [.packet packet, .sent (ackOf packet) (ackOf packet).length] } := by
  have still : (world.received packet rest later).sock.SendsAll := sends
  have kept := send_incoming (world.received packet rest later).sock (ackOf packet)
  refine ⟨((world.received packet rest later).sock.send (ackOf packet)).2, kept.1, kept.2,
    (still.send _).2, ?_⟩
  rw [World.acked, push_all still]
  simp [World.received, World.emit]

theorem requests_not_invocations {events : List Event}
    (kinds : ∀ event ∈ events,
      (∃ packet count, event = .sent packet count) ∨ ∃ tag cb, event = .stored tag cb) :
    events.filter Event.isInvocation = [] := by
  rw [List.filter_eq_nil_iff]
  intro event member
  rcases kinds event member with ⟨packet, count, rfl⟩ | ⟨tag, cb, rfl⟩ <;> simp [Event.isInvocation]

theorem invocations_undisturbed {before middle after : World σ} {events : List Event}
    (log : middle.log = before.log ++ events) (calls : Undisturbed middle after) :
    invocations before after = events.filter Event.isInvocation := by
  obtain ⟨extra, extraLog, kinds⟩ := calls.log
  rw [log, List.append_assoc] at extraLog
  rw [invocations, fresh_eq extraLog, List.filter_append, requests_not_invocations kinds,
    List.append_nil]

structure Next (sock : Socket) (packet rest : Bytes) (later : List RecvStep) : Prop where
  stream : sock.incoming = packet ++ rest
  schedule : packetSchedule sock.recvs (packet.length - headerSize) = some later

theorem Carries.arrives {sock : Socket} {packet rest : Bytes} {later : List RecvStep}
    {message : Message} (carries : Carries packet message) (next : Next sock packet rest later) :
    Arrives sock packet rest later := by
  have covers := carries.covers
  exact ⟨next.stream, by omega, carries.fits, next.schedule⟩

theorem clientRead_write {cbs : Callbacks τ} (valid : cbs.Valid) {completer : World τ}
    (sends : completer.sock.SendsAll) {packet rest : Bytes} {later : List RecvStep} {space : Space}
    {addr target : BitVec 64} {data : Bytes} (carries : Carries packet (.write space addr data))
    (next : Next completer.sock packet rest later) {cb : FnPtr}
    (route : completer.client.writeRoute space (addr &&& ~~~3) = (some cb, target)) :
    ∃ final, warppipeClientRead cbs completer = .ok final ∧
      invocations completer final = [.writeCb cb (target + misalignment addr) data data.length] ∧
      final.client.active = completer.client.active ∧ final.sock.incoming = rest := by
  obtain ⟨pkt, -, read⟩ := clientRead_serve cbs (carries.arrives next) carries
  obtain ⟨sock, incoming, recvs, still, acked⟩ := acked_all sends packet rest later
  rw [acked] at read
  have routed :
      (({ completer.client with buf := completer.client.buf.store 0 packet } : Client).writeRoute
      space (addr &&& ~~~3)) = (some cb, target) := by
    rw [← route]
    cases space <;> rfl
  simp only [serve, routed, invokeWrite] at read
  obtain ⟨final, ran⟩ := runCalls_valid
    (World.emit { client := { completer.client with buf := completer.client.buf.store 0 packet }
                  sock := sock
                  app :=
                    (cbs.write cb completer.app (target + misalignment addr) data data.length).app
                  log :=
                    completer.log ++ [.packet packet, .sent (ackOf packet) (ackOf packet).length] }
      (.writeCb cb (target + misalignment addr) data data.length))
    (valid.write cb completer.app (target + misalignment addr) data data.length)
  have steps := runCalls_ok ran
  have undisturbed := CallSteps.undisturbed steps
  refine ⟨final, read.trans ran, ?_, (CallSteps.active steps still).1,
    undisturbed.incoming.trans incoming⟩
  rw [invocations_undisturbed (by simp only [World.emit, List.append_assoc]; rfl) undisturbed]
  rfl

def askedRead (cbs : Callbacks σ) (world : World σ) (cb : FnPtr) (addr : BitVec 64) (length : Nat) :
    World σ :=
  { world with app := (cbs.read cb world.app addr length).app }.emit
    (.readCb cb addr length (cbs.read cb world.app addr length).error
      (fillBuffer length (cbs.read cb world.app addr length).data))

theorem invokeRead_eq (cbs : Callbacks σ) (world : World σ) (cb : FnPtr) (addr : BitVec 64)
    (length : Nat) :
    invokeRead cbs world cb addr length =
      (runCalls (askedRead cbs world cb addr length) (cbs.read cb world.app addr length).calls).map
        fun middle => ((cbs.read cb world.app addr length).error,
          fillBuffer length (cbs.read cb world.app addr length).data, middle) := by
  rw [askedRead]
  simp only [invokeRead]
  cases runCalls _ _ <;> rfl

def answerOf (tag : Fin 32) (error : Int) (data : Bytes) : Message :=
  if error = 0 then .completion tag data else .failure tag

theorem length_fillBuffer (length : Nat) (data : Bytes) :
    (fillBuffer length data).length = length := by
  simp [fillBuffer]

theorem fillBuffer_full {bytes : Bytes} {length : Nat} (full : bytes.length = length) :
    fillBuffer length bytes = bytes := by
  rw [fillBuffer, overwrite_zero _ _ (by simp [full]), List.drop_of_length_le (by simp [full]),
    List.append_nil]

theorem clientRead_read (cbs : Callbacks τ) {completer : World τ} {packet rest : Bytes}
    {later : List RecvStep} {space : Space} {addr target : BitVec 64} {length : Nat} {tag : Fin 32}
    (carries : Carries packet (.read space addr length tag))
    (next : Next completer.sock packet rest later) {cb : FnPtr}
    (route : (completer.acked packet rest later).client.readRoute space (addr &&& ~~~3) =
      (some cb, target))
    (short : (cbs.read cb (completer.acked packet rest later).app (target + misalignment addr)
      length).error = 0 → length ≤ 4095) :
    let ret :=
      cbs.read cb (completer.acked packet rest later).app (target + misalignment addr) length
    ∃ tport, TlpBlock tport ∧
      (∀ seqno, Carries (sealTlp seqno tport)
        (answerOf tag ret.error (fillBuffer length ret.data))) ∧
      warppipeClientRead cbs completer =
        (runCalls (askedRead cbs (completer.acked packet rest later) cb (target + misalignment addr)
          length) ret.calls).map fun middle =>
            (push (bumpSeqno middle) (sealTlp (middle.client.seqno + 1) tport)).2 := by
  intro ret
  obtain ⟨pkt, holds, read⟩ := clientRead_serve cbs (carries.arrives next) carries
  refine ⟨completionPacket pkt ret.error (fillBuffer length ret.data),
    tlpBlock_completionPacket pkt _ _, fun seqno => ?_, ?_⟩
  · have filled := length_fillBuffer length ret.data
    have asked : IsRead pkt space.readType addr (fillBuffer length ret.data).length tag := by
      rw [filled]
      exact holds
    rw [answerOf]
    split
    · rename_i success
      have fits := short success
      rw [success]
      exact carries_completion seqno asked (by omega)
    · rename_i failed
      exact carries_failure seqno asked failed _
  · rw [read]
    simp only [serve, route, invokeRead_eq]
    cases runCalls
      (askedRead cbs (completer.acked packet rest later) cb (target + misalignment addr)
      length) ret.calls <;> rfl

theorem clientRead_completion (cbs : Callbacks σ) {world : World σ} {packet rest : Bytes}
    {later : List RecvStep} {tag : Fin 32} {data : Bytes}
    (carries : Carries packet (.completion tag data)) (next : Next world.sock packet rest later)
    {cb : FnPtr} (stored : (world.acked packet rest later).client.completionCb tag = some cb) :
    warppipeClientRead cbs world =
      (invokeCompletion cbs (world.acked packet rest later) tag cb 0 data data.length).map
        fun middle => clearSlot middle tag := by
  obtain ⟨pkt, -, read⟩ := clientRead_serve cbs (carries.arrives next) carries
  rw [read]
  simp only [serve, stored, bind, Except.bind, pure, Except.pure]
  cases invokeCompletion cbs (world.acked packet rest later) tag cb 0 data data.length <;> rfl

theorem read_served {cbs : Callbacks τ} (valid : cbs.Valid) {completer : World τ}
    (sends : completer.sock.SendsAll) {packet rest : Bytes} {later : List RecvStep} {space : Space}
    {addr target : BitVec 64} {length : Nat} {tag : Fin 32}
    (carries : Carries packet (.read space addr length tag))
    (next : Next completer.sock packet rest later) {cb : FnPtr}
    (route : completer.client.readRoute space (addr &&& ~~~3) = (some cb, target))
    (short : (cbs.read cb completer.app (target + misalignment addr) length).error = 0 →
      length ≤ 4095) :
    let ret := cbs.read cb completer.app (target + misalignment addr) length
    ∃ final nested answer, warppipeClientRead cbs completer = .ok final ∧
      invocations completer final =
        [.readCb cb (target + misalignment addr) length ret.error (fillBuffer length ret.data)] ∧
      final.client.active = completer.client.active ∧ final.sock.incoming = rest ∧
      sentPackets completer final = ackOf packet :: (nested ++ [answer]) ∧
      Carries answer (answerOf tag ret.error (fillBuffer length ret.data)) ∧
      (ret.calls = [] → nested = [] ∧ transferred completer final = ackOf packet ++ answer) := by
  intro ret
  obtain ⟨sock, incoming, recvs, still, acked⟩ := acked_all sends packet rest later
  have routed : (completer.acked packet rest later).client.readRoute space (addr &&& ~~~3) =
      (some cb, target) := by
    rw [acked, ← route]
    cases space <;> rfl
  have app : (completer.acked packet rest later).app = completer.app := by rw [acked]
  obtain ⟨tport, block, answers, read⟩ := clientRead_read cbs carries next routed (by rwa [app])
  rw [app] at read answers
  -- the callback may make requests of its own before the completion goes out
  obtain ⟨middle, ran⟩ := runCalls_valid
    (askedRead cbs (completer.acked packet rest later) cb (target + misalignment addr) length)
    (valid.read cb completer.app (target + misalignment addr) length)
  have steps := runCalls_ok ran
  have undisturbed := CallSteps.undisturbed steps
  have asked :
      (askedRead cbs (completer.acked packet rest later) cb
        (target + misalignment addr) length).log =
      completer.log ++ [.packet packet, .sent (ackOf packet) (ackOf packet).length,
        .readCb cb (target + misalignment addr) length ret.error (fillBuffer length ret.data)] := by
    simp only [askedRead, acked, World.emit, List.append_assoc]
    rfl
  obtain ⟨active, sendsMiddle⟩ := CallSteps.active steps (by rw [askedRead, acked]; exact still)
  have pushed := push_all (show (bumpSeqno middle).sock.SendsAll from sendsMiddle)
    (sealTlp (middle.client.seqno + 1) tport)
  obtain ⟨extra, extraLog, kinds⟩ := undisturbed.log
  rw [asked, List.append_assoc] at extraLog
  have log : (push (bumpSeqno middle) (sealTlp (middle.client.seqno + 1) tport)).2.log =
      completer.log ++ ([.packet packet, .sent (ackOf packet) (ackOf packet).length,
        .readCb cb (target + misalignment addr) length ret.error
          (fillBuffer length ret.data)] ++ extra ++
        [.sent (sealTlp (middle.client.seqno + 1) tport)
          (sealTlp (middle.client.seqno + 1) tport).length]) := by
    rw [pushed]
    simp only [World.emit, bumpSeqno, extraLog, List.append_assoc]
  refine ⟨(push (bumpSeqno middle) (sealTlp (middle.client.seqno + 1) tport)).2,
    extra.filterMap Event.sentPacket?, sealTlp (middle.client.seqno + 1) tport,
    by rw [read, ran]; rfl, ?_, ?_, ?_, ?_, answers _, ?_⟩
  · rw [invocations, fresh_eq log, List.filter_append, List.filter_append,
      requests_not_invocations kinds]
    rfl
  · rw [pushed]
    exact active.trans (by rw [askedRead, acked]; rfl)
  · rw [pushed]
    refine ((send_incoming _ _).1.trans undisturbed.incoming).trans ?_
    rw [askedRead, acked]
    exact incoming
  · rw [sentPackets, fresh_eq log, List.filterMap_append, List.filterMap_append]
    rfl
  · intro none
    rw [show (cbs.read cb completer.app (target + misalignment addr) length).calls = [] from none]
      at ran
    cases ran
    rw [asked, ← List.append_assoc, List.self_eq_append_right] at extraLog
    subst extra
    refine ⟨rfl, ?_⟩
    rw [transferred, fresh_eq log]
    simp [Event.output]

theorem completion_invoked {cbs : Callbacks σ} (valid : cbs.Valid) {world : World σ}
    (sends : world.sock.SendsAll) {packet rest : Bytes} {later : List RecvStep} {tag : Fin 32}
    {data : Bytes} (carries : Carries packet (.completion tag data))
    (next : Next world.sock packet rest later) {cb : FnPtr}
    (stored : world.client.completionCb tag = some cb) :
    ∃ final, warppipeClientRead cbs world = .ok final ∧
      invocations world final = [.completion tag cb 0 data data.length] ∧
      final.client.completionCb tag = none ∧ final.sock.incoming = rest := by
  obtain ⟨sock, incoming, recvs, still, acked⟩ := acked_all sends packet rest later
  have held : (world.acked packet rest later).client.completionCb tag = some cb := by
    rw [acked]
    exact stored
  have read := clientRead_completion cbs carries next held
  rw [acked, invokeCompletion] at read
  obtain ⟨middle, ran⟩ := runCalls_valid
    (World.emit { client := { world.client with buf := world.client.buf.store 0 packet }
                  sock := sock
                  app := (cbs.completion cb world.app 0 data data.length).app
                  log := world.log ++ [.packet packet, .sent (ackOf packet) (ackOf packet).length] }
      (.completion tag cb 0 data data.length))
    (valid.completion cb world.app 0 data data.length)
  have undisturbed := CallSteps.undisturbed (runCalls_ok ran)
  refine ⟨clearSlot middle tag, read.trans (by rw [ran]; rfl), ?_, ?_,
    undisturbed.incoming.trans incoming⟩
  · exact invocations_undisturbed (by simp only [World.emit, List.append_assoc]; rfl) undisturbed
  · simp [clearSlot]

theorem clientRead_ack (cbs : Callbacks σ) {world : World σ} {packet rest : Bytes}
    {later : List RecvStep} (complete : CompleteDllp packet)
    (next : Next world.sock packet rest later) :
    ∃ final notes, warppipeClientRead cbs world = .ok final ∧
      final.log = world.log ++ .packet packet :: notes ∧
      (∀ event ∈ notes, ∃ note, event = .dllp note) ∧
      final.client = { world.client with buf := world.client.buf.store 0 packet } ∧
      final.sock = { world.sock with incoming := rest, recvs := later } ∧
      final.app = world.app := by
  have length := complete.length
  have arrives : Arrives world.sock packet rest later :=
    ⟨next.stream, by omega, by rw [length]; decide, next.schedule⟩
  rw [clientRead_dllp arrives cbs complete]
  split
  · simp only [handleDllp]
    split
    · exact ⟨_, [_], rfl, List.append_assoc _ _ _, by simp, rfl, rfl, rfl⟩
    · split
      · exact ⟨_, [_], rfl, List.append_assoc _ _ _, by simp, rfl, rfl, rfl⟩
      · exact ⟨_, [_], rfl, List.append_assoc _ _ _, by simp, rfl, rfl, rfl⟩
  · exact ⟨_, [], rfl, rfl, by simp, rfl, rfl, rfl⟩

theorem aligned_add_misalignment (addr : BitVec 64) :
    (addr &&& ~~~3) + misalignment addr = addr := by
  apply BitVec.eq_of_toNat_eq
  have bound := addr.isLt
  rw [BitVec.toNat_add, toNat_and_not_three, misalignment, BitVec.toNat_ofNat]
  omega

theorem Holds.toNat_addr {client : Client} {index : Fin 6} {window : Window}
    (holds : Holds client index window) {offset : Nat} (inside : offset < window.size) :
    ((client.bar index).setWidth 64 + BitVec.ofNat 64 offset).toNat = window.base + offset ∧
      window.base + offset < 2 ^ 32 := by
  have stop := window.end_le (Nat.le_of_lt holds.order_lt)
  rw [BitVec.toNat_add, BitVec.toNat_setWidth_of_le (by decide), holds.bar, BitVec.toNat_ofNat]
  omega

theorem Holds.registered {client : Client} {index : Fin 6} {window : Window}
    (holds : Holds client index window) (nonzero : window.base ≠ 0) : client.bar index ≠ 0 := by
  intro zero
  have base := holds.bar
  rw [zero] at base
  exact nonzero base.symm

/-- The bytes that a write put on the wire make the completer call `cb` once and stay active. -/
def WriteDelivered (cbs : Callbacks τ) (requester : World σ) (completer : World τ)
    (issued : Outcome (Int × World σ)) (cb : FnPtr) (addr : BitVec 64) (data : Bytes) : Prop :=
  ∃ sent, issued = .ok (0, sent) ∧
    ∀ rest later, Next completer.sock (transferred requester sent) rest later →
      ∃ final, warppipeClientRead cbs completer = .ok final ∧
        invocations completer final = [.writeCb cb addr data data.length] ∧
        final.client.active = true ∧ final.sock.incoming = rest

structure SharedBar (requester completer : Client) (index : Fin 6) (window : Window) : Prop where
  held : Holds requester index window
  decodes : Decodes completer index window
  nonzero : window.base ≠ 0
  words : 4 ≤ window.size

theorem SharedBar.order {requester completer : Client} {index : Fin 6} {window : Window}
    (shared : SharedBar requester completer index window) : 2 ≤ window.order := by
  have words := shared.words
  rw [Window.size, show 4 = 2 ^ 2 from rfl] at words
  exact (Nat.pow_le_pow_iff_right (by decide)).mp words

section

variable {cbs : Callbacks τ} (valid : cbs.Valid) (requester : World σ) (completer : World τ)
variable (requesterSends : requester.sock.SendsAll) (completerSends : completer.sock.SendsAll)

include valid requesterSends completerSends

/-- A write reaches the write callback of the completer with its offset and its data, whatever
`malloc` returned: in a BAR that both sides hold, and in configuration space. -/
theorem write_reaches_callback (active : completer.client.active = true) (junk : Nat → Byte)
    (cb : FnPtr) (data : Bytes) (nonempty : 1 ≤ data.length) :
    (∀ index window offset, SharedBar requester.client completer.client index window →
      completer.client.barWriteCb index = some cb → offset + data.length ≤ window.size →
      (window.base + offset) % 4 + data.length ≤ 4096 →
      WriteDelivered cbs requester completer
        (warppipeWrite requester junk index (BitVec.ofNat 64 offset) data data.length)
        cb (BitVec.ofNat 64 offset) data) ∧
    (∀ addr : BitVec 64, addr.toNat < 2 ^ 32 → completer.client.cfg0WriteCb = some cb →
      addr.toNat % 4 + data.length ≤ 4096 →
      WriteDelivered cbs requester completer
        (warppipeConfig0Write requester junk addr data data.length) cb addr data) := by
  constructor
  · intro index window offset shared registered inside fits
    obtain ⟨address, low⟩ := shared.held.toNat_addr (show offset < window.size by omega)
    have access : Encodable ((requester.client.bar index).setWidth 64 + BitVec.ofNat 64 offset)
        data.length := ⟨by omega, nonempty, by omega⟩
    obtain ⟨sent, issued, carries⟩ := writeImp_transfers requesterSends .memory junk access
    obtain ⟨target, decoded, told⟩ := shared.decodes.barTarget shared.order
      completer.client.barWriteCb (address ▸ Nat.le_add_right _ _) (by omega)
    rw [address, Nat.add_sub_cancel_left] at told
    refine ⟨sent, ?_, fun rest later next => ?_⟩
    · rw [warppipeWrite, if_neg (shared.held.registered shared.nonzero)]
      exact issued
    · have route : completer.client.writeRoute .memory _ = _ := decoded
      rw [registered] at route
      have delivered := clientRead_write valid completerSends carries next route
      rwa [told, active] at delivered
  · intro addr low registered fits
    obtain ⟨sent, issued, carries⟩ := writeImp_transfers requesterSends .config0 junk
      (⟨low, nonempty, fits⟩ : Encodable addr data.length)
    refine ⟨sent, issued, fun rest later next => ?_⟩
    have route : completer.client.writeRoute .config0 (addr &&& ~~~3) =
        (some cb, addr &&& ~~~3) := by
      rw [Client.writeRoute, registered]
    have delivered := clientRead_write valid completerSends carries next route
    rwa [aligned_add_misalignment, active] at delivered

end

/-- A read that was issued makes the completer ask `cb` once. If that succeeds, the last packet of
the completer makes a requester that still holds the slot call `done` once, with the bytes that
`cb` produced. When `cb` makes no requests of its own, the requester gets there from the state in
which `warppipe_read` left it with two calls of `warppipe_client_read`, one for the ACK. -/
def ReadAnswered (cbs : Callbacks τ) (answers : Callbacks σ) (requester : World σ)
    (completer : World τ) (issued : Outcome (Int × World σ)) (cb done : FnPtr) (addr : BitVec 64)
    (length : Nat) : Prop :=
  let ret := cbs.read cb completer.app addr length
  let data := fillBuffer length ret.data
  let tag := requester.client.readTag
  ∃ sent, issued = .ok (0, sent) ∧
    ∀ rest later, Next completer.sock (transferred requester sent) rest later →
      ∃ final nested answer, warppipeClientRead cbs completer = .ok final ∧
        invocations completer final = [.readCb cb addr length ret.error data] ∧
        sentPackets completer final = nested ++ [answer] ∧
        (ret.error = 0 →
          (∀ (waiting : World σ) rest later, waiting.sock.SendsAll →
            waiting.client.completionCb tag = sent.client.completionCb tag →
            Next waiting.sock answer rest later →
            ∃ answered, warppipeClientRead answers waiting = .ok answered ∧
              invocations waiting answered = [.completion tag done 0 data length] ∧
              answered.client.completionCb tag = none) ∧
          (ret.calls = [] → ∀ (sock : Socket) rest later, sock.SendsAll →
            sock.incoming = transferred completer final ++ rest →
            streamSchedule sock.recvs (sentPackets completer final) = some later →
            ∃ answered, clientReads answers 2 { sent with sock := sock } = .ok answered ∧
              invocations sent answered = [.completion tag done 0 data length] ∧
              answered.sock.incoming = rest))

theorem ack_then_completion {answers : Callbacks σ} (valid : answers.Valid) {waiting : World σ}
    (sends : waiting.sock.SendsAll) {ack answer rest : Bytes} {later : List RecvStep} {tag : Fin 32}
    {data : Bytes} (complete : CompleteDllp ack) (carries : Carries answer (.completion tag data))
    (stream : waiting.sock.incoming = ack ++ answer ++ rest)
    (schedule : streamSchedule waiting.sock.recvs [ack, answer] = some later) {done : FnPtr}
    (stored : waiting.client.completionCb tag = some done) :
    ∃ answered, clientReads answers 2 waiting = .ok answered ∧
      invocations waiting answered = [.completion tag done 0 data data.length] ∧
      answered.sock.incoming = rest := by
  simp only [streamSchedule, Option.bind_eq_some_iff, Option.some.injEq] at schedule
  obtain ⟨afterAck, ackSchedule, afterAnswer, answerSchedule, -⟩ := schedule
  obtain ⟨middle, notes, ackRead, log, kinds, client, sock, -⟩ := clientRead_ack answers complete
    (⟨by rw [stream, List.append_assoc], ackSchedule⟩ :
      Next waiting.sock ack (answer ++ rest) afterAck)
  have next : Next middle.sock answer rest afterAnswer := by
    rw [sock]
    exact ⟨rfl, answerSchedule⟩
  obtain ⟨answered, answerRead, invoked, -, incoming⟩ := completion_invoked valid
    (show middle.sock.SendsAll by rw [sock]; exact sends) carries next
    (show middle.client.completionCb tag = some done by rw [client]; exact stored)
  refine ⟨answered, ?_, ?_, incoming⟩
  · simp only [clientReads, ackRead, answerRead, Except.bind]
  · have silent : invocations waiting middle = [] := by
      rw [invocations, fresh_eq log, List.filter_eq_nil_iff]
      intro event member
      rcases List.mem_cons.mp member with rfl | noted
      · simp [Event.isInvocation]
      · obtain ⟨note, rfl⟩ := kinds event noted
        simp [Event.isInvocation]
    rw [invocations_trans ⟨_, log.symm⟩ (clientRead_ok answerRead).grows, silent, invoked]
    rfl

section

variable {cbs : Callbacks τ} (valid : cbs.Valid) {answers : Callbacks σ}
  (answersValid : answers.Valid)
variable {requester : World σ} {completer : World τ}
variable (requesterSends : requester.sock.SendsAll) (completerSends : completer.sock.SendsAll)

include valid answersValid requesterSends completerSends

theorem readAnswered_of_route (space : Space) {addr target told : BitVec 64} {length : Nat}
    (access : Encodable addr length) (short : length ≤ 4095) {cb : FnPtr} (done : FnPtr)
    (route : completer.client.readRoute space (addr &&& ~~~3) = (some cb, target))
    (heard : target + misalignment addr = told) :
    ReadAnswered cbs answers requester completer
      (warppipeReadImp requester addr length (some done) space.readRequest) cb done
        told length := by
  subst told
  obtain ⟨sent, issued, carries, slots⟩ := readImp_transfers requesterSends space access (some done)
  refine ⟨sent, issued, fun rest later next => ?_⟩
  obtain ⟨final, nested, answer, read, invoked, -, -, packets, answered, quiet⟩ :=
    read_served valid completerSends carries next route fun _ => short
  have length := length_fillBuffer length
    (cbs.read cb completer.app (target + misalignment addr) length).data
  have stored : sent.client.completionCb requester.client.readTag = some done := by
    rw [slots, Function.update_self]
  refine ⟨final, ackOf (transferred requester sent) :: nested, answer, read, invoked, packets, ?_⟩
  intro success
  rw [answerOf, if_pos success] at answered
  refine ⟨fun waiting rest later sends slot next => ?_,
    fun none sock rest later sends stream schedule => ?_⟩
  · obtain ⟨final, read, invoked, cleared, -⟩ :=
      completion_invoked answersValid sends answered next (slot.trans stored)
    rw [length] at invoked
    exact ⟨final, read, invoked, cleared⟩
  · obtain ⟨rfl, bytes⟩ := quiet none
    rw [bytes] at stream
    rw [packets] at schedule
    have two := ack_then_completion answersValid
      (show ({ sent with sock := sock } : World σ).sock.SendsAll from sends)
      (ackFor_ackOf _).complete answered stream schedule stored
    rw [length] at two
    exact two

/-- A read comes back with the bytes that the read callback of the completer produced: in a BAR that
both sides hold, and in configuration space. What the slot of its tag held before does not
matter. -/
theorem read_returns_data (cb done : FnPtr) (length : Nat) (positive : 1 ≤ length)
    (short : length ≤ 4095) :
    (∀ index window offset, SharedBar requester.client completer.client index window →
      completer.client.barReadCb index = some cb → offset + length ≤ window.size →
      (window.base + offset) % 4 + length ≤ 4096 →
      ReadAnswered cbs answers requester completer
        (warppipeRead requester index (BitVec.ofNat 64 offset) length (some done))
        cb done (BitVec.ofNat 64 offset) length) ∧
    (∀ addr : BitVec 64, addr.toNat < 2 ^ 32 →
      completer.client.cfg0ReadCb = some cb → addr.toNat % 4 + length ≤ 4096 →
      ReadAnswered cbs answers requester completer
        (warppipeConfig0Read requester addr length (some done)) cb done addr length) := by
  constructor
  · intro index window offset shared registered inside fits
    obtain ⟨address, low⟩ := shared.held.toNat_addr (show offset < window.size by omega)
    have access : Encodable ((requester.client.bar index).setWidth 64 + BitVec.ofNat 64 offset)
        length := ⟨by omega, positive, by omega⟩
    obtain ⟨target, decoded, told⟩ := shared.decodes.barTarget shared.order
      completer.client.barReadCb (address ▸ Nat.le_add_right _ _) (by omega)
    rw [address, Nat.add_sub_cancel_left] at told
    have route : completer.client.readRoute .memory _ = _ := decoded
    rw [registered] at route
    rw [warppipeRead, if_neg (shared.held.registered shared.nonzero)]
    exact readAnswered_of_route valid answersValid requesterSends completerSends
      .memory access short done route told
  · intro addr low registered fits
    have route : completer.client.readRoute .config0 (addr &&& ~~~3) =
        (some cb, addr &&& ~~~3) := by
      rw [Client.readRoute, registered]
    exact readAnswered_of_route valid answersValid requesterSends completerSends .config0
      ⟨low, positive, fits⟩ short done route (aligned_add_misalignment addr)

end

/-! A pair of clients that share BAR 0. -/

def barClient (incoming : Bytes) : World Unit :=
  { clientWith incoming with
    client := (warppipeRegisterBar (clientWith incoming).client 0x1000 256 0 (some 1) (some 2)).2 }

def barWindow : Window := ⟨0x1000, 8, by decide, by decide⟩

theorem sharedBar_barClient (left right : Bytes) :
    SharedBar (barClient left).client (barClient right).client 0 barWindow where
  held := ⟨rfl, rfl⟩
  decodes := ⟨⟨rfl, rfl⟩, fun other before => absurd before (Fin.not_lt_zero other)⟩
  nonzero := by decide
  words := by decide

def wireOf (before : World σ) : Outcome (Int × World σ) → Bytes
  | .ok (_, after) => transferred before after
  | .error _ => []

theorem silent_valid : (silentCallbacks : Callbacks σ).Valid := ⟨nofun, nofun, nofun⟩

theorem write_unaligned_delivered :
    ∃ sent final,
      warppipeWrite (barClient []) (fun _ => 0xff) 0 5 [1, 2, 3] 3 = .ok (0, sent) ∧
      warppipeClientRead silentCallbacks (barClient (transferred (barClient []) sent)) = .ok final ∧
      invocations (barClient (transferred (barClient []) sent)) final =
        [.writeCb 2 5 [1, 2, 3] 3] ∧
      final.client.active = true := by
  have sends (incoming : Bytes) : (barClient incoming).sock.SendsAll := nofun
  obtain ⟨sent, issued, delivered⟩ := (write_reaches_callback silent_valid (barClient [])
    (barClient (wireOf (barClient [])
      (warppipeWrite (barClient []) (fun _ => 0xff) 0 5 [1, 2, 3] 3)))
    (sends _) (sends _) rfl (fun _ => 0xff) 2 [1, 2, 3] (by decide)).1 0 barWindow 5
      (sharedBar_barClient _ _) rfl (by decide) (by decide)
  have wrote : warppipeWrite (barClient []) (fun _ => 0xff) 0 5 [1, 2, 3] 3 =
    .ok (0, sent) := issued
  rw [wrote, wireOf] at delivered
  obtain ⟨final, read, invoked, active, -⟩ := delivered [] [] ⟨(List.append_nil _).symm, rfl⟩
  exact ⟨sent, final, wrote, read, invoked, active⟩

def constantCallbacks (data : Bytes) : Callbacks Unit :=
  { silentCallbacks with read := fun _ app _ _ =>
    { app := app, error := 0, data := data, calls := [] } }

theorem read_unaligned_answered :
    ∃ sent final answered,
      warppipeRead (barClient []) 0 5 3 (some 9) = .ok (0, sent) ∧
      warppipeClientRead (constantCallbacks [7, 8, 9])
        (barClient (transferred (barClient []) sent)) = .ok final ∧
      invocations (barClient (transferred (barClient []) sent)) final =
        [.readCb 1 5 3 0 [7, 8, 9]] ∧
      clientReads silentCallbacks 2
        { sent with sock :=
          ⟨transferred (barClient (transferred (barClient []) sent)) final, [], []⟩ } =
          .ok answered ∧
      invocations sent answered = [.completion 0 9 0 [7, 8, 9] 3] := by
  have sends (incoming : Bytes) : (barClient incoming).sock.SendsAll := nofun
  obtain ⟨sent, issued, served⟩ := (read_returns_data
    (⟨nofun, nofun, nofun⟩ : (constantCallbacks [7, 8, 9]).Valid) silent_valid (sends [])
    (sends (wireOf (barClient []) (warppipeRead (barClient []) 0 5 3 (some 9)))) 1 9 3
    (by decide) (by decide)).1 0 barWindow 5 (sharedBar_barClient _ _) rfl (by decide) (by decide)
  have asked : warppipeRead (barClient []) 0 5 3 (some 9) = .ok (0, sent) := issued
  rw [asked, wireOf] at served
  obtain ⟨final, nested, answer, read, invoked, -, success⟩ :=
    served [] [] ⟨(List.append_nil _).symm, rfl⟩
  obtain ⟨answered, answeredRead, completed, -⟩ := (success rfl).2 rfl
    ⟨transferred (barClient (transferred (barClient []) sent)) final, [], []⟩ [] [] nofun
    (List.append_nil _).symm (streamSchedule_nil _)
  exact ⟨sent, final, answered, asked, read, invoked, answeredRead, completed⟩

end WarpPipe
