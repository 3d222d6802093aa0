import WarpPipe.Segmentation

/-!
One side of a connection on which nothing goes wrong: packets come whole, every `send` works and
callbacks make no requests. Each call of the library is then one turn of the transaction layer,
which takes at most one packet from the peer and puts at most two on the wire.
-/

namespace WarpPipe

open ByteLayout

variable {σ : Type}

inductive Content where
  | ack
  | message (message : Message)
  deriving DecidableEq, Repr

/-- A completion counts its bytes in twelve bits. -/
def Message.Answerable : Message → Prop
  | .read _ _ length _ => length ≤ 4095
  | _ => True

def Content.Is (packet : Bytes) : Content → Prop
  | .ack => CompleteDllp packet
  | .message said => Carries packet said ∧ said.Answerable

structure Parcel where
  bytes : Bytes
  content : Content
  carries : content.Is bytes

def Parcel.readTag? (parcel : Parcel) : Option (Fin 32) :=
  match parcel.content with
  | .message (.read _ _ _ tag) => some tag
  | _ => none

def Parcel.sent (parcel : Parcel) : Event := .sent parcel.bytes parcel.bytes.length

def ackParcel (packet : Bytes) : Parcel := ⟨ackOf packet, .ack, (ackFor_ackOf packet).complete⟩

def messageParcel {packet : Bytes} {message : Message} (carries : Carries packet message)
    (answerable : message.Answerable) : Parcel :=
  ⟨packet, .message message, carries, answerable⟩

structure View (σ : Type) where
  readTag : Fin 32
  completionCb : Fin 32 → Option FnPtr
  app : σ

def World.view (world : World σ) : View σ :=
  ⟨world.client.readTag, world.client.completionCb, world.app⟩

structure Routes where
  active : Bool
  bar : Fin 6 → BitVec 32
  barSize : Fin 6 → BitVec 32
  barReadCb : Fin 6 → Option FnPtr
  barWriteCb : Fin 6 → Option FnPtr
  cfg0ReadCb : Option FnPtr
  cfg0WriteCb : Option FnPtr

def Client.routes (client : Client) : Routes :=
  ⟨client.active, client.bar, client.barSize, client.barReadCb, client.barWriteCb,
    client.cfg0ReadCb, client.cfg0WriteCb⟩

def Unserved (client : Client) : Message → Prop
  | .read space addr _ _ => (client.readRoute space (addr &&& ~~~3)).1 = none
  | .write space addr _ => (client.writeRoute space (addr &&& ~~~3)).1 = none
  | .completion tag _ => client.completionCb tag = none
  | .failure _ => True

/-- The turns of one side: the parcels it takes, what it logs, the parcels it sends, and the view it
ends with. -/
inductive Turn (cbs : Callbacks σ) (world : World σ) :
    List Parcel → List Event → List Parcel → View σ → Prop where
  | idle : Turn cbs world [] [] [] world.view
  | issuedRead (parcel : Parcel) (space : Space) (addr : BitVec 64) (length : Nat) (cb : FnPtr)
      (content : parcel.content = .message (.read space addr length world.client.readTag))
      (free : world.client.completionCb world.client.readTag = none) :
      Turn cbs world [] [parcel.sent, .stored world.client.readTag (some cb)] [parcel]
        { world.view with
          readTag := world.client.readTag + 1
          completionCb := Function.update world.client.completionCb world.client.readTag (some cb) }
  | issuedWrite (parcel : Parcel) (space : Space) (addr : BitVec 64) (data : Bytes)
      (content : parcel.content = .message (.write space addr data)) :
      Turn cbs world [] [parcel.sent] [parcel] world.view
  | acknowledged (parcel : Parcel) (notes : List Event) (content : parcel.content = .ack)
      (kinds : ∀ event ∈ notes, ∃ note, event = .dllp note) :
      Turn cbs world [parcel] (.packet parcel.bytes :: notes) [] world.view
  | passed (parcel : Parcel) (message : Message) (content : parcel.content = .message message)
      (unserved : Unserved world.client message) :
      Turn cbs world [parcel] [.packet parcel.bytes, (ackParcel parcel.bytes).sent]
        [ackParcel parcel.bytes] world.view
  | asked (parcel answer : Parcel) (space : Space) (addr target : BitVec 64) (length : Nat)
      (tag : Fin 32) (cb : FnPtr) (ret : ReadReturn σ)
      (content : parcel.content = .message (.read space addr length tag))
      (route : world.client.readRoute space (addr &&& ~~~3) = (some cb, target))
      (returned : ret = cbs.read cb world.app (target + misalignment addr) length)
      (answered : answer.content = .message (answerOf tag ret.error (fillBuffer length ret.data))) :
      Turn cbs world [parcel]
        [.packet parcel.bytes, (ackParcel parcel.bytes).sent,
          .readCb cb (target + misalignment addr) length ret.error (fillBuffer length ret.data),
          answer.sent]
        [ackParcel parcel.bytes, answer] { world.view with app := ret.app }
  | wrote (parcel : Parcel) (space : Space) (addr target : BitVec 64) (data : Bytes) (cb : FnPtr)
      (content : parcel.content = .message (.write space addr data))
      (route : world.client.writeRoute space (addr &&& ~~~3) = (some cb, target)) :
      Turn cbs world [parcel]
        [.packet parcel.bytes, (ackParcel parcel.bytes).sent,
          .writeCb cb (target + misalignment addr) data data.length]
        [ackParcel parcel.bytes]
        { world.view with
          app := (cbs.write cb world.app (target + misalignment addr) data data.length).app }
  | ended (parcel : Parcel) (tag : Fin 32) (data : Bytes) (cb : FnPtr)
      (content : parcel.content = .message (.completion tag data))
      (stored : world.client.completionCb tag = some cb) :
      Turn cbs world [parcel]
        [.packet parcel.bytes, (ackParcel parcel.bytes).sent, .completion tag cb 0 data data.length]
        [ackParcel parcel.bytes]
        { world.view with
          completionCb := Function.update world.client.completionCb tag none
          app := (cbs.completion cb world.app 0 data data.length).app }

theorem Turn.sent {cbs : Callbacks σ} {world : World σ} {popped pushed : List Parcel}
    {events : List Event} {view : View σ} (turn : Turn cbs world popped events pushed view) :
    events.filterMap Event.sentPacket? = pushed.map Parcel.bytes := by
  cases turn with
  | acknowledged parcel notes content kinds =>
      refine List.filterMap_eq_nil_iff.mpr fun event member => ?_
      rcases List.mem_cons.mp member with rfl | later
      · rfl
      · obtain ⟨note, rfl⟩ := kinds event later
        rfl
  | _ => rfl

theorem Turn.received {cbs : Callbacks σ} {world : World σ} {popped pushed : List Parcel}
    {events : List Event} {view : View σ} (turn : Turn cbs world popped events pushed view) :
    events.filterMap Event.packet? = popped.map Parcel.bytes := by
  cases turn with
  | acknowledged parcel notes content kinds =>
      have none : notes.filterMap Event.packet? = [] := by
        refine List.filterMap_eq_nil_iff.mpr fun event member => ?_
        obtain ⟨note, rfl⟩ := kinds event member
        rfl
      simp [Event.packet?, none]
  | _ => rfl

theorem Turn.output {cbs : Callbacks σ} {world : World σ} {popped pushed : List Parcel}
    {events : List Event} {view : View σ} (turn : Turn cbs world popped events pushed view) :
    events.flatMap Event.output = pushed.flatMap Parcel.bytes := by
  cases turn with
  | acknowledged parcel notes content kinds =>
      refine List.flatMap_eq_nil_iff.mpr fun event member => ?_
      rcases List.mem_cons.mp member with rfl | later
      · rfl
      · obtain ⟨note, rfl⟩ := kinds event later
        rfl
  | _ => simp [Parcel.sent, Event.output]

/-! The turn that a packet leads to. -/

section

variable {cbs : Callbacks σ} {world : World σ} {parcel : Parcel} {pushed : List Parcel}
variable {events : List Event} {view : View σ} (turn : Turn cbs world [parcel] events pushed view)

include turn

theorem Turn.of_ack (content : parcel.content = .ack) :
    view = world.view ∧ pushed = [] ∧
      ∃ notes, events = .packet parcel.bytes :: notes ∧ ∀ event ∈ notes, ∃ note,
        event = .dllp note := by
  cases turn with
  | acknowledged _ notes _ kinds => exact ⟨rfl, rfl, notes, rfl, kinds⟩
  | passed _ _ said => cases content.symm.trans said
  | asked _ _ _ _ _ _ _ _ _ said => cases content.symm.trans said
  | wrote _ _ _ _ _ _ said => cases content.symm.trans said
  | ended _ _ _ _ said => cases content.symm.trans said

theorem Turn.of_read {space : Space} {addr target : BitVec 64} {length : Nat} {tag : Fin 32}
    {cb : FnPtr} (content : parcel.content = .message (.read space addr length tag))
    (route : world.client.readRoute space (addr &&& ~~~3) = (some cb, target)) {ret : ReadReturn σ}
    (returned : cbs.read cb world.app (target + misalignment addr) length = ret) :
    ∃ answer : Parcel, answer.content =
        .message (answerOf tag ret.error (fillBuffer length ret.data)) ∧
      pushed = [ackParcel parcel.bytes, answer] ∧ view = { world.view with app := ret.app } ∧
      events = [.packet parcel.bytes, (ackParcel parcel.bytes).sent,
        .readCb cb (target + misalignment addr) length ret.error (fillBuffer length ret.data),
        answer.sent] := by
  cases turn with
  | acknowledged _ _ said => cases content.symm.trans said
  | passed _ _ said unserved =>
      cases content.symm.trans said
      rw [Unserved, route] at unserved
      cases unserved
  | asked _ answer _ _ _ _ _ _ _ said found result answered =>
      cases content.symm.trans said
      cases route.symm.trans found
      rw [returned] at result
      subst result
      exact ⟨answer, answered, rfl, rfl, rfl⟩
  | wrote _ _ _ _ _ _ said => cases content.symm.trans said
  | ended _ _ _ _ said => cases content.symm.trans said

theorem Turn.of_write {space : Space} {addr target : BitVec 64} {data : Bytes} {cb : FnPtr}
    (content : parcel.content = .message (.write space addr data))
    (route : world.client.writeRoute space (addr &&& ~~~3) = (some cb, target)) :
    pushed = [ackParcel parcel.bytes] ∧
      view = { world.view with
        app := (cbs.write cb world.app (target + misalignment addr) data data.length).app } ∧
      events = [.packet parcel.bytes, (ackParcel parcel.bytes).sent,
        .writeCb cb (target + misalignment addr) data data.length] := by
  cases turn with
  | acknowledged _ _ said => cases content.symm.trans said
  | passed _ _ said unserved =>
      cases content.symm.trans said
      rw [Unserved, route] at unserved
      cases unserved
  | asked _ _ _ _ _ _ _ _ _ said => cases content.symm.trans said
  | wrote _ _ _ _ _ _ said found =>
      cases content.symm.trans said
      cases route.symm.trans found
      exact ⟨rfl, rfl, rfl⟩
  | ended _ _ _ _ said => cases content.symm.trans said

theorem Turn.of_completion {tag : Fin 32} {data : Bytes}
    (content : parcel.content = .message (.completion tag data)) :
    pushed = [ackParcel parcel.bytes] ∧ ∀ tag cb, .stored tag cb ∉ events := by
  cases turn with
  | acknowledged _ _ said => cases content.symm.trans said
  | passed => exact ⟨rfl, by simp [Parcel.sent]⟩
  | asked _ _ _ _ _ _ _ _ _ said => cases content.symm.trans said
  | wrote _ _ _ _ _ _ said => cases content.symm.trans said
  | ended => exact ⟨rfl, by simp [Parcel.sent]⟩

end

theorem Turn.of_idle {cbs : Callbacks σ} {world : World σ} {events : List Event} {view : View σ}
    (turn : Turn cbs world [] events [] view) : events = [] ∧ view = world.view := by
  cases turn with
  | idle => exact ⟨rfl, rfl⟩

theorem Turn.of_request {cbs : Callbacks σ} {world : World σ} {parcel : Parcel}
    {events : List Event} {view : View σ} (turn : Turn cbs world [] events [parcel] view) :
    (parcel.readTag? = none ∧ events = [parcel.sent]) ∨
      ∃ cb, parcel.readTag? = some world.client.readTag ∧
        events = [parcel.sent, .stored world.client.readTag (some cb)] := by
  cases turn with
  | issuedRead _ space addr length cb content =>
      exact Or.inr ⟨cb, by rw [Parcel.readTag?, content], rfl⟩
  | issuedWrite _ space addr data content => exact Or.inl ⟨by rw [Parcel.readTag?, content], rfl⟩

structure Turned (cbs : Callbacks σ) (before after : World σ) (popped pushed : List Parcel) :
    Prop where
  turn : ∃ events, Turn cbs before popped events pushed after.view ∧
  after.log = before.log ++ events
  routes : after.client.routes = before.client.routes
  sends : after.sock.SendsAll
  recvs : after.sock.recvs = []
  incoming : before.sock.incoming = popped.flatMap Parcel.bytes ++ after.sock.incoming

theorem Turned.transferred {cbs : Callbacks σ} {before after : World σ}
    {popped pushed : List Parcel} (turned : Turned cbs before after popped pushed) :
    transferred before after = pushed.flatMap Parcel.bytes := by
  obtain ⟨events, turn, log⟩ := turned.turn
  rw [WarpPipe.transferred, fresh_eq log, turn.output]

structure Relayed (before after : World σ) (popped pushed : List Parcel) : Prop where
  transferred : transferred before after = pushed.flatMap Parcel.bytes
  incoming : before.sock.incoming = popped.flatMap Parcel.bytes ++ after.sock.incoming
  recvs : after.sock.recvs = []
  sends : after.sock.SendsAll

theorem Turned.relayed {cbs : Callbacks σ} {before after : World σ} {popped pushed : List Parcel}
    (turned : Turned cbs before after popped pushed) : Relayed before after popped pushed :=
  ⟨turned.transferred, turned.incoming, turned.recvs, turned.sends⟩

section

variable (cbs : Callbacks σ) {world : World σ} (sends : world.sock.SendsAll)
variable (recvs : world.sock.recvs = [])

include sends recvs

theorem turned_idle : Turned cbs world world [] [] :=
  ⟨⟨[], .idle, (List.append_nil _).symm⟩, rfl, sends, recvs, rfl⟩

theorem readImp_turn (space : Space) {addr : BitVec 64} {length : Nat}
    (access : Encodable addr length) (short : length ≤ 4095)
    (free : world.client.completionCb world.client.readTag = none) (cb : FnPtr) :
    ∃ after parcel, warppipeReadImp world addr length (some cb) space.readRequest = .ok (0, after) ∧
      parcel.content = .message (.read space addr length world.client.readTag) ∧
      Turned cbs world after [] [parcel] := by
  have carries := carries_read space (world.client.seqno + 1) world.client.readTag access
  have pushed := push_all (show (bumpSeqno (bumpTag world)).sock.SendsAll from sends)
    (readPacketOf world space.readRequest addr length)
  have kept := send_incoming world.sock (readPacketOf world space.readRequest addr length)
  rw [warppipeReadImp_eq world space.isRead, afterRead, pushed, if_neg (by simp only; omega)]
  refine ⟨_, messageParcel carries short, rfl, rfl,
    ⟨_, .issuedRead _ space addr length cb rfl free, ?_⟩, rfl,
    (sends.send _).2, kept.2.trans recvs, kept.1.symm⟩
  exact List.append_assoc _ _ _

theorem writeImp_turn (space : Space) (junk : Nat → Byte) {addr : BitVec 64} (data : Bytes)
    {length : Nat} (available : length ≤ data.length) (access : Encodable addr length) :
    ∃ after parcel, warppipeWriteImp world junk addr data length space.writeRequest =
        .ok (0, after) ∧
      parcel.content = .message (.write space addr (data.take length)) ∧
      Turned cbs world after [] [parcel] := by
  have positive := access.positive
  have taken : (data.take length).length = length := by
    rw [List.length_take, Nat.min_eq_left available]
  have carries := carries_write space (world.client.seqno + 1) junk
    (show Encodable addr (data.take length).length by rwa [taken])
  have pushed := push_all (show (bumpSeqno world).sock.SendsAll from sends)
    (sealTlp (world.client.seqno + 1) (writeBlock junk addr (data.take length) space.writeRequest))
  have kept := send_incoming world.sock
    (sealTlp (world.client.seqno + 1) (writeBlock junk addr (data.take length) space.writeRequest))
  have nonempty := carries_positive carries
  rw [warppipeWriteImp_eq world junk space.isWrite addr data length available (by omega),
    afterWrite, pushed, if_pos (by simp only; omega)]
  exact ⟨_, messageParcel carries trivial, rfl, rfl,
    ⟨_, .issuedWrite _ space addr (data.take length) rfl,
    rfl⟩, rfl, (sends.send _).2, kept.2.trans recvs, kept.1.symm⟩

def Request (client : Client) : Call → Prop
  | .read barIdx addr length cb =>
    cb ≠ none ∧ length ≤ 4095 ∧ client.completionCb client.readTag = none ∧
      Encodable ((client.bar barIdx).setWidth 64 + addr) length.toNat
  | .config0Read addr length cb =>
    cb ≠ none ∧ length ≤ 4095 ∧ client.completionCb client.readTag = none ∧
    Encodable addr length.toNat
  | .write _ barIdx addr data length =>
    length ≤ data.length ∧ Encodable ((client.bar barIdx).setWidth 64 + addr) length.toNat
  | .config0Write _ addr data length => length ≤ data.length ∧ Encodable addr length.toNat
  | _ => False

def Call.message? (client : Client) : Call → Option Message
  | .read barIdx addr length _ =>
    if client.bar barIdx = 0 then none
    else some (.read .memory ((client.bar barIdx).setWidth 64 + addr) length.toNat client.readTag)
  | .config0Read addr length _ => some (.read .config0 addr length.toNat client.readTag)
  | .write _ barIdx addr data length =>
    if client.bar barIdx = 0 then none
    else some (.write .memory ((client.bar barIdx).setWidth 64 + addr) (data.take length.toNat))
  | .config0Write _ addr data length => some (.write .config0 addr (data.take length.toNat))
  | _ => none

theorem request_turn {call : Call} (request : Request world.client call) :
    ∃ rc after pushed, call.run world = .ok (rc, after) ∧ Turned cbs world after [] pushed ∧
      pushed.map Parcel.content = (call.message? world.client).toList.map Content.message := by
  cases call with
  | read barIdx addr length cb =>
      obtain ⟨given, short, free, access⟩ := request
      have positive := access.positive
      obtain ⟨cb, rfl⟩ := Option.ne_none_iff_exists'.mp given
      simp only [Call.run, warppipeRead, Call.message?]
      by_cases unset : world.client.bar barIdx = 0
      · rw [if_pos unset, if_pos unset]
        exact ⟨-1, world, [], rfl, turned_idle cbs sends recvs, rfl⟩
      · obtain ⟨after, parcel, ran, content, turned⟩ :=
          readImp_turn cbs sends recvs .memory access (by omega) free cb
        rw [Int.toNat_of_nonneg (by omega)] at ran
        rw [if_neg unset, if_neg unset]
        exact ⟨0, after, [parcel], ran, turned, congrArg (fun said => [said]) content⟩
  | config0Read addr length cb =>
      obtain ⟨given, short, free, access⟩ := request
      have positive := access.positive
      obtain ⟨cb, rfl⟩ := Option.ne_none_iff_exists'.mp given
      obtain ⟨after, parcel, ran, content, turned⟩ :=
        readImp_turn cbs sends recvs .config0 access (by omega) free cb
      rw [Int.toNat_of_nonneg (by omega)] at ran
      exact ⟨0, after, [parcel], ran, turned, congrArg (fun said => [said]) content⟩
  | write junk barIdx addr data length =>
      obtain ⟨available, access⟩ := request
      have positive := access.positive
      simp only [Call.run, warppipeWrite, Call.message?]
      by_cases unset : world.client.bar barIdx = 0
      · rw [if_pos unset, if_pos unset]
        exact ⟨-1, world, [], rfl, turned_idle cbs sends recvs, rfl⟩
      · obtain ⟨after, parcel, ran, content, turned⟩ :=
          writeImp_turn cbs sends recvs .memory junk data (by omega) access
        rw [Int.toNat_of_nonneg (by omega)] at ran
        rw [if_neg unset, if_neg unset]
        exact ⟨0, after, [parcel], ran, turned, congrArg (fun said => [said]) content⟩
  | config0Write junk addr data length =>
      obtain ⟨available, access⟩ := request
      have positive := access.positive
      obtain ⟨after, parcel, ran, content, turned⟩ :=
        writeImp_turn cbs sends recvs .config0 junk data (by omega) access
      rw [Int.toNat_of_nonneg (by omega)] at ran
      exact ⟨0, after, [parcel], ran, turned, congrArg (fun said => [said]) content⟩
  | registerBar => exact request.elim
  | registerConfig0ReadCb => exact request.elim
  | registerConfig0WriteCb => exact request.elim

end

def Callbacks.Calm (cbs : Callbacks σ) (client : Client) : Content → Prop
  | .message (.read space addr _ _) => ∀ cb, (client.readRoute space (addr &&& ~~~3)).1 = some cb →
    ∀ app offset length, (cbs.read cb app offset length).calls = []
  | .message (.write space addr _) => ∀ cb, (client.writeRoute space (addr &&& ~~~3)).1 = some cb →
    ∀ app offset data length, (cbs.write cb app offset data length).calls = []
  | .message (.completion tag _) => ∀ cb, client.completionCb tag = some cb →
    ∀ app code data length, (cbs.completion cb app code data length).calls = []
  | _ => True

theorem Callbacks.Quiet.calm {cbs : Callbacks σ} (quiet : cbs.Quiet) (client : Client)
    (content : Content) : cbs.Calm client content := by
  match content with
  | .ack => trivial
  | .message (.read ..) => exact fun cb _ => quiet.read cb
  | .message (.write ..) => exact fun cb _ => quiet.write cb
  | .message (.completion ..) => exact fun cb _ => quiet.completion cb
  | .message (.failure _) => trivial

theorem readRoute_congr {left right : Client} (same : left.routes = right.routes) (space : Space)
    (addr : BitVec 64) : left.readRoute space addr = right.readRoute space addr := by
  simp only [Client.routes, Routes.mk.injEq] at same
  obtain ⟨-, bar, size, read, -, config, -⟩ := same
  simp only [Client.readRoute, barTarget, getBarIdx, bar, size, read, config]

theorem writeRoute_congr {left right : Client} (same : left.routes = right.routes) (space : Space)
    (addr : BitVec 64) : left.writeRoute space addr = right.writeRoute space addr := by
  simp only [Client.routes, Routes.mk.injEq] at same
  obtain ⟨-, bar, size, -, write, -, config⟩ := same
  simp only [Client.writeRoute, barTarget, getBarIdx, bar, size, write, config]

theorem serve_unserved (cbs : Callbacks σ) {world : World σ} (pkt : Bytes) {message : Message}
    (unserved : Unserved world.client message) : serve cbs world pkt message = .ok world := by
  cases message with
  | read space addr length tag =>
      simp only [serve]
      split
      · rfl
      · rename_i routed
        rw [Unserved, routed] at unserved
        cases unserved
  | write space addr data =>
      simp only [serve]
      split
      · rfl
      · rename_i routed
        rw [Unserved, routed] at unserved
        cases unserved
  | completion tag data =>
      simp only [serve, show world.client.completionCb tag = none from unserved]
  | failure tag => rfl

section

variable {cbs : Callbacks σ} {world : World σ} {parcel : Parcel} {rest : Bytes}
variable (sends : world.sock.SendsAll) (next : Next world.sock parcel.bytes rest [])

include sends next

theorem acknowledged_turn (content : parcel.content = .ack) :
    ∃ after, warppipeClientRead cbs world = .ok after ∧ Turned cbs world after [parcel] [] := by
  have complete := parcel.carries
  rw [content] at complete
  obtain ⟨final, notes, read, log, kinds, client, sock, app⟩ := clientRead_ack cbs complete next
  have view : final.view = world.view := by simp only [World.view, client, app]
  refine ⟨final, read, ⟨_, view ▸ .acknowledged parcel notes content kinds, log⟩, ?_, ?_, ?_, ?_⟩
  · rw [client]
    rfl
  · rw [sock]
    exact sends
  · rw [sock]
  · rw [sock, next.stream, List.flatMap_singleton]

theorem passed_turn {message : Message} (content : parcel.content = .message message)
    (unserved : Unserved world.client message) :
    ∃ after, warppipeClientRead cbs world = .ok after ∧
      Turned cbs world after [parcel] [ackParcel parcel.bytes] := by
  have said := parcel.carries
  rw [content] at said
  obtain ⟨pkt, -, read⟩ := clientRead_serve cbs (said.1.arrives next) said.1
  obtain ⟨sock, incoming, schedule, still, acked⟩ := acked_all sends parcel.bytes rest []
  have ignored : Unserved (world.acked parcel.bytes rest []).client message := by
    rw [acked]
    cases message with
    | read space addr length tag =>
        exact (congrArg Prod.fst (readRoute_congr rfl space _)).trans unserved
    | write space addr data =>
        exact (congrArg Prod.fst (writeRoute_congr rfl space _)).trans unserved
    | completion tag data => exact unserved
    | failure tag => trivial
  rw [serve_unserved cbs pkt ignored, acked] at read
  refine ⟨_, read, ⟨_, .passed parcel message content unserved, rfl⟩, rfl, still, schedule, ?_⟩
  rw [incoming, next.stream, List.flatMap_singleton]

theorem asked_turn {space : Space} {addr target : BitVec 64} {length : Nat}
    {tag : Fin 32} {cb : FnPtr} (content : parcel.content = .message (.read space addr length tag))
    (route : world.client.readRoute space (addr &&& ~~~3) = (some cb, target))
    (silent : ∀ app offset length, (cbs.read cb app offset length).calls = []) :
    ∃ after answer, warppipeClientRead cbs world = .ok after ∧
      Turned cbs world after [parcel] [ackParcel parcel.bytes, answer] := by
  have said := parcel.carries
  rw [content] at said
  obtain ⟨carries, short⟩ := said
  obtain ⟨sock, incoming, schedule, still, acked⟩ := acked_all sends parcel.bytes rest []
  have routed : (world.acked parcel.bytes rest []).client.readRoute space (addr &&& ~~~3) =
      (some cb, target) := by
    rw [acked, ← route]
    exact readRoute_congr rfl space _
  obtain ⟨tport, block, answers, read⟩ := clientRead_read cbs carries next routed fun _ => short
  rw [silent, runCalls] at read
  rw [acked] at read answers
  have answer := answers (world.client.seqno + 1)
  have answerable : (answerOf tag (cbs.read cb world.app (target + misalignment addr) length).error
      (fillBuffer length
        (cbs.read cb world.app (target + misalignment addr) length).data)).Answerable := by
    rw [answerOf]
    split <;> trivial
  have live : (bumpSeqno (askedRead cbs
      { client := { world.client with buf := world.client.buf.store 0 parcel.bytes }
        sock := sock
        app := world.app
        log := world.log ++ [.packet parcel.bytes,
          .sent (ackOf parcel.bytes) (ackOf parcel.bytes).length] }
      cb (target + misalignment addr) length)).sock.SendsAll := still
  have kept := send_incoming sock (sealTlp (world.client.seqno + 1) tport)
  refine ⟨_, messageParcel answer answerable, read, ?_⟩
  change Turned cbs world (push _ (sealTlp (world.client.seqno + 1) tport)).2 _ _
  rw [push_all live]
  refine ⟨⟨_, .asked parcel _ space addr target length tag cb _ content route rfl rfl, ?_⟩, rfl,
    (still.send _).2, kept.2.trans schedule, ?_⟩
  · simp [World.emit, askedRead, bumpSeqno, messageParcel, ackParcel, Parcel.sent]
  · rw [next.stream, List.flatMap_singleton]
    exact congrArg _ (kept.1.trans incoming).symm

theorem wrote_turn {space : Space} {addr target : BitVec 64} {data : Bytes}
    {cb : FnPtr} (content : parcel.content = .message (.write space addr data))
    (route : world.client.writeRoute space (addr &&& ~~~3) = (some cb, target))
    (silent : ∀ app offset data length, (cbs.write cb app offset data length).calls = []) :
    ∃ after, warppipeClientRead cbs world = .ok after ∧
      Turned cbs world after [parcel] [ackParcel parcel.bytes] := by
  have said := parcel.carries
  rw [content] at said
  obtain ⟨pkt, -, read⟩ := clientRead_serve cbs (said.1.arrives next) said.1
  obtain ⟨sock, incoming, schedule, still, acked⟩ := acked_all sends parcel.bytes rest []
  have routed : (world.acked parcel.bytes rest []).client.writeRoute space (addr &&& ~~~3) =
      (some cb, target) := by
    rw [acked, ← route]
    exact writeRoute_congr rfl space _
  simp only [serve, routed, invokeWrite, silent, runCalls] at read
  rw [acked] at read
  refine ⟨_, read, ⟨_, .wrote parcel space addr target data cb content route, ?_⟩, rfl,
    still, schedule, ?_⟩
  · exact List.append_assoc _ _ _
  · rw [next.stream, List.flatMap_singleton]
    exact congrArg _ incoming.symm

theorem ended_turn {tag : Fin 32} {data : Bytes} {cb : FnPtr}
    (content : parcel.content = .message (.completion tag data))
    (stored : world.client.completionCb tag = some cb)
    (silent : ∀ app code data length, (cbs.completion cb app code data length).calls = []) :
    ∃ after, warppipeClientRead cbs world = .ok after ∧
      Turned cbs world after [parcel] [ackParcel parcel.bytes] := by
  have said := parcel.carries
  rw [content] at said
  obtain ⟨sock, incoming, schedule, still, acked⟩ := acked_all sends parcel.bytes rest []
  have held : (world.acked parcel.bytes rest []).client.completionCb tag = some cb := by
    rw [acked]
    exact stored
  have read := clientRead_completion cbs said.1 next held
  rw [invokeCompletion, silent, runCalls, acked] at read
  refine ⟨_, read, ⟨_, .ended parcel tag data cb content stored, ?_⟩, rfl, still, schedule, ?_⟩
  · exact List.append_assoc _ _ _
  · rw [next.stream, List.flatMap_singleton]
    exact congrArg _ incoming.symm

/-- Every packet that a peer sends in its turns is a turn of the client that receives it. -/
theorem read_turn (calm : cbs.Calm world.client parcel.content) :
    ∃ after pushed, warppipeClientRead cbs world = .ok after ∧
      Turned cbs world after [parcel] pushed := by
  cases content : parcel.content with
  | ack =>
      obtain ⟨after, read, turned⟩ := acknowledged_turn sends next content
      exact ⟨after, _, read, turned⟩
  | message message =>
      rw [content] at calm
      by_cases unserved : Unserved world.client message
      · obtain ⟨after, read, turned⟩ := passed_turn sends next content unserved
        exact ⟨after, _, read, turned⟩
      · cases message with
        | read space addr length tag =>
            obtain ⟨cb, found⟩ := Option.ne_none_iff_exists'.mp unserved
            obtain ⟨after, answer, read, turned⟩ :=
              asked_turn sends next content (Prod.ext found rfl) (calm cb found)
            exact ⟨after, _, read, turned⟩
        | write space addr data =>
            obtain ⟨cb, found⟩ := Option.ne_none_iff_exists'.mp unserved
            obtain ⟨after, read, turned⟩ := wrote_turn sends next content (Prod.ext found rfl)
              (calm cb found)
            exact ⟨after, _, read, turned⟩
        | completion tag data =>
            obtain ⟨cb, stored⟩ := Option.ne_none_iff_exists'.mp unserved
            obtain ⟨after, read, turned⟩ := ended_turn sends next content stored (calm cb stored)
            exact ⟨after, _, read, turned⟩
        | failure tag => exact absurd trivial unserved

end

theorem waiting_turn (cbs : Callbacks σ) {world : World σ} (sends : world.sock.SendsAll)
    (recvs : world.sock.recvs = []) (empty : world.sock.incoming = []) :
    ∃ after, warppipeClientRead cbs world = .ok after ∧ Turned cbs world after [] [] := by
  refine ⟨world, clientRead_idle cbs empty recvs, ?_⟩
  exact ⟨⟨[], .idle, (List.append_nil _).symm⟩, rfl, sends, recvs, rfl⟩

end WarpPipe
