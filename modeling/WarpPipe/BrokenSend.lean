import WarpPipe.LinkLayer
import WarpPipe.Registrations

/-!
What the peer sees when `send` takes less than a packet. The client notes the broken connection in
`active`, but neither the requests nor the rest of a handler look at it: the stream stays clean as
long as nothing is sent after the flag is cleared.
-/

namespace WarpPipe

open ByteLayout

variable {σ : Type}

def outputOf (log : List Event) : Bytes := log.flatMap Event.output

def Event.Broken : Event → Prop
  | .sent bytes count => count ≠ bytes.length
  | _ => False

/-- What the peer sees is a prefix of complete packets, and ends with the first broken one. -/
structure CleanStream (log : List Event) : Prop where
  wire : ∃ packets : List Bytes, (∀ packet ∈ packets, WirePacket packet) ∧
  outputOf log <+: packets.flatten
  last : ∀ early event late, log = early ++ event :: late → event.Broken → outputOf late = []

def Sendless (events : List Event) : Prop := ∀ event ∈ events, event.sentPacket? = none

def LastBroken : List Event → Prop
  | [] => True
  | event :: rest => (event.Broken → Sendless rest) ∧ LastBroken rest

theorem Sendless.output {events : List Event} (silent : Sendless events) :
    outputOf events = [] := by
  refine List.flatMap_eq_nil_iff.mpr fun event member => ?_
  have none := silent event member
  cases event with
  | sent bytes count => cases none
  | _ => rfl

theorem LastBroken.output_prefix {log : List Event} (last : LastBroken log) :
    outputOf log <+: (log.filterMap Event.sentPacket?).flatten := by
  induction log with
  | nil => exact List.prefix_rfl
  | cons event rest ih =>
      have later := ih last.2
      cases event with
      | sent bytes count =>
          change bytes.take count.toNat ++ outputOf rest <+:
            bytes ++ (rest.filterMap Event.sentPacket?).flatten
          by_cases full : count = bytes.length
          · rw [full, Int.toNat_natCast, List.take_length]
            exact (List.prefix_append_right_inj bytes).mpr later
          · rw [(last.1 full).output, List.append_nil]
            exact (List.take_prefix _ _).trans (List.prefix_append _ _)
      | _ => exact later

theorem LastBroken.after {early late : List Event} {event : Event}
    (last : LastBroken (early ++ event :: late)) (broken : event.Broken) : outputOf late = [] := by
  induction early with
  | nil => exact (last.1 broken).output
  | cons first rest ih => exact ih last.2

theorem LastBroken.append {log events : List Event} (last : LastBroken log)
    (silent : Sendless events) :
    LastBroken (log ++ events) := by
  induction log with
  | nil =>
      induction events with
      | nil => trivial
      | cons event rest ih =>
          have rests : Sendless rest :=
            fun other member => silent other (List.mem_cons_of_mem _ member)
          exact ⟨fun _ => rests, ih rests⟩
  | cons event rest ih =>
      refine ⟨fun broken other member => ?_, ih last.2⟩
      rcases List.mem_append.mp member with inRest | inEvents
      · exact last.1 broken other inRest
      · exact silent other inEvents

def Uncut (log : List Event) : Prop := ∀ event ∈ log, ¬event.Broken

theorem Uncut.append {log events : List Event} (uncut : Uncut log) (silent : Sendless events) :
    Uncut (log ++ events) := by
  intro event member broken
  rcases List.mem_append.mp member with earlier | fresh
  · exact uncut event earlier broken
  · cases event with
    | sent bytes count => cases silent _ fresh
    | _ => exact broken

theorem Uncut.snoc {log : List Event} (uncut : Uncut log) (event : Event) :
    LastBroken (log ++ [event]) := by
  induction log with
  | nil => exact ⟨fun _ => nofun, trivial⟩
  | cons first rest ih =>
      exact ⟨fun broken => absurd broken (uncut first (by simp)),
        ih fun other member => uncut other (List.mem_cons_of_mem _ member)⟩

/-! The invariant of a client that stops sending when its connection is broken. -/

structure Clean (world : World σ) : Prop where
  wire : ∀ packet ∈ world.log.filterMap Event.sentPacket?, WirePacket packet
  last : LastBroken world.log

theorem Clean.stream {world : World σ} (clean : Clean world) : CleanStream world.log where
  wire := ⟨_, clean.wire, clean.last.output_prefix⟩
  last := by
    intro early event late split broken
    have last := clean.last
    rw [split] at last
    exact last.after broken

theorem Clean.quiet {world next : World σ} (clean : Clean world) (events : List Event)
    (log : next.log = world.log ++ events) (silent : Sendless events) : Clean next := by
  have none : events.filterMap Event.sentPacket? = [] := List.filterMap_eq_nil_iff.mpr silent
  refine ⟨?_, ?_⟩
  · rw [log, List.filterMap_append, none, List.append_nil]
    exact clean.wire
  · rw [log]
    exact clean.last.append silent

theorem sendless_single {event : Event} (unsent : event.sentPacket? = none) : Sendless [event] := by
  intro other member
  rwa [List.mem_singleton.mp member]

section

variable {world : World σ} {packet : Bytes}

theorem Clean.push (clean : Clean world) (uncut : Uncut world.log) (wire : WirePacket packet) :
    Clean (push world packet).2 := by
  refine ⟨?_, ?_⟩
  · rw [push_log, List.filterMap_append]
    intro other member
    rcases List.mem_append.mp member with earlier | fresh
    · exact clean.wire other earlier
    · cases List.mem_singleton.mp fresh
      exact wire
  · rw [push_log]
    exact uncut.snoc _

theorem Uncut.push (uncut : Uncut world.log)
    (whole : (world.sock.send packet).1 = packet.length) : Uncut (push world packet).2.log := by
  rw [push_log]
  intro event member
  rcases List.mem_append.mp member with earlier | fresh
  · exact uncut event earlier
  · rw [List.mem_singleton.mp fresh]
    exact fun broken => broken whole

end

def Socket.SendsNext (sock : Socket) (count : Nat) : Prop :=
  ∀ step ∈ sock.sends.take count, step = .all

theorem Socket.SendsNext.mono {sock : Socket} {count fewer : Nat} (sends : sock.SendsNext count)
    (atMost : fewer ≤ count) : sock.SendsNext fewer :=
  fun step member => sends step ((List.take_subset_take_left _ atMost) member)

theorem Socket.SendsNext.send {sock : Socket} {count : Nat} (sends : sock.SendsNext (count + 1))
    (packet : Bytes) :
    (sock.send packet).1 = packet.length ∧ (sock.send packet).2.SendsNext count := by
  cases schedule : sock.sends with
  | nil =>
      rw [Socket.send, schedule]
      exact ⟨rfl, sends.mono (Nat.le_succ count)⟩
  | cons step rest =>
      have all : step = .all := sends step (by rw [schedule]; simp)
      subst step
      rw [Socket.send, schedule]
      refine ⟨rfl, fun other member => sends other ?_⟩
      rw [schedule, List.take_succ_cons]
      exact List.mem_cons_of_mem _ member

theorem Socket.SendsNext.after {sock : Socket} {count : Nat} (sends : sock.SendsNext count)
    (packet : Bytes) :
    (sock.send packet).2.SendsNext (count - 1) := by
  cases count with
  | zero => exact fun step member => nomatch member
  | succ count => exact (sends.send packet).2

section

variable {world next : World σ}

theorem CallStep.clean (step : CallStep world next) (clean : Clean world)
    (uncut : Uncut world.log) :
    Clean next := by
  cases step with
  | registered client same => exact ⟨clean.wire, clean.last⟩
  | sentWrite tport block =>
      have bumped : Clean (bumpSeqno world) := ⟨clean.wire, clean.last⟩
      exact bumped.push uncut (block.wire_sealTlp _)
  | sentRead tport cb block =>
      have bumped : Clean (bumpSeqno (bumpTag world)) := ⟨clean.wire, clean.last⟩
      have sent := bumped.push uncut (block.wire_sealTlp (world.client.seqno + 1))
      simp only [WarpPipe.sentRead]
      split
      · exact sent
      · exact sent.quiet [.stored world.client.readTag cb] rfl (sendless_single rfl)

theorem CallStep.whole (step : CallStep world next) {count : Nat} (uncut : Uncut world.log)
    (sends : world.sock.SendsNext (count + 1)) : Uncut next.log ∧ next.sock.SendsNext count := by
  cases step with
  | registered client same => exact ⟨uncut, sends.mono (Nat.le_succ count)⟩
  | sentWrite tport block =>
      rw [push_sock]
      exact ⟨Uncut.push uncut (sends.send _).1, (sends.send _).2⟩
  | sentRead tport cb block =>
      have sent : Uncut (push (bumpSeqno (bumpTag world))
          (sealTlp (world.client.seqno + 1) tport)).2.log := Uncut.push uncut (sends.send _).1
      have rest : (push (bumpSeqno (bumpTag world))
          (sealTlp (world.client.seqno + 1) tport)).2.sock.SendsNext count := by
        rw [push_sock]
        exact (sends.send _).2
      simp only [WarpPipe.sentRead]
      split
      · exact ⟨sent, rest⟩
      · exact ⟨sent.append (sendless_single rfl), rest⟩

theorem runCalls_whole {calls : List Call} (ok : runCalls world calls = .ok next)
    (clean : Clean world) (uncut : Uncut world.log) (sends : world.sock.SendsNext calls.length) :
    Clean next ∧ Uncut next.log := by
  induction calls generalizing world with
  | nil =>
      cases ok
      exact ⟨clean, uncut⟩
  | cons call rest ih =>
      simp only [runCalls, bind, Except.bind] at ok
      split at ok
      · cases ok
      · rename_i result ran
        obtain ⟨still, others⟩ := (Call.run_ok ran).whole uncut sends
        exact ih ok ((Call.run_ok ran).clean clean uncut) still others

theorem runCalls_clean {calls : List Call} (ok : runCalls world calls = .ok next)
    (clean : Clean world) (uncut : Uncut world.log)
    (sends : world.sock.SendsNext (calls.length - 1)) : Clean next := by
  induction calls generalizing world with
  | nil =>
      cases ok
      exact clean
  | cons call rest ih =>
      simp only [runCalls, bind, Except.bind] at ok
      split at ok
      · cases ok
      · rename_i result ran
        have first := (Call.run_ok ran).clean clean uncut
        cases rest with
        | nil =>
            cases ok
            exact first
        | cons other more =>
            obtain ⟨still, others⟩ := (Call.run_ok ran).whole uncut sends
            exact ih ok first still others

end

def Call.Sends (client : Client) : Call → Prop
  | .read barIdx .. | .write _ barIdx .. => client.bar barIdx ≠ 0
  | .config0Read .. | .config0Write .. => True
  | _ => False

theorem Clean.silentCall {world : World σ} (clean : Clean world) {call : Call} {rc : Int}
    {next : World σ} (silent : ¬call.Sends world.client) (ok : call.run world = .ok (rc, next)) :
    Clean next := by
  cases call with
  | registerBar bar barSize barIdx readCb writeCb =>
      cases ok
      exact ⟨clean.wire, clean.last⟩
  | registerConfig0ReadCb readCb =>
      cases ok
      exact ⟨clean.wire, clean.last⟩
  | registerConfig0WriteCb writeCb =>
      cases ok
      exact ⟨clean.wire, clean.last⟩
  | read barIdx addr length cb =>
      have unset := Decidable.not_not.mp silent
      simp only [Call.run, warppipeRead, if_pos unset] at ok
      cases ok
      exact clean
  | write junk barIdx addr data length =>
      have unset := Decidable.not_not.mp silent
      simp only [Call.run, warppipeWrite, if_pos unset] at ok
      cases ok
      exact clean
  | config0Read addr length cb => exact absurd trivial silent
  | config0Write junk addr data length => exact absurd trivial silent

def Socket.SendsAck (sock : Socket) : Prop :=
  match sock.sends with
  | [] | .all :: _ => True
  | .short count :: _ => headerSize ≤ count
  | .failed :: _ => False

theorem Socket.SendsAck.send {sock : Socket} (sends : sock.SendsAck) {packet : Bytes}
    (length : packet.length = headerSize) : (sock.send packet).1 = packet.length := by
  simp only [SendsAck] at sends
  simp only [Socket.send]
  split
  · rfl
  · rfl
  · rename_i schedule
    rw [schedule] at sends
    have enough : headerSize ≤ _ := sends
    omega
  · rename_i schedule
    rw [schedule] at sends
    exact sends.elim

section

variable {cbs : Callbacks σ} {world final : World σ}

/-- The calls of `send` that a packet causes, but the last: for the ACK, the requests of the
callback, and the completion of a read. -/
def sendsBeforeLast (client : Client) (pkt : Bytes) (calls : List Call) : Nat :=
  if (readTarget client pkt).1 = none then calls.length else calls.length + 1

theorem Dispatched.clean {pkt : Bytes} (handled : Dispatched cbs world pkt final)
    (clean : Clean world) (uncut : Uncut world.log)
    (sends : ∀ calls app, Invoked cbs world.client.registry pkt world.app calls app →
      world.sock.SendsNext (sendsBeforeLast world.client pkt calls - 1)) : Clean final := by
  have noted {event : Event} (app : σ) (unsent : event.sentPacket? = none) :
      Clean ({ world with app := app }.emit event) ∧
      Uncut ({ world with app := app }.emit event).log :=
    ⟨clean.quiet [event] rfl (sendless_single unsent), uncut.append (sendless_single unsent)⟩
  have fewer (calls : List Call) : calls.length - 1 ≤
      sendsBeforeLast world.client pkt calls - 1 := by
    rw [sendsBeforeLast]
    split <;> omega
  cases handled with
  | ignored => exact clean
  | read cb addr length middle target ran =>
      have next := sends _ _ (.read cb addr length (readTarget_routed target))
      rw [sendsBeforeLast, if_neg (by rw [target]; nofun)] at next
      obtain ⟨still, whole⟩ := runCalls_whole ran (noted _ rfl).1 (noted _ rfl).2 next
      have bumped : Clean (bumpSeqno middle) := ⟨still.wire, still.last⟩
      exact bumped.push whole ((tlpBlock_completionPacket _ _ _).wire_sealTlp _)
  | write cb addr data length final target size ran =>
      have routed := (writeTarget_routed target).imp_right fun config =>
        And.intro (And.intro config.1 size) config.2
      exact runCalls_clean ran (noted _ rfl).1 (noted _ rfl).2
        ((sends _ _ (.write cb addr data length routed)).mono (fewer _))
  | completion tag cb data length middle stored ran =>
      have kept := runCalls_clean ran (noted _ rfl).1 (noted _ rfl).2
        ((sends _ _ (.completion cb data length)).mono (fewer _))
      exact ⟨kept.wire, kept.last⟩

theorem Dispatched.clean_silent {pkt : Bytes} (handled : Dispatched cbs world pkt final)
    (clean : Clean world)
    (silent : ∀ calls app, Invoked cbs world.client.registry pkt world.app calls app → calls = [])
    (unserved : (readTarget world.client pkt).1 = none) : Clean final := by
  have noted {event : Event} (app : σ) (unsent : event.sentPacket? = none) :
      Clean ({ world with app := app }.emit event) :=
        clean.quiet [event] rfl (sendless_single unsent)
  cases handled with
  | ignored => exact clean
  | read cb addr length middle target ran => cases unserved.symm.trans target
  | write cb addr data length final target size ran =>
      have routed := (writeTarget_routed target).imp_right fun config =>
        And.intro (And.intro config.1 size) config.2
      rw [runCalls_quiet (silent _ _ (.write cb addr data length routed)) ran]
      exact noted _ rfl
  | completion tag cb data length middle stored ran =>
      rw [runCalls_quiet (silent _ _ (.completion cb data length)) ran]
      exact ⟨(noted _ rfl).wire, (noted _ rfl).last⟩

theorem Callbacks.Quiet.invoked (quiet : cbs.Quiet) {registry : Registry} {pkt : Bytes}
    {app after : σ} {calls : List Call} (invoked : Invoked cbs registry pkt app calls after) :
    calls = [] := by
  cases invoked with
  | read cb addr length routed => exact quiet.read ..
  | write cb addr data length routed => exact quiet.write ..
  | completion cb data length => exact quiet.completion ..

theorem HeadTlp.readTarget_eq {stream : Bytes} {buf : RecvBuffer} {packet : Bytes}
    (head : HeadTlp stream buf packet) (client : Client) :
    readTarget client (buf.bytes.drop Transport.tTlp) =
      readTarget client (stream.drop Transport.tTlp) := by
  have agree := head.stream.drop Transport.tTlp
  have long := head.complete.long
  have start : Transport.tTlp = 3 := rfl
  have address := tlpReqGetAddr_congr agree (by omega) fun _ => by omega
  simp only [readTarget, tlpTypeOf_congr (agree.mono (by omega)), address]

theorem readTarget_push (world : World σ) (packet pkt : Bytes) :
    readTarget (push world packet).2.client pkt = readTarget world.client pkt := by
  rw [push_client]
  split <;> rfl

def AnswersWhole (cbs : Callbacks σ) (world : World σ) (head : Bytes) : Prop :=
  (∀ calls app, Invoked cbs world.client.registry head world.app calls app →
    world.sock.SendsNext (sendsBeforeLast world.client head calls)) ∨
  cbs.Quiet ∧ (world.sock.SendsAck ∨ (readTarget world.client head).1 = none)

theorem Dispatched.clean_acked {pkt ack : Bytes}
    (handled : Dispatched cbs (push world ack).2 pkt final) (clean : Clean world)
    (uncut : Uncut world.log) (wire : WirePacket ack) (length : ack.length = headerSize)
    (answers : AnswersWhole cbs world pkt) : Clean final := by
  have sent := clean.push uncut wire
  have before {calls : List Call} {app : σ}
      (invoked : Invoked cbs (push world ack).2.client.registry pkt
      (push world ack).2.app calls app) :
        Invoked cbs world.client.registry pkt world.app calls app := by
    rwa [registry_push, push_app] at invoked
  rcases answers with sends | ⟨quiet, ready | unserved⟩
  · by_cases whole : (world.sock.send ack).1 = ack.length
    · refine handled.clean sent (Uncut.push uncut whole) fun calls app invoked => ?_
      rw [push_sock, sendsBeforeLast, readTarget_push]
      exact (sends calls app (before invoked)).after ack
    · -- the ACK was cut, so it was the only thing to send
      have nothing {calls : List Call} {app : σ}
          (invoked : Invoked cbs world.client.registry pkt world.app calls app) :
          sendsBeforeLast world.client pkt calls = 0 := by
        by_contra some
        exact whole (((sends calls app invoked).mono (Nat.one_le_iff_ne_zero.mpr some)).send _).1
      have unserved : (readTarget world.client pkt).1 = none := by
        by_contra found
        obtain ⟨cb, served⟩ := Option.ne_none_iff_exists'.mp found
        have none := nothing (.read cb 0 0 (readTarget_routed served))
        rw [sendsBeforeLast, if_neg found] at none
        cases none
      refine handled.clean_silent sent (fun calls app invoked => ?_)
        (by rw [readTarget_push, unserved])
      have none := nothing (before invoked)
      rw [sendsBeforeLast, if_pos unserved] at none
      exact List.length_eq_zero_iff.mp none
  · refine handled.clean sent (Uncut.push uncut (ready.send length)) fun calls app invoked => ?_
    rw [quiet.invoked invoked, sendsBeforeLast]
    split <;> exact fun step member => nomatch member
  · exact handled.clean_silent sent (fun calls app invoked => quiet.invoked invoked)
      (by rw [readTarget_push, unserved])

theorem AnswersWhole.filled
    (answers : AnswersWhole cbs world (world.sock.incoming.drop Transport.tTlp)) {buf : RecvBuffer}
    {packet : Bytes} (head : HeadTlp world.sock.incoming buf packet) (incoming : Bytes)
    (recvs : List RecvStep) :
    AnswersWhole cbs ((world.refill incoming recvs buf).emit (.packet packet))
      (buf.bytes.drop Transport.tTlp) := by
  have long := head.complete.long
  have start : Transport.tTlp = 3 := rfl
  have agree : AgreeBelow 8 (buf.bytes.drop Transport.tTlp)
      (world.sock.incoming.drop Transport.tTlp) :=
    (head.stream.drop Transport.tTlp).mono (by omega)
  have target : readTarget ((world.refill incoming recvs buf).emit (.packet packet)).client
      (buf.bytes.drop Transport.tTlp) =
        readTarget world.client (world.sock.incoming.drop Transport.tTlp) :=
    head.readTarget_eq world.client
  rw [AnswersWhole, target]
  refine answers.imp_left fun sends calls app invoked => ?_
  rw [sendsBeforeLast, target]
  exact sends calls app (invoked.congr agree)

theorem ReadStep.clean (step : ReadStep cbs world final) (clean : Clean world)
    (uncut : Uncut world.log)
    (answers : AnswersWhole cbs world (world.sock.incoming.drop Transport.tTlp)) : Clean final := by
  have filled (incoming : Bytes) (recvs : List RecvStep) (buf : RecvBuffer) (packet : Bytes) :
      Clean ((world.refill incoming recvs buf).emit (.packet packet)) :=
    clean.quiet [.packet packet] rfl (sendless_single rfl)
  have still (incoming : Bytes) (recvs : List RecvStep) (buf : RecvBuffer) (packet : Bytes) :
      Uncut ((world.refill incoming recvs buf).emit (.packet packet)).log :=
    uncut.append (sendless_single rfl)
  have acked (packet : Bytes) : WirePacket (ackOf packet) :=
    .dllp (ackFor_ackOf packet).complete (ackFor_ackOf packet).crc
  cases step with
  | idle => exact ⟨clean.wire, clean.last⟩
  | dropped => exact ⟨clean.wire, clean.last⟩
  | dllp incoming recvs buf packet note =>
      exact (filled incoming recvs buf packet).quiet [.dllp note] rfl (sendless_single rfl)
  | corrupted incoming recvs buf packet => exact filled incoming recvs buf packet
  | rejected incoming recvs buf packet head =>
      exact (filled incoming recvs buf packet).push (still incoming recvs buf packet) (acked packet)
  | accepted incoming recvs buf packet final handled head =>
      exact handled.clean_acked (filled incoming recvs buf packet) (still incoming recvs buf packet)
        (acked packet) (ackFor_ackOf packet).complete.length (answers.filled head incoming recvs)

theorem ReadStep.clean_silent (step : ReadStep cbs world final) (clean : Clean world)
    (silent : Transport.tProto.get world.sock.incoming ≠ PcieProto.tlp.code) : Clean final := by
  have absent {buf : RecvBuffer} {packet : Bytes} (head : HeadTlp world.sock.incoming buf packet) :
      False := by
    have long := head.complete.long
    apply silent
    rw [← head.stream.get Transport.tProto (Nat.lt_of_lt_of_le (by decide) long),
      head.buffer.get Transport.tProto (Nat.lt_of_lt_of_le (by decide) long), head.complete.proto]
  cases step with
  | idle => exact ⟨clean.wire, clean.last⟩
  | dropped => exact ⟨clean.wire, clean.last⟩
  | dllp incoming recvs buf packet note =>
      exact clean.quiet [.packet packet, .dllp note] (List.append_assoc _ _ _)
        (by simp [Sendless, Event.sentPacket?])
  | corrupted incoming recvs buf packet =>
      exact clean.quiet [.packet packet] rfl (sendless_single rfl)
  | rejected incoming recvs buf packet head => exact (absent head).elim
  | accepted incoming recvs buf packet final served head => exact (absent head).elim

end

/-- The steps that put nothing behind a broken packet: what sends is started only while no `send`
was cut, and what a packet makes the client send goes out whole, but for the last of it. -/
def SafeToSend (cbs : Callbacks σ) (world : World σ) : Action → Prop
  | .call call => Uncut world.log ∨ ¬call.Sends world.client
  | .receive arrived =>
    Transport.tProto.get (world.sock.incoming ++ arrived) ≠ PcieProto.tlp.code ∨
      Uncut world.log ∧
      AnswersWhole cbs world ((world.sock.incoming ++ arrived).drop Transport.tTlp)

theorem Clean.step {cbs : Callbacks σ} {world next : World σ} (clean : Clean world)
    {action : Action} (safe : SafeToSend cbs world action)
    (ok : clientStep cbs world action = .ok next) : Clean next := by
  cases action with
  | call call =>
      rcases safe with uncut | silent
      · exact (clientStep_call ok).clean clean uncut
      · obtain ⟨rc, ran⟩ := clientStep_call_run ok
        exact clean.silentCall silent ran
  | receive arrived =>
      have arrivedClean : Clean (world.arrive arrived) := ⟨clean.wire, clean.last⟩
      rcases safe with silent | ⟨uncut, answers⟩
      · exact (clientRead_ok ok).clean_silent arrivedClean silent
      · exact (clientRead_ok ok).clean arrivedClean uncut answers

/-- In every run whose steps are safe, whatever `send` returns, the peer sees a prefix of complete
packets and nothing behind a broken one. -/
theorem run_stream_clean {cbs : Callbacks σ} (memory : Client) (fd : Int) (sock : Socket) (app : σ)
    {actions : List Action} {world : World σ}
    (safe : Runs.Along (clientStep cbs) (SafeToSend cbs) (createdWorld memory fd sock app) actions)
    (ok : Runs.run (clientStep cbs) (createdWorld memory fd sock app) actions = .ok world) :
    CleanStream world.log := by
  have start : Clean (createdWorld memory fd sock app) := ⟨nofun, trivial⟩
  have clean : Clean world := Runs.run_invariant
    (fun _ _ _ holds guard stepped => Clean.step holds guard stepped) start safe ok
  exact clean.stream

def logAfter (result : Outcome (World σ)) : List Event := ((result.toOption).map World.log).getD []

theorem ok_of_logAfter {result : Outcome (World σ)} (nonempty : logAfter result ≠ []) :
    ∃ world, result = .ok world ∧ world.log = logAfter result := by
  cases result with
  | ok world => exact ⟨world, rfl, rfl⟩
  | error fault => exact absurd rfl nonempty

theorem cut_read_last :
    ∃ world, Runs.run (clientStep silentCallbacks)
        (createdWorld (clientWith []).client 3 ⟨[], [], [.short 3]⟩ ())
        [.call (.config0Read 0 4 none), .receive sampleAck] = .ok world ∧
      CleanStream world.log := by
  have ran : logAfter (Runs.run (clientStep silentCallbacks)
      (createdWorld (clientWith []).client 3 ⟨[], [], [.short 3]⟩ ())
      [.call (.config0Read 0 4 none), .receive sampleAck]) ≠ [] := by decide +kernel
  obtain ⟨world, ok, -⟩ := ok_of_logAfter ran
  refine ⟨world, ok, run_stream_clean _ _ _ _ ?_ ok⟩
  refine ⟨Or.inl (List.forall_mem_nil _), fun next stepped => ⟨Or.inl ?_, fun _ _ => trivial⟩⟩
  rw [(clientStep_call stepped).undisturbed.incoming]
  decide +kernel

theorem WirePacket.tlp_of_agree {stream packet : Bytes} (wire : WirePacket packet)
    (agree : AgreeBelow headerSize stream packet)
    (tlp : Transport.tProto.get stream = PcieProto.tlp.code) :
    pcieLcrc32Valid (packet.drop Transport.tUnion) = true ∧
      (packet.length : Int) = headerSize + tlpTotalLength (stream.drop Transport.tTlp) := by
  have proto : Transport.tProto.get packet = PcieProto.tlp.code := by
    rw [← tlp, agree.get Transport.tProto (by decide)]
  cases wire with
  | tlp complete crc =>
      exact ⟨crc, by rw [complete.length, tlpTotalLength_congr (agree.drop Transport.tTlp)]⟩
  | dllp complete crc =>
      have clash := complete.proto.symm.trans proto
      cases clash

theorem not_prefix_of_packets {stream : Bytes} (length : Nat)
    (tlp : Transport.tProto.get stream = PcieProto.tlp.code)
    (announced : (length : Int) = headerSize + tlpTotalLength (stream.drop Transport.tTlp))
    (whole : headerSize ≤ length ∧ length ≤ stream.length)
    (corrupted : pcieLcrc32Valid ((stream.take length).drop Transport.tUnion) = false) :
    ¬∃ packets : List Bytes, (∀ packet ∈ packets, WirePacket packet) ∧
    stream <+: packets.flatten := by
  rintro ⟨packets, wires, more, joined⟩
  cases packets with
  | nil =>
      have empty := congrArg List.length joined
      simp only [List.length_append, List.flatten_nil, List.length_nil] at empty
      have seven : headerSize = 7 := rfl
      omega
  | cons packet rest =>
      rw [List.flatten_cons] at joined
      have wire := wires packet (by simp)
      have agree : AgreeBelow headerSize stream packet := by
        intro index bound
        have bytes : getByte (stream ++ more) index = getByte (packet ++ rest.flatten) index := by
          rw [joined]
        have long := wire.header
        rwa [getByte_append_left (by omega), getByte_append_left (by omega)] at bytes
      obtain ⟨crc, total⟩ := wire.tlp_of_agree agree tlp
      have same : packet.length = length := by omega
      subst same
      have head := congrArg (List.take packet.length) joined
      rw [List.take_append_of_le_length whole.2, List.take_left] at head
      rw [head, crc] at corrupted
      cases corrupted

def cutReads : Outcome (World Unit) :=
  Runs.run (clientStep silentCallbacks)
    (createdWorld (clientWith []).client 3 ⟨[], [], [.short 18]⟩ ())
    [.call (.config0Read 0 4 none), .call (.config0Read 0 4 none)]

def cutAck : Outcome (World Unit) :=
  Runs.run (clientStep silentCallbacks)
    (createdWorld (clientWith []).client 3 ⟨[], [], [.short 3]⟩ ())
    [.call (.registerConfig0ReadCb (some 0)), .receive sampleRead]

/-- The second request goes out behind the cut one, and the peer cannot make packets of what it
gets; the completion goes out behind the cut ACK. -/
theorem broken_packet_followed :
    (∃ world, cutReads = .ok world ∧
      ¬∃ packets : List Bytes, (∀ packet ∈ packets, WirePacket packet) ∧
        outputOf world.log <+: packets.flatten) ∧
    ∃ world, cutAck = .ok world ∧
      ∃ early event late, world.log = early ++ event :: late ∧ event.Broken ∧
        outputOf late ≠ [] := by
  refine ⟨?_, ?_⟩
  · obtain ⟨world, ran, log⟩ := ok_of_logAfter (show logAfter cutReads ≠ [] by decide +kernel)
    refine ⟨world, ran, ?_⟩
    rw [log]
    exact not_prefix_of_packets 19 (by decide +kernel) (by decide +kernel) (by decide +kernel)
      (by decide +kernel)
  · obtain ⟨world, ran, log⟩ := ok_of_logAfter (show logAfter cutAck ≠ [] by decide +kernel)
    refine ⟨world, ran, [.packet sampleRead], .sent (ackOf sampleRead) 3,
      world.log.drop 2, ?_, ?_, ?_⟩
    · rw [log]
      decide +kernel
    · show (3 : Int) ≠ (ackOf sampleRead).length
      decide +kernel
    · rw [log]
      decide +kernel

end WarpPipe
