import WarpPipe.MemoryRuns

/-!
The whole stack with the memory mock behind it refines two plain byte arrays.
-/

namespace WarpPipe

open ByteLayout Exchange

variable {α : Type}

def Exchanged (system : System (MockApp α)) (queues : Queues) : Prop :=
  ∃ state reads, Exchange.Sound state ∧ state.dropped = [] ∧
    Tracks (system .left) (system .right) (queues .right) (queues .left) state reads

structure Synced (windows : MockBar → Window) (origin : MockMemory) (session : Session α)
    (queues : Queues) : Prop where
  linked : Linked session.system queues
  exchanged : Exchanged session.system queues
  wired : Wired (session.system .left).client (session.system .right).client windows
  memory : ∃ done, (session.system .right).app = origin.after done ∧
    Pending windows session.promised session.writes (receivedCount (session.system .right).log) done
      (queues .right)
  replies : ∀ parcel ∈ queues .left, parcel.content = .ack ∨
    ∃ tag data, parcel.content = .message (.completion tag data)
  promises : Promises origin (session.system .left).log (session.system .right).log session.promised

section

variable {host : Callbacks α} {config : Callbacks MockMemory} {windows : MockBar → Window}
variable {origin : MockMemory} {session : Session α} {queues : Queues} {after : System (MockApp α)}
variable {popped rest pushed : List Parcel}

theorem Exchanged.moved {mover : Side} (exchanged : Exchanged session.system queues)
    (move : Move (mockSides host config) mover session.system after popped pushed)
    (taken : queues mover = popped ++ rest) (kept : mover = .left ∨ Lossless popped pushed) :
    Exchanged after (queues.moved mover rest pushed) := by
  obtain ⟨state, reads, sound, complete, tracks⟩ := exchanged
  have tracked : Tracks (session.system .left) (session.system Side.left.peer)
    (queues Side.left.peer) (queues .left) state reads := tracks
  obtain ⟨next, longer, step, same, moved⟩ := move.tracks taken sound tracked
  refine ⟨next, longer, ?_, (same kept).trans complete, moved⟩
  rcases step with rfl | step
  · exact sound
  · exact sound.step step

theorem Synced.hostMoved (synced : Synced windows origin session queues)
    (move : Move (mockSides host config) .left session.system after popped pushed)
    (linked : Linked after (queues.moved .left rest pushed)) (taken : queues .left = popped ++ rest)
    {writes : List (Nat × Bytes)} {promised : List Promise} (kept : session.promised ⊆ promised)
    (more : Pending windows promised writes (sentCount (session.system .left).log)
      session.writes pushed)
    (promises : Promises origin (after .left).log (session.system .right).log promised) :
    Synced windows origin ⟨after, writes, promised⟩ (queues.moved .left rest pushed) := by
  obtain ⟨client, app, log⟩ := move.peer
  have others : queues.moved .left rest pushed .right = queues .right ++ pushed :=
    queues.moved_peer .left rest pushed
  obtain ⟨done, memory, pending⟩ := synced.memory
  obtain ⟨state, reads, -, -, tracks⟩ := synced.exchanged
  refine ⟨linked, synced.exchanged.moved move taken (Or.inl rfl), ?_,
    ⟨done, app.trans memory, ?_⟩, ?_, ?_⟩
  · exact synced.wired.congr move.routes (congrArg Client.routes client)
  · rw [others, show (after .right).log = (session.system .right).log from log]
    -- what the host sends next follows the packets that wait for the device
    refine (pending.mono kept).append ?_
    rwa [← tracks.balance]
  · intro parcel member
    rw [Queues.moved_self] at member
    exact synced.replies parcel (taken ▸ List.mem_append_right _ member)
  · rwa [show (after .right).log = (session.system .right).log from log]

theorem Synced.deviceMoved (synced : Synced windows origin session queues)
    (move : Move (mockSides host config) .right session.system after popped pushed)
    (linked : Linked after (queues.moved .right rest pushed))
    (taken : queues .right = popped ++ rest) {events : List Event}
    (log : (after .right).log = (session.system .right).log ++ events)
    (received : events.filterMap Event.packet? = popped.map Parcel.bytes)
    (handled : Handled windows origin session.promised session.writes
      (receivedCount (session.system .right).log) popped rest pushed events (after .right).app) :
    Synced windows origin { session with system := after } (queues.moved .right rest pushed) := by
  obtain ⟨client, -, hostLog⟩ := move.peer
  have others : queues.moved .right rest pushed .left = queues .left ++ pushed :=
    queues.moved_peer .right rest pushed
  obtain ⟨done, memory, pending⟩ := handled.memory
  have counted : receivedCount (after .right).log =
      receivedCount (session.system .right).log + popped.length := by
    rw [log, receivedCount_append, receivedCount, receivedCount, received, List.length_map]
  refine ⟨linked, synced.exchanged.moved move taken (Or.inr handled.lossless), ?_,
    ⟨done, memory, ?_⟩, ?_, ?_⟩
  · exact synced.wired.congr (congrArg Client.routes client) move.routes
  · rw [Queues.moved_self, counted]
    exact pending
  · intro parcel member
    rw [others] at member
    exact (List.mem_append.mp member).elim (synced.replies parcel) (handled.replies parcel)
  · rw [show (after .left).log = (session.system .left).log from hostLog, log]
    exact synced.promises.deviceGrows handled.serves

theorem singleton_of_map {parcels : List Parcel} {content : Content}
    (contents : parcels.map Parcel.content = [content]) :
    ∃ parcel, parcels = [parcel] ∧ parcel.content = content :=
  List.map_eq_singleton_iff.mp contents

theorem sessionStep_ok {access : Access}
    (ok : systemStep (mockSides host config) session.system access.action = .ok after) :
    sessionStep host config session access = .ok { session.noted access with system := after } := by
  rw [sessionStep, ok]
  rfl

theorem Synced.write (synced : Synced windows origin session queues) (junk : Nat → Byte)
    {offset : Nat} {data : Bytes} (positive : 1 ≤ data.length)
    (inside : offset + data.length ≤ MockBar.bar1.size) :
    ∃ next later, sessionStep host config session (.write junk offset data) = .ok next ∧
      Synced windows origin next later := by
  obtain ⟨address, access⟩ := synced.wired.address .bar1 positive inside
  have request : Request (session.system .left).client
      (.write junk 1 (BitVec.ofNat 64 offset) data data.length) := ⟨Int.le_refl _, access⟩
  obtain ⟨after, pushed, ok, contents, move, linked⟩ := synced.linked.request request
  have unset : (session.system .left).client.bar 1 ≠ 0 :=
    (synced.wired.hostHolds .bar1).registered (synced.wired.base .bar1)
  rw [Call.message?, if_neg unset, Int.toNat_natCast, List.take_length] at contents
  obtain ⟨parcel, rfl, content⟩ := singleton_of_map contents
  obtain ⟨events, turn, log⟩ := move.turn
  rcases turn.of_request with ⟨-, rfl⟩ | ⟨cb, asks, -⟩
  · refine ⟨_, _, sessionStep_ok ok,
      synced.hostMoved move linked rfl (List.Subset.refl _) ?_ ?_⟩
    · exact .write content address positive inside (.nil _)
    · rw [log]
      exact synced.promises.hostGrows (by simp [Parcel.sent])
  · rw [Parcel.readTag?, content] at asks
    cases asks

theorem Synced.read (synced : Synced windows origin session queues) {bar : MockBar}
    {offset length : Nat} (cb : FnPtr) (positive : 1 ≤ length) (inside : offset + length ≤ bar.size)
    (free : (session.system .left).client.completionCb
      (session.system .left).client.readTag = none) :
    ∃ next later, sessionStep host config session (.read bar offset length cb) = .ok next ∧
      Synced windows origin next later := by
  obtain ⟨address, access⟩ := synced.wired.address bar positive inside
  have small := bar.size_le
  have request : Request (session.system .left).client
      (.read bar.index (BitVec.ofNat 64 offset) length (some cb)) :=
    ⟨nofun, by omega, free, access⟩
  obtain ⟨after, pushed, ok, contents, move, linked⟩ := synced.linked.request request
  have unset := (synced.wired.hostHolds bar).registered (synced.wired.base bar)
  rw [Call.message?, if_neg unset, Int.toNat_natCast] at contents
  obtain ⟨parcel, rfl, content⟩ := singleton_of_map contents
  obtain ⟨events, turn, log⟩ := move.turn
  rcases turn.of_request with ⟨asks, -⟩ | ⟨stored, -, rfl⟩
  · rw [Parcel.readTag?, content] at asks
    cases asks
  · refine ⟨_, _, sessionStep_ok ok,
      synced.hostMoved move linked rfl (List.subset_append_left _ _) ?_ ?_⟩
    · exact .read ⟨_, _, session.writes, bar, offset, length⟩
        (List.mem_append_right _ (List.mem_singleton.mpr rfl)) rfl content address positive
          inside (.nil _)
    · rw [log]
      exact synced.promises.issue rfl rfl

theorem Synced.hostProcessed (synced : Synced windows origin session queues)
    (move : Move (mockSides host config) .left session.system after ((queues .left).take 1) pushed)
    (linked : Linked after (queues.moved .left ((queues .left).drop 1) pushed))
    (idle : queues .left = [] → pushed = []) :
    Synced windows origin { session with system := after }
      (queues.moved .left ((queues .left).drop 1) pushed) := by
  obtain ⟨events, turn, log⟩ := move.turn
  have quiet : (∀ parcel ∈ pushed, parcel.content = .ack) ∧ ∀ tag cb, .stored tag cb ∉ events := by
    cases waiting : queues .left with
    | nil =>
        rw [waiting] at turn
        rw [idle waiting] at turn ⊢
        obtain ⟨rfl, -⟩ := turn.of_idle
        exact ⟨nofun, nofun⟩
    | cons parcel rest =>
        rw [waiting] at turn
        rcases synced.replies parcel (by simp [waiting]) with content | ⟨tag, data, content⟩
        · obtain ⟨-, rfl, notes, rfl, kinds⟩ := turn.of_ack content
          refine ⟨nofun, fun tag cb member => ?_⟩
          rcases List.mem_cons.mp member with clash | later
          · cases clash
          · obtain ⟨note, clash⟩ := kinds _ later
            cases clash
        · obtain ⟨rfl, plain⟩ := turn.of_completion content
          exact ⟨by simp [ackParcel], plain⟩
  refine synced.hostMoved move linked (List.take_append_drop 1 _).symm (List.Subset.refl _)
    (pending_acks _ quiet.1) ?_
  rw [log]
  exact synced.promises.hostGrows quiet.2

theorem Synced.deviceProcessed (synced : Synced windows origin session queues)
    (move : Move (mockSides host config) .right session.system after
      ((queues .right).take 1) pushed)
    (linked : Linked after (queues.moved .right ((queues .right).drop 1) pushed))
    (idle : queues .right = [] → pushed = []) :
    Synced windows origin { session with system := after }
      (queues.moved .right ((queues .right).drop 1) pushed) := by
  obtain ⟨events, turn, log⟩ := move.turn
  obtain ⟨done, memory, pending⟩ := synced.memory
  refine synced.deviceMoved move linked (List.take_append_drop 1 _).symm log turn.received ?_
  cases waiting : queues .right with
  | nil =>
      rw [waiting] at turn pending
      rw [idle waiting] at turn ⊢
      obtain ⟨rfl, same⟩ := turn.of_idle
      have kept : (after .right).app = (session.system .right).app := congrArg View.app same
      exact ⟨⟨done, kept.trans memory, pending⟩, serves_nothing _ nofun, nofun, nofun⟩
  | cons parcel rest =>
      rw [waiting] at turn pending
      exact pending.handled turn synced.wired memory

def Callbacks.QuietCompletions (cbs : Callbacks α) : Prop :=
  ∀ cb app code data length, (cbs.completion cb app code data length).calls = []

theorem Synced.process (quiet : host.QuietCompletions)
    (synced : Synced windows origin session queues) (side : Side) :
    ∃ after later, sessionStep host config session (.process side) =
        .ok { session with system := after } ∧
      Synced windows origin { session with system := after } later ∧
      (queues side ≠ [] → later.work < queues.work) ∧ (queues side = [] → later = queues) := by
  have calm : ∀ parcel ∈ (queues side).head?,
      (mockSides host config side).Calm (session.system side).client parcel.content := by
    cases side with
    | left =>
        intro parcel first
        rcases synced.replies parcel (List.mem_of_mem_head? first) with content |
          ⟨tag, data, content⟩
        · rw [content]
          trivial
        · rw [content]
          exact fun cb _ => quiet cb
    | right =>
        obtain ⟨done, -, pending⟩ := synced.memory
        exact pending.calm synced.wired
  obtain ⟨after, pushed, ok, move, linked, idle⟩ := synced.linked.process side calm
  have taken : queues side = (queues side).take 1 ++ (queues side).drop 1 :=
    (List.take_append_drop 1 _).symm
  refine ⟨after, queues.moved side ((queues side).drop 1) pushed, sessionStep_ok ok, ?_,
    fun waiting => ?_, fun empty => ?_⟩
  · cases side with
    | left => exact synced.hostProcessed move linked idle
    | right => exact synced.deviceProcessed move linked idle
  · exact move.work_lt taken fun none => waiting (by simpa using none)
  · have same := queues.moved_idle side
    rw [empty] at same
    rw [idle empty, empty, List.drop_nil, same]

theorem Synced.step (quiet : host.QuietCompletions) (synced : Synced windows origin session queues)
    {access : Access} (allowed : Allowed session access) :
    ∃ next later, sessionStep host config session access = .ok next ∧
      Synced windows origin next later := by
  cases access with
  | write junk offset data => exact synced.write junk allowed.1 allowed.2
  | read bar offset length cb => exact synced.read cb allowed.1 allowed.2.1 allowed.2.2
  | process side =>
      obtain ⟨after, later, ok, still, -⟩ := synced.process quiet side
      exact ⟨_, later, ok, still⟩

end

def Promise.Completed (promise : Promise) (origin : MockMemory) (host : List Event) (done : Nat) :
    Prop :=
  ∃ tag cb, host[promise.issued]? = some (.stored tag (some cb)) ∧ promise.issued < done ∧
    host[done]? = some (.completion tag cb 0 (promise.data origin) promise.length)

/-- The device has carried out the first writes of the host and nothing else. Every invocation of a
completion callback ends a read of its own, as promised. -/
structure Refines (origin : MockMemory) (session : Session α) (reads : List Read) : Prop where
  bar0 : (session.system .right).app.bar0 = origin.bar0
  memory : ∃ done, done <+: session.writes ∧ (session.system .right).app = origin.after done
  once : (reads.map Read.issued).Nodup
  promised : ∀ read ∈ reads, ∃ promise ∈ session.promised, promise.issued = read.issued ∧
    promise.Completed origin (session.system .left).log read.done
  covered : ∀ (done : Nat) (tag : Fin 32) (cb : FnPtr) (code : Int) (data : Bytes) (length : Int),
    (session.system .left).log[done]? = some (.completion tag cb code data length) →
      ∃ read ∈ reads, read.done = done

structure Drained (origin : MockMemory) (session : Session α) (reads : List Read) : Prop where
  memory : (session.system .right).app = origin.after session.writes
  completed : ∀ promise ∈ session.promised, ∃ read ∈ reads, read.issued = promise.issued ∧
    promise.Completed origin (session.system .left).log read.done

theorem Promises.unique {origin : MockMemory} {host device : List Event} {promised : List Promise}
    (promises : Promises origin host device promised) {left right : Promise}
    (first : left ∈ promised) (second : right ∈ promised) (same : left.packet = right.packet) :
    left = right :=
  List.inj_on_of_nodup_map promises.distinct first second same

theorem Promises.completed {origin : MockMemory} {host device : List Event}
    {promised : List Promise} (promises : Promises origin host device promised) {read : Read}
    (ends : Ends host device read) :
    ∃ promise ∈ promised, promise.issued = read.issued ∧
      promise.Completed origin host read.done := by
  obtain ⟨tag, cb, peerCb, addr, data, stored, ran, position, order, done⟩ := ends
  obtain ⟨promise, member, issued⟩ := promises.listed read.issued tag cb stored
  obtain ⟨-, -, -, number⟩ := promises.placed promise member
  obtain ⟨other, known, packet, rfl⟩ := promises.served read.asked peerCb addr _ 0 data ran
  rw [issued] at number
  -- the promise of the host and the one the device served have the same packet
  obtain rfl := promises.unique member known (number.symm.trans (position.symm.trans packet.symm))
  refine ⟨promise, member, issued, tag, cb, ?_, ?_, ?_⟩
  · rwa [issued]
  · rwa [issued]
  · rwa [Promise.data, MockMemory.length_read] at done

section

variable {windows : MockBar → Window} {origin : MockMemory} {session : Session α} {queues : Queues}

theorem Synced.refines (synced : Synced windows origin session queues) :
    ∃ reads, Refines origin session reads ∧
      ((∀ side, queues side = []) → Drained origin session reads) := by
  obtain ⟨done, memory, pending⟩ := synced.memory
  obtain ⟨state, reads, sound, complete, tracks⟩ := synced.exchanged
  refine ⟨reads,
    ⟨?_, ⟨done, pending.isPrefix, memory⟩, tracks.finished_eq ▸ sound.once, fun read member => ?_,
    tracks.covered⟩, fun empty => ⟨?_, fun promise member => ?_⟩⟩
  · rw [memory, MockMemory.after_bar0]
  · exact synced.promises.completed (tracks.ended read member)
  · rw [empty .right] at pending
    cases pending
    exact memory
  · obtain ⟨tag, cb, stored, number⟩ := synced.promises.placed promise member
    rw [empty .left, empty .right] at tracks
    obtain ⟨read, among, same⟩ := tracks.ended_of_idle sound complete stored
    obtain ⟨other, known, issued, completed⟩ := synced.promises.completed (tracks.ended read among)
    obtain ⟨-, -, -, otherNumber⟩ := synced.promises.placed other known
    rw [issued, same, number] at otherNumber
    obtain rfl := synced.promises.unique member known otherNumber
    exact ⟨read, among, same, completed⟩

end

def Session.start (system : System (MockApp α)) : Session α := ⟨system, [], []⟩

theorem Connected.synced {windows : MockBar → Window} {system : System (MockApp α)}
    (connected : Connected system)
    (wired : Wired (system .left).client (system .right).client windows) :
    Synced windows (system .right).app (Session.start system) fun _ => [] := by
  have host := connected.log .left
  have device := connected.log .right
  refine ⟨⟨connected.incoming, connected.recvs, connected.sends⟩,
    ⟨State.start, [], sound_start, rfl, tracks_start host device⟩, wired, ⟨[], rfl, .nil _⟩, nofun,
    ⟨nofun, ?_, List.nodup_nil, ?_⟩⟩
  · simp [Session.start, host]
  · simp [Session.start, device]

theorem Synced.drains {host : Callbacks α} {config : Callbacks MockMemory}
    {windows : MockBar → Window} {origin : MockMemory} {session : Session α} {queues : Queues}
    (quiet : host.QuietCompletions) (synced : Synced windows origin session queues)
    {rounds : List (List Side)} (enough : queues.work ≤ rounds.length)
    (fair : ∀ round ∈ rounds, ∀ side, side ∈ round) :
    ∃ drained later, Runs.run (sessionStep host config) session
        (rounds.flatten.map .process) = .ok drained ∧
      drained.writes = session.writes ∧ drained.promised = session.promised ∧
      Synced windows origin drained later ∧ ∀ side, later side = [] := by
  have progress (state : Session α) (ghost : Queues) (side : Side)
      (held : (state.writes = session.writes ∧ state.promised = session.promised) ∧
        Synced windows origin state ghost) :
      ∃ next later, sessionStep host config state (.process side) = .ok next ∧
        ((next.writes = session.writes ∧ next.promised = session.promised) ∧
          Synced windows origin next later) ∧
        (ghost side ≠ [] → later.work < ghost.work) ∧ (¬ghost side ≠ [] → later = ghost) := by
    obtain ⟨after, later, ok, still, less, same⟩ := held.2.process quiet side
    exact ⟨_, later, ok, ⟨held.1, still⟩, less, fun empty => same (not_not.mp empty)⟩
  have idle (ghost : Queues) (empty : ∀ side, ¬ghost side ≠ []) : ghost.work = 0 := by
    rw [Queues.work, not_not.mp (empty .left), not_not.mp (empty .right)]
    rfl
  obtain ⟨drained, later, ran, held, empty⟩ :=
    Runs.run_rounds progress (fun _ ghost _ => idle ghost) ⟨⟨rfl, rfl⟩, synced⟩ fair enough
  rw [Runs.run_map]
  exact ⟨drained, later, ran, held.1.1, held.1.2, held.2, fun side => not_not.mp (empty side)⟩

/-- Every session refines the arrays in every state it reaches. Once both sides have processed what
waits for them, every read that was issued has completed and every write has been carried out. -/
theorem memory_mock_refines {host : Callbacks α} {config : Callbacks MockMemory}
    (quiet : host.QuietCompletions) {windows : MockBar → Window} {system : System (MockApp α)}
    (connected : Connected system)
    (wired : Wired (system .left).client (system .right).client windows) {accesses : List Access}
    (allowed : Runs.Along (sessionStep host config) Allowed (Session.start system) accesses) :
    ∃ final, Runs.run (sessionStep host config) (Session.start system) accesses = .ok final ∧
      (∃ reads, Refines (system .right).app final reads) ∧
      ∃ bound, ∀ rounds : List (List Side), bound ≤ rounds.length →
        (∀ round ∈ rounds, ∀ side, side ∈ round) →
        ∃ drained, Runs.run (sessionStep host config) final
            (rounds.flatten.map .process) = .ok drained ∧
          drained.writes = final.writes ∧ drained.promised = final.promised ∧
          ∃ reads, Refines (system .right).app drained reads ∧
            Drained (system .right).app drained reads := by
  have progress (session : Session α) (access : Access)
      (held : ∃ queues, Synced windows (system .right).app session queues)
        (permitted : Allowed session access) :
      ∃ next, sessionStep host config session access = .ok next ∧
        ∃ queues, Synced windows (system .right).app next queues := by
    obtain ⟨queues, synced⟩ := held
    obtain ⟨next, later, ok, still⟩ := synced.step quiet permitted
    exact ⟨next, ok, later, still⟩
  obtain ⟨final, ran, queues, synced⟩ := Runs.run_total progress ⟨_, connected.synced wired⟩ allowed
  obtain ⟨reads, refines, -⟩ := synced.refines
  refine ⟨final, ran, ⟨reads, refines⟩, queues.work, fun rounds enough fair => ?_⟩
  obtain ⟨drained, later, processed, writes, promised, still, empty⟩ :=
    synced.drains quiet enough fair
  obtain ⟨all, still, done⟩ := still.refines
  exact ⟨drained, processed, writes, promised, all, still, done empty⟩

theorem mockBase0_low : 0x1000 < 2 ^ 32 := by decide

theorem mockBase1_low : 0x2000 < 2 ^ 32 := by decide

def mockWindows : MockBar → Window
  | .bar0 => ⟨0x1000, 7, by decide, mockBase0_low⟩
  | .bar1 => ⟨0x2000, 11, by decide, mockBase1_low⟩

def mockClient : Client :=
  let client := (warppipeRegisterBar (clientWith []).client 0x1000 128 0 (some readBarCb0) none).2
  (warppipeRegisterBar client 0x2000 2048 1 (some readBarCb1) (some writeBarCb1)).2

def mockStart : System (MockApp Unit)
  | .left => { clientWith [] with client := mockClient }
  | .right => ⟨mockClient, (clientWith []).sock, zeroMemory, []⟩

def overlapAccesses : List Access :=
  [.write (fun _ => 0xff) 5 [1, 2, 3], .read .bar1 4 5 9, .process .right, .process .right,
    .process .left, .process .left, .process .left]

def hostLog : Outcome (Session Unit) → List Event
  | .ok session => (session.system .left).log
  | .error _ => []

def nextSlot : Outcome (Session Unit) → Option FnPtr
  | .ok session => (session.system .left).client.completionCb (session.system .left).client.readTag
  | .error _ => none

theorem overlapping_read_refines :
    ∃ final, Runs.run (sessionStep silentCallbacks silentCallbacks) (Session.start mockStart)
        overlapAccesses = .ok final ∧
      (final.system .left).log.getLast? = some (.completion 0 9 0 [0, 1, 2, 3, 0] 5) ∧
      ∃ reads, Refines zeroMemory final reads := by
  have connected : Connected mockStart := by
    refine ⟨fun side => ?_, fun side => ?_, fun side => ?_, fun side => ?_⟩
    all_goals cases side <;> first | rfl | exact nofun
  have holds (bar : MockBar) : Holds mockClient bar.index (mockWindows bar) := by
    cases bar <;> exact ⟨rfl, rfl⟩
  have wired : Wired (mockStart .left).client (mockStart .right).client mockWindows :=
    ⟨holds, holds, fun bar => by cases bar <;> rfl, fun bar => by cases bar <;> decide, by decide,
      fun bar => by cases bar <;> rfl, rfl⟩
  have allowed : Runs.Along (sessionStep silentCallbacks silentCallbacks) Allowed
      (Session.start mockStart) overlapAccesses := by
    refine ⟨⟨by decide, by decide⟩, fun next wrote =>
        ⟨⟨by decide, by decide, ?_⟩, fun _ _ => ⟨trivial, fun _ _ =>
      ⟨trivial, fun _ _ =>
        ⟨trivial, fun _ _ => ⟨trivial, fun _ _ => ⟨trivial, fun _ _ => trivial⟩⟩⟩⟩⟩⟩⟩
    have free : nextSlot (sessionStep silentCallbacks silentCallbacks (Session.start mockStart)
        (.write (fun _ => 0xff) 5 [1, 2, 3])) = none := by decide +kernel
    rwa [wrote] at free
  obtain ⟨final, ran, refines, -⟩ :=
    memory_mock_refines (fun _ _ _ _ _ => rfl) connected wired allowed
  have last :
      (hostLog (Runs.run (sessionStep silentCallbacks silentCallbacks) (Session.start mockStart)
      overlapAccesses)).getLast? = some (.completion 0 9 0 [0, 1, 2, 3, 0] 5) := by decide +kernel
  rw [ran] at last
  exact ⟨final, ran, last, refines⟩

end WarpPipe
