import WarpPipe.Turns

/-!
Two clients on one connection. What a side puts on the wire joins the stream of its peer; both
sides make requests and process packets in any order.
-/

namespace WarpPipe

open ByteLayout

inductive Side where
  | left
  | right
  deriving DecidableEq, Repr

def Side.peer : Side → Side
  | .left => .right
  | .right => .left

@[simp] theorem Side.peer_peer (side : Side) : side.peer.peer = side := by
  cases side <;> rfl

theorem Side.peer_ne (side : Side) : side.peer ≠ side := by
  cases side <;> decide

theorem Side.eq_or_peer (mover side : Side) : mover = side ∨ mover = side.peer := by
  cases mover <;> cases side <;> decide

variable {σ : Side → Type}

abbrev System (σ : Side → Type) := (side : Side) → World (σ side)

def System.moved (system : System σ) (side : Side) (after : World (σ side)) : System σ :=
  Function.update
    (Function.update system side.peer
      ((system side.peer).arrive (transferred (system side) after)))
    side after

inductive SystemAction where
  | request (side : Side) (call : Call)
  | process (side : Side)

def systemStep (cbs : (side : Side) → Callbacks (σ side)) (system : System σ) :
    SystemAction → Outcome (System σ)
  | .request side call => (call.run (system side)).map fun result => system.moved side result.2
  | .process side =>
      (warppipeClientRead (cbs side) (system side)).map fun after => system.moved side after

def Permitted (system : System σ) : SystemAction → Prop
  | .request side call => Request (system side).client call
  | .process _ => True

theorem moved_self (system : System σ) (side : Side) (after : World (σ side)) :
    system.moved side after side = after := by
  rw [System.moved, Function.update_self]

theorem moved_peer (system : System σ) (side : Side) (after : World (σ side)) :
    system.moved side after side.peer =
      (system side.peer).arrive (transferred (system side) after) := by
  rw [System.moved, Function.update_of_ne side.peer_ne, Function.update_self]

abbrev Queues := Side → List Parcel

def Queues.moved (queues : Queues) (side : Side) (rest pushed : List Parcel) : Queues :=
  Function.update (Function.update queues side.peer (queues side.peer ++ pushed)) side rest

theorem Queues.moved_self (queues : Queues) (side : Side) (rest pushed : List Parcel) :
    queues.moved side rest pushed side = rest := by
  rw [Queues.moved, Function.update_self]

theorem Queues.moved_peer (queues : Queues) (side : Side) (rest pushed : List Parcel) :
    queues.moved side rest pushed side.peer = queues side.peer ++ pushed := by
  rw [Queues.moved, Function.update_of_ne side.peer_ne, Function.update_self]

/-- The streams of both sides hold the parcels of `queues` and nothing else. -/
structure Linked (system : System σ) (queues : Queues) : Prop where
  incoming : ∀ side, (system side).sock.incoming = (queues side).flatMap Parcel.bytes
  recvs : ∀ side, (system side).sock.recvs = []
  sends : ∀ side, (system side).sock.SendsAll

structure Move (cbs : (side : Side) → Callbacks (σ side)) (side : Side) (before after : System σ)
    (popped pushed : List Parcel) : Prop where
  turn : ∃ events, Turn (cbs side) (before side) popped events pushed (after side).view ∧
    (after side).log = (before side).log ++ events
  routes : (after side).client.routes = (before side).client.routes
  peer : (after side.peer).client = (before side.peer).client ∧
    (after side.peer).app = (before side.peer).app ∧ (after side.peer).log = (before side.peer).log

section

variable {cbs : (side : Side) → Callbacks (σ side)} {before : System σ} {queues : Queues}

theorem Linked.relay (linked : Linked before queues) {side : Side} {after : World (σ side)}
    {popped rest pushed : List Parcel} (relayed : Relayed (before side) after popped pushed)
    (taken : queues side = popped ++ rest) :
    Linked (before.moved side after) (queues.moved side rest pushed) := by
  have left : after.sock.incoming = rest.flatMap Parcel.bytes := by
    have stream := relayed.incoming
    rw [linked.incoming side, taken, List.flatMap_append] at stream
    exact (List.append_cancel_left stream).symm
  refine ⟨fun other => ?_, fun other => ?_, fun other => ?_⟩
  · rcases other.eq_or_peer side with rfl | rfl
    · rw [moved_self, Queues.moved_self, left]
    · rw [moved_peer, Queues.moved_peer, List.flatMap_append, ← linked.incoming,
        relayed.transferred]
      rfl
  · rcases other.eq_or_peer side with rfl | rfl
    · rw [moved_self, relayed.recvs]
    · rw [moved_peer]
      exact linked.recvs side.peer
  · rcases other.eq_or_peer side with rfl | rfl
    · rw [moved_self]
      exact relayed.sends
    · rw [moved_peer]
      exact linked.sends side.peer

theorem Linked.move (linked : Linked before queues) {side : Side} {after : World (σ side)}
    {popped rest pushed : List Parcel}
    (turned : Turned (cbs side) (before side) after popped pushed)
    (taken : queues side = popped ++ rest) :
    Move cbs side before (before.moved side after) popped pushed ∧
      Linked (before.moved side after) (queues.moved side rest pushed) := by
  obtain ⟨events, turn, log⟩ := turned.turn
  refine ⟨⟨⟨events, ?_, ?_⟩, ?_, ?_⟩, linked.relay turned.relayed taken⟩
  · rwa [moved_self]
  · rwa [moved_self]
  · rw [moved_self]
    exact turned.routes
  · rw [moved_peer]
    exact ⟨rfl, rfl, rfl⟩

theorem Linked.request (linked : Linked before queues) {side : Side} {call : Call}
    (request : Request (before side).client call) :
    ∃ after pushed, systemStep cbs before (.request side call) = .ok after ∧
      pushed.map Parcel.content = (call.message? (before side).client).toList.map Content.message ∧
      Move cbs side before after [] pushed ∧
      Linked after (queues.moved side (queues side) pushed) := by
  obtain ⟨rc, world, pushed, ran, turned, contents⟩ :=
    request_turn (cbs side) (linked.sends side) (linked.recvs side) request
  obtain ⟨move, still⟩ := linked.move turned (List.nil_append _).symm
  exact ⟨_, pushed, by rw [systemStep, ran]; rfl, contents, move, still⟩

theorem Linked.process (linked : Linked before queues) (side : Side)
    (calm : ∀ parcel ∈ (queues side).head?, (cbs side).Calm (before side).client parcel.content) :
    ∃ after pushed, systemStep cbs before (.process side) = .ok after ∧
      Move cbs side before after ((queues side).take 1) pushed ∧
      Linked after (queues.moved side ((queues side).drop 1) pushed) ∧
      (queues side = [] → pushed = []) := by
  have stream := linked.incoming side
  cases waiting : queues side with
  | nil =>
      rw [waiting] at stream
      obtain ⟨world, read, turned⟩ :=
        waiting_turn (cbs side) (linked.sends side) (linked.recvs side) stream
      obtain ⟨move, still⟩ := linked.move turned waiting
      exact ⟨_, _, by rw [systemStep, read]; rfl, move, still, fun _ => rfl⟩
  | cons parcel rest =>
      rw [waiting] at stream
      have next : Next (before side).sock parcel.bytes (rest.flatMap Parcel.bytes) [] :=
        ⟨stream, by rw [linked.recvs side]; rfl⟩
      -- the stream ends with the last parcel, so `recv` finds this packet whole
      obtain ⟨world, pushed, read, turned⟩ := read_turn (linked.sends side) next
        (calm parcel (by rw [waiting]; rfl))
      obtain ⟨move, still⟩ := linked.move turned waiting
      exact ⟨_, pushed, by rw [systemStep, read]; rfl, move, still, nofun⟩

/-- Every permitted action is a move of the connection, and none fails. -/
theorem Linked.step (linked : Linked before queues) (quiet : ∀ side, (cbs side).Quiet)
    {action : SystemAction} (permitted : Permitted before action) :
    ∃ side after popped rest pushed, systemStep cbs before action = .ok after ∧
      queues side = popped ++ rest ∧ Move cbs side before after popped pushed ∧
      Linked after (queues.moved side rest pushed) := by
  cases action with
  | request side call =>
      obtain ⟨after, pushed, ok, -, move, still⟩ := linked.request permitted
      exact ⟨side, after, _, _, _, ok, (List.nil_append _).symm, move, still⟩
  | process side =>
      obtain ⟨after, pushed, ok, move, still, -⟩ := linked.process side fun parcel _ =>
        (quiet side).calm _ parcel.content
      exact ⟨side, after, _, _, _, ok, (List.take_append_drop 1 _).symm, move, still⟩

/-! Packets cause packets, but not forever. -/

/-- The packets that processing a packet costs in all: itself, its acknowledgement, and the
completion of a read with the acknowledgement of that. -/
def Content.work : Content → Nat
  | .ack => 1
  | .message (.read ..) => 4
  | .message _ => 2

def parcelWork (parcels : List Parcel) : Nat := (parcels.map fun parcel => parcel.content.work).sum

def Queues.work (queues : Queues) : Nat := parcelWork (queues .left) + parcelWork (queues .right)

theorem parcelWork_append (first second : List Parcel) :
    parcelWork (first ++ second) = parcelWork first + parcelWork second := by
  rw [parcelWork, List.map_append, List.sum_append]
  rfl

theorem Content.work_message (message : Message) : 2 ≤ (Content.message message).work := by
  cases message with
  | read => exact Nat.le_add_left 2 2
  | write => exact Nat.le_refl 2
  | completion => exact Nat.le_refl 2
  | failure => exact Nat.le_refl 2

theorem Turn.work_lt {σ : Type} {cbs : Callbacks σ} {world : World σ} {popped pushed : List Parcel}
    {events : List Event} {view : View σ} (turn : Turn cbs world popped events pushed view)
    (takes : popped ≠ []) : parcelWork pushed < parcelWork popped := by
  cases turn with
  | idle => exact absurd rfl takes
  | issuedRead => exact absurd rfl takes
  | issuedWrite => exact absurd rfl takes
  | acknowledged parcel notes content kinds => simp [parcelWork, content, Content.work]
  | passed parcel message content unserved =>
      have costs := Content.work_message message
      simp only [parcelWork, List.map_cons, List.map_nil, List.sum_cons, List.sum_nil, content]
      exact costs
  | asked parcel answer space addr target length tag cb ret content route returned answered =>
      have costs : answer.content.work = 2 := by
        rw [answered, answerOf]
        split <;> rfl
      simp only [parcelWork, List.map_cons, List.map_nil, List.sum_cons, List.sum_nil,
        content, costs]
      exact Nat.lt_succ_self 3
  | wrote parcel space addr target data cb content route =>
      simp [parcelWork, content, ackParcel, Content.work]
  | ended parcel tag data cb content stored =>
      simp [parcelWork, content, ackParcel, Content.work]

theorem Queues.work_moved (queues : Queues) (side : Side) (rest pushed : List Parcel) :
    (queues.moved side rest pushed).work =
      parcelWork rest + parcelWork (queues side.peer) + parcelWork pushed := by
  have own := queues.moved_self side rest pushed
  have other := queues.moved_peer side rest pushed
  cases side with
  | left => rw [Queues.work, own, show queues.moved .left rest pushed .right = _ from other,
      parcelWork_append, Nat.add_assoc]
  | right =>
      rw [Queues.work, own, show queues.moved .right rest pushed .left = _ from other,
        parcelWork_append]
      exact Nat.add_comm _ _ |>.trans (Nat.add_assoc _ _ _).symm

theorem Queues.work_eq (queues : Queues) (side : Side) :
    queues.work = parcelWork (queues side) + parcelWork (queues side.peer) := by
  cases side with
  | left => rfl
  | right => exact Nat.add_comm _ _

theorem Move.work_lt {after : System σ} {side : Side} {popped rest pushed : List Parcel}
    (move : Move cbs side before after popped pushed) (taken : queues side = popped ++ rest)
    (takes : popped ≠ []) : (queues.moved side rest pushed).work < queues.work := by
  obtain ⟨events, turn, -⟩ := move.turn
  have less := turn.work_lt takes
  rw [queues.work_moved, queues.work_eq side, taken, parcelWork_append]
  omega

theorem Queues.moved_idle (queues : Queues) (side : Side) :
    queues.moved side (queues side) [] = queues := by
  rw [Queues.moved, List.append_nil, Function.update_eq_self, Function.update_eq_self]

end

end WarpPipe
