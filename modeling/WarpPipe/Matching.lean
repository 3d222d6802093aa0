import WarpPipe.Library.Exchange
import WarpPipe.Library.Runs
import WarpPipe.Duplex

/-!
Requests and completions over any interleaving. The reads of one side are an exchange: the slots
are its table, the read requests and the completions on the wire are its tokens. A read is named by
the place of its `stored` event in the log, an answer by the place of its `readCb` event.
-/

namespace WarpPipe

open ByteLayout Exchange

variable {σ τ : Type}

def sentCount (log : List Event) : Nat := (log.filterMap Event.sentPacket?).length

def receivedCount (log : List Event) : Nat := (log.filterMap Event.packet?).length

structure Read where
  issued : Nat
  asked : Nat
  done : Nat

/-- The completion callback at `done` is the one the read at `issued` stored, and its data is what
the read callback of the peer produced at `asked`, where the peer handled the packet of this
read. -/
def Ends (own peer : List Event) (read : Read) : Prop :=
  ∃ tag cb peerCb addr data,
    own[read.issued]? = some (.stored tag (some cb)) ∧
    peer[read.asked]? = some (.readCb peerCb addr data.length 0 data) ∧
    receivedCount (peer.take read.asked) = sentCount (own.take read.issued) ∧
    read.issued < read.done ∧
    own[read.done]? = some (.completion tag cb 0 data data.length)

def Parcel.completion? (parcel : Parcel) : Option (Fin 32 × Bytes) :=
  match parcel.content with
  | .message (.completion tag data) => some (tag, data)
  | _ => none

@[simp] theorem readTag?_ackParcel (packet : Bytes) : (ackParcel packet).readTag? = none := rfl

@[simp] theorem completion?_ackParcel (packet : Bytes) : (ackParcel packet).completion? = none :=
  rfl

inductive Requested (own : List Event) : Nat → List Parcel → List (Token (Fin 32) Nat) → Prop where
  | nil (number : Nat) : Requested own number [] []
  | read {number : Nat} {parcel : Parcel} {rest : List Parcel} {tokens : List (Token (Fin 32) Nat)}
      {tag : Fin 32} {id : Nat} {cb : FnPtr} (found : parcel.readTag? = some tag)
      (stored : own[id]? = some (.stored tag (some cb)))
      (position : sentCount (own.take id) = number + 1)
      (later : Requested own (number + 1) rest tokens) :
      Requested own number (parcel :: rest) ((tag, id) :: tokens)
  | other {number : Nat} {parcel : Parcel} {rest : List Parcel} {tokens : List (Token (Fin 32) Nat)}
      (found : parcel.readTag? = none) (later : Requested own (number + 1) rest tokens) :
      Requested own number (parcel :: rest) tokens

inductive Answered (own peer : List Event) :
    List Parcel → List (Token (Fin 32) Nat × Nat) → Prop where
  | nil : Answered own peer [] []
  | completion {parcel : Parcel} {rest : List Parcel} {answers : List (Token (Fin 32) Nat × Nat)}
      {tag : Fin 32} {id asked : Nat} {data : Bytes} {cb peerCb : FnPtr} {addr : BitVec 64}
      (found : parcel.completion? = some (tag, data))
      (stored : own[id]? = some (.stored tag (some cb)))
      (ran : peer[asked]? = some (.readCb peerCb addr data.length 0 data))
      (position : receivedCount (peer.take asked) = sentCount (own.take id))
      (later : Answered own peer rest answers) :
      Answered own peer (parcel :: rest) (((tag, id), asked) :: answers)
  | other {parcel : Parcel} {rest : List Parcel} {answers : List (Token (Fin 32) Nat × Nat)}
      (found : parcel.completion? = none) (later : Answered own peer rest answers) :
      Answered own peer (parcel :: rest) answers

structure Tracks (own : World σ) (peer : World τ) (toPeer toOwn : List Parcel)
    (state : State (Fin 32) Nat Nat) (reads : List Read) : Prop where
  conserved : own.log.filterMap Event.sentPacket? =
    peer.log.filterMap Event.packet? ++ toPeer.map Parcel.bytes
  requests : Requested own.log (receivedCount peer.log) toPeer state.requests
  answers : Answered own.log peer.log toOwn state.answers
  table : ∀ tag id, state.table tag = some id →
    ∃ cb, own.client.completionCb tag = some cb ∧ own.log[id]? = some (.stored tag (some cb))
  issued : ∀ id, id ∈ state.issued ↔ ∃ tag cb, own.log[id]? = some (.stored tag (some cb))
  results : state.results = reads.map fun read => ⟨read.issued, read.issued, read.asked⟩
  ended : ∀ read ∈ reads, Ends own.log peer.log read
  covered : ∀ (done : Nat) (tag : Fin 32) (cb : FnPtr) (code : Int) (data : Bytes) (length : Int),
    own.log[done]? = some (.completion tag cb code data length) → ∃ read ∈ reads, read.done = done

theorem getElem?_grows {log : List Event} {index : Nat} {event : Event} (events : List Event)
    (found : log[index]? = some event) : (log ++ events)[index]? = some event := by
  obtain ⟨bound, -⟩ := List.getElem?_eq_some_iff.mp found
  rw [List.getElem?_append_left bound, found]

theorem take_grows {log : List Event} {index : Nat} {event : Event} (events : List Event)
    (found : log[index]? = some event) : (log ++ events).take index = log.take index := by
  obtain ⟨bound, -⟩ := List.getElem?_eq_some_iff.mp found
  exact List.take_append_of_le_length (Nat.le_of_lt bound)

theorem getElem?_of_grown {log events : List Event} {index : Nat} {event : Event}
    (old : event ∉ events) (found : (log ++ events)[index]? = some event) :
    log[index]? = some event := by
  by_cases inside : index < log.length
  · rwa [List.getElem?_append_left inside] at found
  · rw [List.getElem?_append_right (by omega)] at found
    exact absurd (List.mem_of_getElem? found) old

theorem Ends.grows {own peer : List Event} {read : Read} (ends : Ends own peer read)
    (later peerLater : List Event) : Ends (own ++ later) (peer ++ peerLater) read := by
  obtain ⟨tag, cb, peerCb, addr, data, stored, ran, position, order, done⟩ := ends
  refine ⟨tag, cb, peerCb, addr, data, getElem?_grows _ stored, getElem?_grows _ ran, ?_, order,
    getElem?_grows _ done⟩
  rw [take_grows _ stored, take_grows _ ran, position]

theorem Requested.grows {own : List Event} {number : Nat} {parcels : List Parcel}
    {tokens : List (Token (Fin 32) Nat)} (requested : Requested own number parcels tokens)
    (later : List Event) : Requested (own ++ later) number parcels tokens := by
  induction requested with
  | nil number => exact .nil number
  | read found stored position _ ih =>
      exact .read found (getElem?_grows _ stored) (by rw [take_grows _ stored, position]) ih
  | other found _ ih => exact .other found ih

theorem Answered.grows {own peer : List Event} {parcels : List Parcel}
    {answers : List (Token (Fin 32) Nat × Nat)} (answered : Answered own peer parcels answers)
    (later peerLater : List Event) :
    Answered (own ++ later) (peer ++ peerLater) parcels answers := by
  induction answered with
  | nil => exact .nil
  | completion found stored ran position _ ih =>
      exact .completion found (getElem?_grows _ stored) (getElem?_grows _ ran)
        (by rw [take_grows _ stored, take_grows _ ran, position]) ih
  | other found _ ih => exact .other found ih

theorem Requested.append {own : List Event} {number : Nat} {first second : List Parcel}
    {early late : List (Token (Fin 32) Nat)} (requested : Requested own number first early)
    (more : Requested own (number + first.length) second late) :
    Requested own number (first ++ second) (early ++ late) := by
  induction requested with
  | nil number => exact more
  | read found stored position _ ih =>
      refine .read found stored position (ih ?_)
      rwa [List.length_cons, Nat.add_comm _ 1, ← Nat.add_assoc] at more
  | other found _ ih =>
      refine .other found (ih ?_)
      rwa [List.length_cons, Nat.add_comm _ 1, ← Nat.add_assoc] at more

theorem requested_others (own : List Event) (number : Nat) {parcels : List Parcel}
    (others : ∀ parcel ∈ parcels, parcel.readTag? = none) : Requested own number parcels [] := by
  induction parcels generalizing number with
  | nil => exact .nil number
  | cons parcel rest ih =>
      exact .other (others parcel (by simp)) (ih _ fun other member =>
        others other (List.mem_cons_of_mem _ member))

theorem Requested.pop {own : List Event} {number : Nat} {parcel : Parcel} {rest : List Parcel}
    {tokens : List (Token (Fin 32) Nat)}
    (requested : Requested own number (parcel :: rest) tokens) :
    (parcel.readTag? = none → Requested own (number + 1) rest tokens) ∧
    (∀ tag, parcel.readTag? = some tag → ∃ id cb later, tokens = (tag, id) :: later ∧
      own[id]? = some (.stored tag (some cb)) ∧ sentCount (own.take id) = number + 1 ∧
      Requested own (number + 1) rest later) := by
  cases requested with
  | read found stored position later =>
      refine ⟨fun none => by simp [found] at none, fun tag same => ?_⟩
      rw [found] at same
      cases same
      exact ⟨_, _, _, rfl, stored, position, later⟩
  | other found later => exact ⟨fun _ => later, fun tag same => by simp [found] at same⟩

theorem Answered.append {own peer : List Event} {first second : List Parcel}
    {early late : List (Token (Fin 32) Nat × Nat)} (answered : Answered own peer first early)
    (more : Answered own peer second late) :
    Answered own peer (first ++ second) (early ++ late) := by
  induction answered with
  | nil => exact more
  | completion found stored ran position _ ih => exact .completion found stored ran position ih
  | other found _ ih => exact .other found ih

theorem answered_others (own peer : List Event) {parcels : List Parcel}
    (others : ∀ parcel ∈ parcels, parcel.completion? = none) : Answered own peer parcels [] := by
  induction parcels with
  | nil => exact .nil
  | cons parcel rest ih =>
      exact .other (others parcel (by simp)) (ih fun other member =>
        others other (List.mem_cons_of_mem _ member))

theorem Answered.pop {own peer : List Event} {parcel : Parcel} {rest : List Parcel}
    {answers : List (Token (Fin 32) Nat × Nat)}
    (answered : Answered own peer (parcel :: rest) answers) :
    (parcel.completion? = none → Answered own peer rest answers) ∧
    (∀ tag data, parcel.completion? = some (tag, data) →
      ∃ id asked cb peerCb addr later, answers = ((tag, id), asked) :: later ∧
        own[id]? = some (.stored tag (some cb)) ∧
        peer[asked]? = some (.readCb peerCb addr data.length 0 data) ∧
        receivedCount (peer.take asked) = sentCount (own.take id) ∧
        Answered own peer rest later) := by
  cases answered with
  | completion found stored ran position later =>
      refine ⟨fun none => by simp [found] at none, fun tag data same => ?_⟩
      rw [found] at same
      cases same
      exact ⟨_, _, _, _, _, _, rfl, stored, ran, position, later⟩
  | other found later => exact ⟨fun _ => later, fun tag data same => by simp [found] at same⟩

def Event.isRecord : Event → Bool
  | .stored .. | .completion .. => true
  | _ => false

theorem record_of_grown {log events : List Event} {index : Nat} {event : Event}
    (plain : ∀ other ∈ events, other.isRecord = false) (record : event.isRecord = true)
    (found : (log ++ events)[index]? = some event) : log[index]? = some event := by
  refine getElem?_of_grown (fun member => ?_) found
  rw [plain event member] at record
  cases record

theorem record_of_snoc {log events : List Event} {last event : Event} {index : Nat}
    (plain : ∀ other ∈ events, other.isRecord = false) (record : event.isRecord = true)
    (found : (log ++ (events ++ [last]))[index]? = some event) :
    log[index]? = some event ∨ index = log.length + events.length ∧ event = last := by
  rw [← List.append_assoc] at found
  obtain ⟨bound, -⟩ := List.getElem?_eq_some_iff.mp found
  simp only [List.length_append, List.length_singleton] at bound
  by_cases inside : index < (log ++ events).length
  · rw [List.getElem?_append_left inside] at found
    exact Or.inl (record_of_grown plain record found)
  · simp only [List.length_append, Nat.not_lt] at inside
    have place : index = log.length + events.length := by omega
    subst place
    rw [← List.length_append, List.getElem?_concat_length] at found
    exact Or.inr ⟨rfl, (Option.some.inj found).symm⟩

section

variable {own after : World σ} {peer : World τ} {toPeer toOwn : List Parcel}
variable {state : State (Fin 32) Nat Nat} {reads : List Read} {events : List Event}

theorem Tracks.balance (tracks : Tracks own peer toPeer toOwn state reads) :
    sentCount own.log = receivedCount peer.log + toPeer.length := by
  rw [sentCount, tracks.conserved, List.length_append, List.length_map]
  rfl

theorem Tracks.conserved_own (tracks : Tracks own peer toPeer toOwn state reads)
    (log : after.log = own.log ++ events) {pushed : List Parcel}
    (sent : events.filterMap Event.sentPacket? = pushed.map Parcel.bytes) :
    after.log.filterMap Event.sentPacket? =
      peer.log.filterMap Event.packet? ++ (toPeer ++ pushed).map Parcel.bytes := by
  rw [log, List.filterMap_append, tracks.conserved, sent, List.map_append, List.append_assoc]

theorem Tracks.ownPlain {popped pushed rest : List Parcel}
    (tracks : Tracks own peer toPeer (popped ++ rest) state reads)
    (log : after.log = own.log ++ events)
    (slots : after.client.completionCb = own.client.completionCb)
    (plain : ∀ event ∈ events, event.isRecord = false)
    (sent : events.filterMap Event.sentPacket? = pushed.map Parcel.bytes)
    (others : ∀ parcel ∈ pushed, parcel.readTag? = none)
    (remaining : Answered own.log peer.log rest state.answers) :
    Tracks after peer (toPeer ++ pushed) rest state reads := by
  refine ⟨tracks.conserved_own log sent, ?_, ?_, fun tag id held => ?_, fun id => ?_,
    tracks.results, fun read member => ?_, fun done tag cb code data length found => ?_⟩
  · rw [log]
    have requests := (tracks.requests.grows events).append (requested_others _ _ others)
    rwa [List.append_nil] at requests
  · rw [log, ← List.append_nil peer.log]
    exact remaining.grows events []
  · obtain ⟨cb, slot, stored⟩ := tracks.table tag id held
    exact ⟨cb, by rw [slots, slot], by rw [log]; exact getElem?_grows _ stored⟩
  · rw [tracks.issued id, log]
    refine ⟨fun ⟨tag, cb, stored⟩ => ⟨tag, cb, getElem?_grows _ stored⟩,
      fun ⟨tag, cb, stored⟩ => ?_⟩
    exact ⟨tag, cb, record_of_grown plain rfl stored⟩
  · rw [log, ← List.append_nil peer.log]
    exact (tracks.ended read member).grows events []
  · rw [log] at found
    exact tracks.covered done tag cb code data length (record_of_grown plain rfl found)

theorem Tracks.free (tracks : Tracks own peer toPeer toOwn state reads) {tag : Fin 32}
    (empty : own.client.completionCb tag = none) : state.table tag = none := by
  cases held : state.table tag with
  | none => rfl
  | some id =>
      obtain ⟨cb, slot, -⟩ := tracks.table tag id held
      rw [empty] at slot
      cases slot

theorem Tracks.unused (tracks : Tracks own peer toPeer toOwn state reads) {id : Nat}
    (late : own.log.length ≤ id) : id ∉ state.issued := by
  intro member
  obtain ⟨tag, cb, stored⟩ := (tracks.issued id).mp member
  obtain ⟨bound, -⟩ := List.getElem?_eq_some_iff.mp stored
  omega

theorem Tracks.issue (tracks : Tracks own peer toPeer toOwn state reads) {parcel : Parcel}
    {tag : Fin 32} {cb : FnPtr} (log : after.log = own.log ++ [parcel.sent, .stored tag (some cb)])
    (slots : after.client.completionCb = Function.update own.client.completionCb tag (some cb))
    (said : parcel.readTag? = some tag) :
    Tracks after peer (toPeer ++ [parcel]) toOwn
      { state with
        table := Function.update state.table tag (some (own.log.length + 1))
        requests := state.requests ++ [(tag, own.log.length + 1)]
        issued := state.issued ++ [own.log.length + 1] } reads := by
  have stored : after.log[own.log.length + 1]? = some (.stored tag (some cb)) := by
    rw [log, List.getElem?_append_right (by omega), Nat.add_sub_cancel_left]
    rfl
  have new {index : Nat} {event : Event} (record : event.isRecord = true)
      (found : after.log[index]? = some event) :
      own.log[index]? = some event ∨ index = own.log.length + 1 ∧
      event = .stored tag (some cb) := by
    rw [log] at found
    exact record_of_snoc (show ∀ other ∈ [parcel.sent], other.isRecord = false by
      simp [Parcel.sent, Event.isRecord]) record found
  refine ⟨tracks.conserved_own log rfl, ?_, ?_, fun other id held => ?_, fun id => ?_,
    tracks.results, fun read member => ?_, fun done other cb code data length found => ?_⟩
  · have requests := tracks.requests.grows [parcel.sent, .stored tag (some cb)]
    rw [← log] at requests
    refine requests.append (.read said stored ?_ (.nil _))
    rw [log, List.take_append, List.take_of_length_le (by omega),
      Nat.add_sub_cancel_left, sentCount,
      List.filterMap_append, List.length_append, ← tracks.balance]
    rfl
  · rw [log, ← List.append_nil peer.log]
    exact tracks.answers.grows _ []
  · rcases update_eq_some held with ⟨rfl, mine⟩ | ⟨apart, entry⟩
    · cases mine
      exact ⟨cb, by rw [slots, Function.update_self], stored⟩
    · obtain ⟨callback, slot, old⟩ := tracks.table other id entry
      exact ⟨callback, by rw [slots, Function.update_of_ne apart, slot],
        by rw [log]; exact getElem?_grows _ old⟩
  · rw [List.mem_append, List.mem_singleton, tracks.issued id]
    constructor
    · rintro (⟨other, callback, old⟩ | rfl)
      · exact ⟨other, callback, by rw [log]; exact getElem?_grows _ old⟩
      · exact ⟨tag, cb, stored⟩
    · rintro ⟨other, callback, found⟩
      rcases new rfl found with old | ⟨last, -⟩
      · exact Or.inl ⟨other, callback, old⟩
      · exact Or.inr last
  · rw [log, ← List.append_nil peer.log]
    exact (tracks.ended read member).grows _ []
  · rcases new rfl found with old | ⟨-, other⟩
    · exact tracks.covered done _ _ _ _ _ old
    · cases other

theorem Tracks.finish {parcel : Parcel} {rest : List Parcel}
    (tracks : Tracks own peer toPeer (parcel :: rest) state reads) (sound : Exchange.Sound state)
    {tag : Fin 32} {data : Bytes} {cb : FnPtr}
    (log : after.log = own.log ++ [.packet parcel.bytes, (ackParcel parcel.bytes).sent,
      .completion tag cb 0 data data.length])
    (slots : after.client.completionCb = Function.update own.client.completionCb tag none)
    (said : parcel.completion? = some (tag, data)) (slot : own.client.completionCb tag = some cb) :
    ∃ next longer, Step state next ∧ next.dropped = state.dropped ∧
      Tracks after peer (toPeer ++ [ackParcel parcel.bytes]) rest next longer := by
  obtain ⟨id, asked, callback, peerCb, addr, answers, next, stored, ran, position, remaining⟩ :=
    tracks.answers.pop.2 tag data said
  have held : state.table tag = some id := by
    refine sound.pending (tag, id) (List.mem_append_right _ ?_)
    simp [next]
  obtain ⟨holder, holds, kept⟩ := tracks.table tag id held
  -- the slot still holds the callback of the read that is answered
  have mine : callback = cb := by
    rw [stored] at kept
    cases kept
    exact Option.some.inj (holds.symm.trans slot)
  subst mine
  have done : after.log[own.log.length + 2]? =
      some (.completion tag callback 0 data data.length) := by
    rw [log, List.getElem?_append_right (by omega), Nat.add_sub_cancel_left]
    rfl
  have early : id < own.log.length := (List.getElem?_eq_some_iff.mp stored).1
  have new {index : Nat} {event : Event} (record : event.isRecord = true)
      (found : after.log[index]? = some event) :
      own.log[index]? = some event ∨
        index = own.log.length + 2 ∧ event = .completion tag callback 0 data data.length := by
    rw [log] at found
    exact record_of_snoc (show ∀ other ∈ [.packet parcel.bytes, (ackParcel parcel.bytes).sent],
      other.isRecord = false by simp [Parcel.sent, Event.isRecord]) record found
  refine ⟨_, reads ++ [⟨id, asked, own.log.length + 2⟩],
    .finish (tag, id) asked answers id next held,
    rfl, tracks.conserved_own log rfl, ?_, ?_, fun other found => ?_, fun other => ?_, ?_,
    fun read member => ?_, fun index other cb code bytes length found => ?_⟩
  · have requests := tracks.requests.grows [.packet parcel.bytes, (ackParcel parcel.bytes).sent,
      .completion tag callback 0 data data.length]
    rw [← log] at requests
    rw [← List.append_nil state.requests]
    exact requests.append (.other rfl (.nil _))
  · rw [log, ← List.append_nil peer.log]
    exact remaining.grows _ []
  · intro still
    obtain ⟨apart, entry⟩ := update_none_eq_some still
    obtain ⟨cb, busy, old⟩ := tracks.table other found entry
    exact ⟨cb, by rw [slots, Function.update_of_ne apart, busy],
      by rw [log]; exact getElem?_grows _ old⟩
  · rw [tracks.issued other]
    constructor
    · rintro ⟨otherTag, cb, old⟩
      exact ⟨otherTag, cb, by rw [log]; exact getElem?_grows _ old⟩
    · rintro ⟨otherTag, cb, found⟩
      rcases new rfl found with old | ⟨-, clash⟩
      · exact ⟨otherTag, cb, old⟩
      · cases clash
  · rw [tracks.results, List.map_append]
    rfl
  · rcases List.mem_append.mp member with old | last
    · rw [log, ← List.append_nil peer.log]
      exact (tracks.ended read old).grows _ []
    · rw [List.mem_singleton.mp last]
      refine ⟨tag, callback, peerCb, addr, data, ?_, ran, ?_, Nat.lt_add_right 2 early, done⟩
      · rw [log]
        exact getElem?_grows _ stored
      · rw [log, take_grows _ stored, position]
  · rcases new rfl found with old | ⟨rfl, -⟩
    · obtain ⟨read, member, same⟩ := tracks.covered index _ _ _ _ _ old
      exact ⟨read, List.mem_append_left _ member, same⟩
    · exact ⟨_, List.mem_append_right _ (List.mem_singleton.mpr rfl), rfl⟩

theorem Tracks.occupied {parcel : Parcel} {rest : List Parcel}
    (tracks : Tracks own peer toPeer (parcel :: rest) state reads) (sound : Exchange.Sound state)
    {tag : Fin 32} {data : Bytes} (said : parcel.completion? = some (tag, data)) :
    own.client.completionCb tag ≠ none := by
  obtain ⟨id, asked, callback, peerCb, addr, answers, next, -⟩ := tracks.answers.pop.2 tag data said
  have held : state.table tag = some id := by
    refine sound.pending (tag, id) (List.mem_append_right _ ?_)
    simp [next]
  obtain ⟨cb, slot, -⟩ := tracks.table tag id held
  rw [slot]
  exact nofun

theorem Tracks.ownTurn {cbs : Callbacks σ} {popped pushed rest : List Parcel}
    (tracks : Tracks own peer toPeer (popped ++ rest) state reads) (sound : Exchange.Sound state)
    (turn : Turn cbs own popped events pushed after.view) (log : after.log = own.log ++ events) :
    ∃ next longer, (next = state ∨ Step state next) ∧ next.dropped = state.dropped ∧
      Tracks after peer (toPeer ++ pushed) rest next longer := by
  have sent := turn.sent
  generalize viewed : after.view = view at turn
  have slots := congrArg View.completionCb viewed
  cases turn with
  | idle =>
      exact ⟨state, reads, Or.inl rfl, rfl,
        tracks.ownPlain log slots nofun sent nofun tracks.answers⟩
  | issuedRead parcel space addr length cb content free =>
      refine ⟨_, reads,
        Or.inr (.issue _ _ (tracks.free free) (tracks.unused (Nat.le_add_right _ 1))), rfl, ?_⟩
      exact tracks.issue log slots (by rw [Parcel.readTag?, content])
  | issuedWrite parcel space addr data content =>
      refine ⟨state, reads, Or.inl rfl, rfl, tracks.ownPlain log slots ?_ sent ?_ tracks.answers⟩
      · simp [Parcel.sent, Event.isRecord]
      · simp [Parcel.readTag?, content]
  | acknowledged parcel notes content kinds =>
      refine ⟨state, reads, Or.inl rfl, rfl, tracks.ownPlain log slots ?_ sent nofun
        (tracks.answers.pop.1 (by rw [Parcel.completion?, content]))⟩
      · intro event member
        rcases List.mem_cons.mp member with rfl | later
        · rfl
        · obtain ⟨note, rfl⟩ := kinds event later
          rfl
  | passed parcel message content unserved =>
      refine ⟨state, reads, Or.inl rfl, rfl, tracks.ownPlain log slots ?_ sent ?_
        (tracks.answers.pop.1 ?_)⟩
      · simp [Parcel.sent, Event.isRecord]
      · simp
      · cases message with
        | completion tag data =>
            exact absurd unserved (tracks.occupied sound (by rw [Parcel.completion?, content]))
        | _ => rw [Parcel.completion?, content]
  | asked parcel answer space addr target length tag cb ret content route returned answered =>
      refine ⟨state, reads, Or.inl rfl, rfl, tracks.ownPlain log slots ?_ sent ?_
        (tracks.answers.pop.1 (by rw [Parcel.completion?, content]))⟩
      · simp [Parcel.sent, Event.isRecord]
      · have silent : answer.readTag? = none := by
          by_cases success : ret.error = 0 <;> simp [Parcel.readTag?, answered, answerOf, success]
        simp [silent]
  | wrote parcel space addr target data cb content route =>
      refine ⟨state, reads, Or.inl rfl, rfl, tracks.ownPlain log slots ?_ sent ?_
        (tracks.answers.pop.1 (by rw [Parcel.completion?, content]))⟩
      · simp [Parcel.sent, Event.isRecord]
      · simp
  | ended parcel tag data cb content stored =>
      obtain ⟨next, longer, step, same, tracked⟩ :=
        tracks.finish sound log slots (by rw [Parcel.completion?, content]) stored
      exact ⟨next, longer, Or.inr step, same, tracked⟩

end

section

variable {own : World σ} {peer after : World τ} {toPeer toOwn : List Parcel}
variable {state : State (Fin 32) Nat Nat} {reads : List Read} {events : List Event}

theorem receivedCount_append (first second : List Event) :
    receivedCount (first ++ second) = receivedCount first + receivedCount second := by
  rw [receivedCount, List.filterMap_append, List.length_append]
  rfl

theorem Tracks.peerTurn {popped pushed rest : List Parcel} {next : State (Fin 32) Nat Nat}
    (tracks : Tracks own peer (popped ++ rest) toOwn state reads)
    (log : after.log = peer.log ++ events)
    (received : events.filterMap Event.packet? = popped.map Parcel.bytes)
    (requests : Requested own.log (receivedCount peer.log + popped.length) rest next.requests)
    (answers : Answered own.log after.log (toOwn ++ pushed) next.answers)
    (table : next.table = state.table) (issued : next.issued = state.issued)
    (results : next.results = state.results) :
    Tracks own after rest (toOwn ++ pushed) next reads := by
  refine ⟨?_, ?_, answers, by rw [table]; exact tracks.table, by rw [issued]; exact tracks.issued,
    by rw [results]; exact tracks.results, fun read member => ?_, tracks.covered⟩
  · rw [tracks.conserved, log, List.filterMap_append, received, List.map_append, List.append_assoc]
  · rw [log, receivedCount_append, show receivedCount events = popped.length from ?_]
    · exact requests
    · rw [receivedCount, received, List.length_map]
  · rw [log, ← List.append_nil own.log]
    exact (tracks.ended read member).grows [] events

theorem Tracks.peerPlain {popped pushed rest : List Parcel}
    (tracks : Tracks own peer (popped ++ rest) toOwn state reads)
    (log : after.log = peer.log ++ events)
    (received : events.filterMap Event.packet? = popped.map Parcel.bytes)
    (requests : Requested own.log (receivedCount peer.log + popped.length) rest state.requests)
    (others : ∀ parcel ∈ pushed, parcel.completion? = none) :
    Tracks own after rest (toOwn ++ pushed) state reads := by
  refine tracks.peerTurn log received requests ?_ rfl rfl rfl
  have answers := tracks.answers.grows [] events
  rw [List.append_nil, ← log] at answers
  rw [← List.append_nil state.answers]
  exact answers.append (answered_others _ _ others)

theorem Tracks.serve {parcel answer : Parcel} {rest : List Parcel}
    (tracks : Tracks own peer (parcel :: rest) toOwn state reads) {tag : Fin 32} {cb : FnPtr}
    {addr : BitVec 64} {data : Bytes}
    (log : after.log = peer.log ++ [.packet parcel.bytes, (ackParcel parcel.bytes).sent,
      .readCb cb addr data.length 0 data, answer.sent])
    (said : parcel.readTag? = some tag) (answered : answer.completion? = some (tag, data)) :
    ∃ next, Step state next ∧ next.dropped = state.dropped ∧
      Tracks own after rest (toOwn ++ [ackParcel parcel.bytes, answer]) next reads := by
  obtain ⟨id, callback, later, tokens, stored, position, requests⟩ := tracks.requests.pop.2 tag said
  have ran : after.log[peer.log.length + 2]? = some (.readCb cb addr data.length 0 data) := by
    rw [log, List.getElem?_append_right (by omega), Nat.add_sub_cancel_left]
    rfl
  refine ⟨_, .serve (tag, id) later (peer.log.length + 2) tokens, rfl, ?_⟩
  have tracked : Tracks own peer ([parcel] ++ rest) toOwn state reads := tracks
  refine tracked.peerTurn log rfl requests ?_ rfl rfl rfl
  have answers := tracks.answers.grows [] [.packet parcel.bytes, (ackParcel parcel.bytes).sent,
    .readCb cb addr data.length 0 data, answer.sent]
  rw [List.append_nil, ← log] at answers
  refine answers.append (.other rfl (.completion answered stored ran ?_ .nil))
  rw [position, log, List.take_append, List.take_of_length_le (by omega), Nat.add_sub_cancel_left,
    receivedCount_append]
  rfl

theorem Tracks.drop {parcel : Parcel} {rest pushed : List Parcel}
    (tracks : Tracks own peer (parcel :: rest) toOwn state reads) {tag : Fin 32}
    (log : after.log = peer.log ++ events)
    (received : events.filterMap Event.packet? = [parcel].map Parcel.bytes)
    (said : parcel.readTag? = some tag) (others : ∀ other ∈ pushed, other.completion? = none) :
    ∃ next, Step state next ∧ Tracks own after rest (toOwn ++ pushed) next reads := by
  obtain ⟨id, callback, later, tokens, -, -, requests⟩ := tracks.requests.pop.2 tag said
  have tracked : Tracks own peer ([parcel] ++ rest) toOwn state reads := tracks
  refine ⟨_, .drop (tag, id) later tokens, tracked.peerTurn log received requests ?_ rfl rfl rfl⟩
  have answers := tracks.answers.grows [] events
  rw [List.append_nil, ← log] at answers
  rw [← List.append_nil state.answers]
  exact answers.append (answered_others _ _ others)

def Lossless (popped pushed : List Parcel) : Prop :=
  ∀ parcel ∈ popped, parcel.readTag? ≠ none → ∃ answer ∈ pushed, answer.completion? ≠ none

theorem Tracks.peersTurn {cbs : Callbacks τ} {popped pushed rest : List Parcel}
    (tracks : Tracks own peer (popped ++ rest) toOwn state reads)
    (turn : Turn cbs peer popped events pushed after.view) (log : after.log = peer.log ++ events) :
    ∃ next, (next = state ∨ Step state next) ∧
      (Lossless popped pushed → next.dropped = state.dropped) ∧
      Tracks own after rest (toOwn ++ pushed) next reads := by
  have received := turn.received
  have lost {parcel : Parcel} {tag : Fin 32} {sent : List Parcel} {next : State (Fin 32) Nat Nat}
      (said : parcel.readTag? = some tag) (silent : ∀ other ∈ sent, other.completion? = none)
      (lossless : Lossless [parcel] sent) : next.dropped = state.dropped := by
    obtain ⟨answer, member, found⟩ := lossless parcel (by simp) (by simp [said])
    exact absurd (silent answer member) found
  generalize after.view = view at turn
  cases turn with
  | idle =>
      exact ⟨state, Or.inl rfl, fun _ => rfl, tracks.peerPlain log received tracks.requests nofun⟩
  | issuedRead parcel space addr length cb content free =>
      refine ⟨state, Or.inl rfl, fun _ => rfl, tracks.peerPlain log received tracks.requests ?_⟩
      simp [Parcel.completion?, content]
  | issuedWrite parcel space addr data content =>
      refine ⟨state, Or.inl rfl, fun _ => rfl, tracks.peerPlain log received tracks.requests ?_⟩
      simp [Parcel.completion?, content]
  | acknowledged parcel notes content kinds =>
      exact ⟨state, Or.inl rfl, fun _ => rfl, tracks.peerPlain log received
        (tracks.requests.pop.1 (by rw [Parcel.readTag?, content])) nofun⟩
  | passed parcel message content unserved =>
      have silent : ∀ other ∈ [ackParcel parcel.bytes], other.completion? = none := by simp
      cases said : parcel.readTag? with
      | none =>
          exact ⟨state, Or.inl rfl, fun _ => rfl,
            tracks.peerPlain log received (tracks.requests.pop.1 said) silent⟩
      | some tag =>
          obtain ⟨next, step, tracked⟩ := tracks.drop log received said silent
          exact ⟨next, Or.inr step, lost said silent, tracked⟩
  | asked parcel answer space addr target length tag cb ret content route returned answered =>
      have said : parcel.readTag? = some tag := by rw [Parcel.readTag?, content]
      by_cases success : ret.error = 0
      · have counted : (length : Int) = (fillBuffer length ret.data).length := by
          rw [length_fillBuffer]
        rw [success,
          show (Event.readCb cb (target + misalignment addr) length 0
            (fillBuffer length ret.data)) =
          .readCb cb (target + misalignment addr) (fillBuffer length ret.data).length 0
            (fillBuffer length ret.data) by rw [← counted]] at log
        obtain ⟨next, step, same, tracked⟩ := tracks.serve log said
          (by simp [Parcel.completion?, answered, answerOf, success])
        exact ⟨next, Or.inr step, fun _ => same, tracked⟩
      · have failed : answer.completion? = none := by
          simp [Parcel.completion?, answered, answerOf, success]
        have silent : ∀ other ∈ [ackParcel parcel.bytes, answer], other.completion? = none := by
          simp [failed]
        obtain ⟨next, step, tracked⟩ := tracks.drop log received said silent
        exact ⟨next, Or.inr step, lost said silent, tracked⟩
  | wrote parcel space addr target data cb content route =>
      exact ⟨state, Or.inl rfl, fun _ => rfl, tracks.peerPlain log received
        (tracks.requests.pop.1 (by rw [Parcel.readTag?, content])) (by simp)⟩
  | ended parcel tag data cb content stored =>
      exact ⟨state, Or.inl rfl, fun _ => rfl, tracks.peerPlain log received
        (tracks.requests.pop.1 (by rw [Parcel.readTag?, content])) (by simp)⟩

end

/-! Both sides, over whole runs. -/

theorem Tracks.congr {own nextOwn : World σ} {peer nextPeer : World τ} {toPeer toOwn : List Parcel}
    {state : State (Fin 32) Nat Nat} {reads : List Read}
    (tracks : Tracks own peer toPeer toOwn state reads) (log : nextOwn.log = own.log)
    (slots : nextOwn.client.completionCb = own.client.completionCb)
    (peerLog : nextPeer.log = peer.log) :
    Tracks nextOwn nextPeer toPeer toOwn state reads := by
  obtain ⟨conserved, requests, answers, table, issued, results, ended, covered⟩ := tracks
  rw [← log, ← peerLog] at conserved
  rw [← log, ← peerLog] at requests
  rw [← log, ← peerLog] at answers
  rw [← log, ← slots] at table
  rw [← log] at issued covered
  rw [← log, ← peerLog] at ended
  exact ⟨conserved, requests, answers, table, issued, results, ended, covered⟩

section

variable {ρ : Side → Type} {cbs : (side : Side) → Callbacks (ρ side)} {before after : System ρ}
variable {queues : Queues}

theorem Move.tracks {mover side : Side} {popped rest pushed : List Parcel}
    (move : Move cbs mover before after popped pushed) (taken : queues mover = popped ++ rest)
    {state : State (Fin 32) Nat Nat} {reads : List Read} (sound : Exchange.Sound state)
    (tracks : Tracks (before side) (before side.peer) (queues side.peer) (queues side)
      state reads) :
    ∃ next longer, (next = state ∨ Step state next) ∧
      (mover = side ∨ Lossless popped pushed → next.dropped = state.dropped) ∧
      Tracks (after side) (after side.peer) (queues.moved mover rest pushed side.peer)
        (queues.moved mover rest pushed side) next longer := by
  obtain ⟨events, turn, log⟩ := move.turn
  obtain ⟨client, -, peerLog⟩ := move.peer
  rcases mover.eq_or_peer side with rfl | rfl
  · rw [taken] at tracks
    obtain ⟨next, longer, step, same, tracked⟩ := tracks.ownTurn sound turn log
    rw [Queues.moved_self, Queues.moved_peer]
    exact ⟨next, longer, step, fun _ => same, tracked.congr rfl rfl peerLog⟩
  · have given := queues.moved_peer side.peer rest pushed
    rw [Side.peer_peer] at given client peerLog
    rw [taken] at tracks
    obtain ⟨next, step, same, tracked⟩ := tracks.peersTurn turn log
    rw [Queues.moved_self, given]
    refine ⟨next, reads, step, fun kept => same (kept.resolve_left side.peer_ne), ?_⟩
    exact tracked.congr peerLog (by rw [client]) rfl

/-- The packets arrive in the order they were sent; every invocation of a completion callback ends
a read of its own; and a read whose callback was not invoked still holds its slot. -/
structure ReadsMatched (own : World σ) (peer : World τ) : Prop where
  order : peer.log.filterMap Event.packet? <+: own.log.filterMap Event.sentPacket?
  matching : ∃ reads : List Read, (reads.map Read.issued).Nodup ∧
    (∀ read ∈ reads, Ends own.log peer.log read) ∧
    (∀ (done : Nat) (tag : Fin 32) (cb : FnPtr) (code : Int) (data : Bytes) (length : Int),
      own.log[done]? = some (.completion tag cb code data length) →
      ∃ read ∈ reads, read.done = done) ∧
    (∀ (issued : Nat) (tag : Fin 32) (cb : FnPtr), own.log[issued]? = some (.stored tag (some cb)) →
      issued ∈ reads.map Read.issued ∨ own.client.completionCb tag = some cb)

theorem Tracks.finished_eq {own : World σ} {peer : World τ} {toPeer toOwn : List Parcel}
    {state : State (Fin 32) Nat Nat} {reads : List Read}
    (tracks : Tracks own peer toPeer toOwn state reads) :
    state.finished = reads.map Read.issued := by
  rw [State.finished, tracks.results, List.map_map]
  rfl

theorem Tracks.ended_of_idle {own : World σ} {peer : World τ} {state : State (Fin 32) Nat Nat}
    {reads : List Read} (sound : Exchange.Sound state) (tracks : Tracks own peer [] [] state reads)
    (complete : state.dropped = []) {id : Nat} {tag : Fin 32} {cb : FnPtr}
    (stored : own.log[id]? = some (.stored tag (some cb))) : ∃ read ∈ reads, read.issued = id := by
  have requests := tracks.requests
  have answers := tracks.answers
  generalize waiting : state.requests = tokens at requests
  generalize returning : state.answers = replies at answers
  cases requests
  cases answers
  rcases sound.traced id ((tracks.issued id).mpr ⟨tag, cb, stored⟩) with done | lost |
    ⟨token, among, -⟩
  · rw [tracks.finished_eq] at done
    exact List.mem_map.mp done
  · rw [complete] at lost
    cases lost
  · rw [State.tokens, waiting, returning] at among
    cases among

theorem Tracks.matched {own : World σ} {peer : World τ} {toPeer toOwn : List Parcel}
    {state : State (Fin 32) Nat Nat} {reads : List Read} (sound : Exchange.Sound state)
    (tracks : Tracks own peer toPeer toOwn state reads) : ReadsMatched own peer := by
  have finished := tracks.finished_eq
  refine ⟨?_, reads, ?_, tracks.ended, tracks.covered, fun issued tag cb stored => ?_⟩
  · rw [tracks.conserved]
    exact List.prefix_append _ _
  · rw [← finished]
    exact sound.once
  · rcases sound.kept issued ((tracks.issued issued).mpr ⟨tag, cb, stored⟩) with done |
      ⟨holder, held⟩
    · rw [← finished]
      exact Or.inl done
    · obtain ⟨callback, slot, same⟩ := tracks.table holder issued held
      rw [stored] at same
      cases same
      exact Or.inr slot

/-- A connection on which nothing has happened yet. The slots may hold anything. -/
structure Connected (system : System ρ) : Prop where
  log : ∀ side, (system side).log = []
  incoming : ∀ side, (system side).sock.incoming = []
  recvs : ∀ side, (system side).sock.recvs = []
  sends : ∀ side, (system side).sock.SendsAll

theorem tracks_start {own : World σ} {peer : World τ} (log : own.log = [])
    (peerLog : peer.log = []) :
    Tracks own peer [] [] State.start [] :=
  ⟨by rw [log, peerLog]; rfl, .nil _, .nil, nofun, by simp [log, State.start], rfl, nofun,
    by simp [log]⟩

def Matching (system : System ρ) : Prop :=
  ∃ queues, Linked system queues ∧ ∀ side, ∃ state reads, Exchange.Sound state ∧
    Tracks (system side) (system side.peer) (queues side.peer) (queues side) state reads

theorem Connected.matching {system : System ρ} (connected : Connected system) :
    Matching system := by
  refine ⟨fun _ => [], ⟨connected.incoming, connected.recvs, connected.sends⟩, fun side => ?_⟩
  exact ⟨State.start, [], sound_start, tracks_start (connected.log side) (connected.log side.peer)⟩

theorem Matching.step (quiet : ∀ side, (cbs side).Quiet) (matching : Matching before)
    {action : SystemAction} (permitted : Permitted before action) :
    ∃ after, systemStep cbs before action = .ok after ∧ Matching after := by
  obtain ⟨queues, linked, tracked⟩ := matching
  obtain ⟨mover, after, popped, rest, pushed, ok, taken, move, still⟩ := linked.step quiet permitted
  refine ⟨after, ok, _, still, fun side => ?_⟩
  obtain ⟨state, reads, sound, tracks⟩ := tracked side
  obtain ⟨next, longer, step, -, moved⟩ := move.tracks taken sound tracks
  refine ⟨next, longer, ?_, moved⟩
  rcases step with rfl | step
  · exact sound
  · exact sound.step step

/-- In every interleaving of requests and packets on a connection, in both directions, each
invocation of a completion callback belongs to a read of its own and carries what the read callback
of the peer produced for that read. -/
theorem completions_matched (quiet : ∀ side, (cbs side).Quiet) {start : System ρ}
    (connected : Connected start) {actions : List SystemAction}
    (permitted : Runs.Along (systemStep cbs) Permitted start actions) :
    ∃ final, Runs.run (systemStep cbs) start actions = .ok final ∧
      ∀ side, ReadsMatched (final side) (final side.peer) := by
  have progress : ∀ (system : System ρ) (action : SystemAction), Matching system →
      Permitted system action → ∃ next, systemStep cbs system action = .ok next ∧ Matching next :=
    fun system action matching allowed => matching.step quiet allowed
  obtain ⟨final, ran, queues, linked, tracked⟩ :=
    Runs.run_total progress connected.matching permitted
  refine ⟨final, ran, fun side => ?_⟩
  obtain ⟨state, reads, sound, tracks⟩ := tracked side
  exact tracks.matched sound

end

def pairStart : System fun _ => Unit := fun _ =>
  { clientWith [] with client := { (clientWith []).client with cfg0ReadCb := some 0 } }

def pairActions : List SystemAction :=
  [.request .left (.config0Read 0 4 (some 7)), .process .right, .process .left, .process .left]

def finalLog {ρ : Side → Type} (side : Side) : Outcome (System ρ) → List Event
  | .ok final => (final side).log
  | .error _ => []

theorem config_read_matched :
    ∃ final, Runs.run (systemStep fun _ => silentCallbacks) pairStart pairActions = .ok final ∧
      (final .left).log.getLast? = some (.completion 0 7 0 [0, 0, 0, 0] 4) ∧
      ReadsMatched (final .left) (final .right) := by
  have quiet : ∀ side : Side, (silentCallbacks : Callbacks Unit).Quiet := fun _ =>
    ⟨fun _ _ _ _ => rfl, fun _ _ _ _ _ => rfl, fun _ _ _ _ _ => rfl⟩
  have connected : Connected pairStart := ⟨fun _ => rfl, fun _ => rfl, fun _ => rfl, fun _ => nofun⟩
  have permitted : Runs.Along (systemStep fun _ => silentCallbacks) Permitted pairStart
      pairActions :=
    ⟨⟨nofun, by decide, rfl, by decide, by decide, by decide⟩, fun _ _ => ⟨trivial, fun _ _ =>
      ⟨trivial, fun _ _ => ⟨trivial, fun _ _ => trivial⟩⟩⟩⟩
  obtain ⟨final, ran, matched⟩ := completions_matched quiet connected permitted
  have last :
      (finalLog .left
        (Runs.run (systemStep fun _ => silentCallbacks) pairStart pairActions)).getLast? =
      some (.completion 0 7 0 [0, 0, 0, 0] 4) := by decide +kernel
  rw [ran] at last
  exact ⟨final, ran, last, matched .left⟩

end WarpPipe
