import WarpPipe.MemoryMock

/-!
A host that uses the memory mock over one connection. The host issues reads and writes at any time;
a read is promised what the arrays hold after the writes that were issued before it.
-/

namespace WarpPipe

open ByteLayout Exchange

variable {α : Type}

/-- The host is on the left and the device on the right. -/
abbrev MockApp (α : Type) : Side → Type
  | .left => α
  | .right => MockMemory

def mockSides (host : Callbacks α) (config : Callbacks MockMemory) :
    (side : Side) → Callbacks (MockApp α side)
  | .left => host
  | .right => mockCallbacks config

structure Promise where
  issued : Nat
  packet : Nat
  writes : List (Nat × Bytes)
  bar : MockBar
  offset : Nat
  length : Nat

def Promise.data (promise : Promise) (origin : MockMemory) : Bytes :=
  (origin.after promise.writes).read promise.bar promise.offset promise.length

structure Session (α : Type) where
  system : System (MockApp α)
  writes : List (Nat × Bytes)
  promised : List Promise

inductive Access where
  | write (junk : Nat → Byte) (offset : Nat) (data : Bytes)
  | read (bar : MockBar) (offset length : Nat) (cb : FnPtr)
  | process (side : Side)

def Access.action : Access → SystemAction
  | .write junk offset data =>
      .request .left (.write junk 1 (BitVec.ofNat 64 offset) data data.length)
  | .read bar offset length cb =>
      .request .left (.read bar.index (BitVec.ofNat 64 offset) length (some cb))
  | .process side => .process side

def Session.noted (session : Session α) : Access → Session α
  | .write _ offset data => { session with writes := session.writes ++ [(offset, data)] }
  | .read bar offset length _ => { session with promised := session.promised ++
      [⟨(session.system .left).log.length + 1, sentCount (session.system .left).log + 1,
        session.writes, bar, offset, length⟩] }
  | .process _ => session

def sessionStep (host : Callbacks α) (config : Callbacks MockMemory) (session : Session α)
    (access : Access) : Outcome (Session α) :=
  (systemStep (mockSides host config) session.system access.action).map fun system =>
    { session.noted access with system := system }

def Allowed (session : Session α) : Access → Prop
  | .write _ offset data => 1 ≤ data.length ∧ offset + data.length ≤ MockBar.bar1.size
  | .read bar offset length _ => 1 ≤ length ∧ offset + length ≤ bar.size ∧
      (session.system .left).client.completionCb (session.system .left).client.readTag = none
  | .process _ => True

/-! The parcels on their way to the device. -/

/-- The device has received `number` packets and carried out the writes `done`. When it handles the
parcels that wait, each read finds the writes it was promised, and `writes` is done in the end. -/
inductive Pending (windows : MockBar → Window) (promised : List Promise)
    (writes : List (Nat × Bytes)) :
    Nat → List (Nat × Bytes) → List Parcel → Prop where
  | nil (number : Nat) : Pending windows promised writes number writes []
  | ack {number : Nat} {done : List (Nat × Bytes)} {parcel : Parcel} {rest : List Parcel}
      (content : parcel.content = .ack)
      (later : Pending windows promised writes (number + 1) done rest) :
      Pending windows promised writes number done (parcel :: rest)
  | write {number : Nat} {done : List (Nat × Bytes)} {parcel : Parcel} {rest : List Parcel}
      {addr : BitVec 64} {offset : Nat} {data : Bytes}
      (content : parcel.content = .message (.write .memory addr data))
      (address : addr.toNat = (windows .bar1).base + offset) (positive : 1 ≤ data.length)
      (inside : offset + data.length ≤ MockBar.bar1.size)
      (later : Pending windows promised writes (number + 1) (done ++ [(offset, data)]) rest) :
      Pending windows promised writes number done (parcel :: rest)
  | read {number : Nat} {parcel : Parcel} {rest : List Parcel} {addr : BitVec 64} {tag : Fin 32}
      (promise : Promise) (member : promise ∈ promised) (packet : promise.packet = number + 1)
      (content : parcel.content = .message (.read .memory addr promise.length tag))
      (address : addr.toNat = (windows promise.bar).base + promise.offset)
      (positive : 1 ≤ promise.length) (inside : promise.offset + promise.length ≤ promise.bar.size)
      (later : Pending windows promised writes (number + 1) promise.writes rest) :
      Pending windows promised writes number promise.writes (parcel :: rest)

section

variable {windows : MockBar → Window} {promised : List Promise} {writes : List (Nat × Bytes)}
variable {number : Nat} {done : List (Nat × Bytes)} {parcels : List Parcel}

theorem Pending.mono {more : List Promise} (kept : promised ⊆ more)
    (pending : Pending windows promised writes number done parcels) :
    Pending windows more writes number done parcels := by
  induction pending with
  | nil number => exact .nil number
  | ack content _ ih => exact .ack content ih
  | write content address positive inside _ ih => exact .write content address positive inside ih
  | read promise member packet content address positive inside _ ih =>
      exact .read promise (kept member) packet content address positive inside ih

theorem Pending.append {total : List (Nat × Bytes)} {pushed : List Parcel}
    (pending : Pending windows promised writes number done parcels)
    (more : Pending windows promised total (number + parcels.length) writes pushed) :
    Pending windows promised total number done (parcels ++ pushed) := by
  have shift (number : Nat) (rest : List Parcel) (parcel : Parcel) :
      number + (parcel :: rest).length = number + 1 + rest.length := by
    rw [List.length_cons]
    omega
  induction pending with
  | nil number => exact more
  | ack content _ ih =>
      rw [shift] at more
      exact .ack content (ih more)
  | write content address positive inside _ ih =>
      rw [shift] at more
      exact .write content address positive inside (ih more)
  | read promise member packet content address positive inside _ ih =>
      rw [shift] at more
      exact .read promise member packet content address positive inside (ih more)

theorem pending_acks (number : Nat) (acks : ∀ parcel ∈ parcels, parcel.content = .ack) :
    Pending windows promised writes number writes parcels := by
  induction parcels generalizing number with
  | nil => exact .nil number
  | cons parcel rest ih =>
      exact .ack (acks parcel (by simp))
        (ih _ fun other member => acks other (List.mem_cons_of_mem _ member))

theorem Pending.isPrefix (pending : Pending windows promised writes number done parcels) :
    done <+: writes := by
  induction pending with
  | nil number => exact List.prefix_refl _
  | ack _ _ ih => exact ih
  | write _ _ _ _ _ ih => exact (List.prefix_append _ _).trans ih
  | read _ _ _ _ _ _ _ _ ih => exact ih

end

structure Promises (origin : MockMemory) (host device : List Event) (promised : List Promise) :
    Prop where
  placed : ∀ promise ∈ promised, ∃ tag cb, host[promise.issued]? = some (.stored tag (some cb)) ∧
    sentCount (host.take promise.issued) = promise.packet
  listed : ∀ issued tag cb, host[issued]? = some (.stored tag (some cb)) →
    ∃ promise ∈ promised, promise.issued = issued
  distinct : (promised.map Promise.packet).Nodup
  served : ∀ asked cb addr length error data,
    device[asked]? = some (.readCb cb addr length error data) →
    ∃ promise ∈ promised, promise.packet = receivedCount (device.take asked) ∧
      data = promise.data origin

section

variable {origin : MockMemory} {host device events : List Event} {promised : List Promise}

theorem Promises.hostGrows (promises : Promises origin host device promised)
    (plain : ∀ tag cb, .stored tag cb ∉ events) :
    Promises origin (host ++ events) device promised := by
  refine ⟨fun promise member => ?_, fun issued tag cb stored => ?_, promises.distinct,
    promises.served⟩
  · obtain ⟨tag, cb, stored, number⟩ := promises.placed promise member
    exact ⟨tag, cb, getElem?_grows _ stored, by rw [take_grows _ stored, number]⟩
  · exact promises.listed issued tag cb (getElem?_of_grown (plain tag (some cb)) stored)

theorem sentCount_take_le (log : List Event) (index : Nat) :
    sentCount (log.take index) ≤ sentCount log :=
  ((List.take_sublist index log).filterMap _).length_le

theorem Promises.issue (promises : Promises origin host device promised) {parcel : Parcel}
    {tag : Fin 32} {cb : FnPtr} {promise : Promise} (issued : promise.issued = host.length + 1)
    (packet : promise.packet = sentCount host + 1) :
    Promises origin (host ++ [parcel.sent, .stored tag (some cb)]) device
      (promised ++ [promise]) := by
  have stored : (host ++ [parcel.sent, .stored tag (some cb)])[host.length + 1]? =
      some (.stored tag (some cb)) := by
    rw [List.getElem?_append_right (by omega), Nat.add_sub_cancel_left]
    rfl
  refine ⟨fun other member => ?_, fun place other callback found => ?_, ?_,
    fun asked cb addr length error data ran => ?_⟩
  · rcases List.mem_append.mp member with old | new
    · obtain ⟨oldTag, oldCb, held, number⟩ := promises.placed other old
      exact ⟨oldTag, oldCb, getElem?_grows _ held, by rw [take_grows _ held, number]⟩
    · rw [List.mem_singleton.mp new, issued, packet]
      refine ⟨tag, cb, stored, ?_⟩
      rw [List.take_append, List.take_of_length_le (by omega), Nat.add_sub_cancel_left, sentCount,
        List.filterMap_append, List.length_append]
      rfl
  · rcases record_of_snoc (show ∀ event ∈ [parcel.sent], event.isRecord = false by
        simp [Parcel.sent, Event.isRecord]) rfl found with old | ⟨last, -⟩
    · obtain ⟨known, member, same⟩ := promises.listed place other callback old
      exact ⟨known, List.mem_append_left _ member, same⟩
    · exact ⟨promise, List.mem_append_right _ (List.mem_singleton.mpr rfl), issued.trans last.symm⟩
  · rw [List.map_append]
    refine List.nodup_append.mpr ⟨promises.distinct, List.nodup_singleton _,
      fun number old other new => ?_⟩
    obtain ⟨known, member, rfl⟩ := List.mem_map.mp old
    obtain ⟨-, -, -, number⟩ := promises.placed known member
    have early := sentCount_take_le host known.issued
    rw [List.mem_singleton.mp new]
    omega
  · obtain ⟨known, member, same⟩ := promises.served asked cb addr length error data ran
    exact ⟨known, List.mem_append_left _ member, same⟩

def Serves (origin : MockMemory) (promised : List Promise) (number : Nat) (events : List Event) :
    Prop :=
  ∀ place cb addr length error data, events[place]? = some (.readCb cb addr length error data) →
    ∃ promise ∈ promised, promise.packet = number + receivedCount (events.take place) ∧
      data = promise.data origin

theorem Promises.deviceGrows (promises : Promises origin host device promised)
    (serves : Serves origin promised (receivedCount device) events) :
    Promises origin host (device ++ events) promised := by
  refine ⟨promises.placed, promises.listed, promises.distinct,
    fun asked cb addr length error data ran => ?_⟩
  by_cases old : asked < device.length
  · rw [List.getElem?_append_left old] at ran
    rw [List.take_append_of_le_length (Nat.le_of_lt old)]
    exact promises.served asked cb addr length error data ran
  · rw [List.getElem?_append_right (by omega)] at ran
    rw [List.take_append, List.take_of_length_le (by omega), receivedCount_append]
    exact serves _ cb addr length error data ran

theorem serves_nothing (number : Nat)
    (plain : ∀ cb addr length error data, .readCb cb addr length error data ∉ events) :
    Serves origin promised number events := fun _ cb addr length error data found =>
  absurd (List.mem_of_getElem? found) (plain cb addr length error data)

end

section

variable {config : Callbacks MockMemory} {windows : MockBar → Window} {promised : List Promise}
variable {writes : List (Nat × Bytes)} {number : Nat} {done : List (Nat × Bytes)}

theorem mock_read_calls (bar : MockBar) {cb : FnPtr}
    (registered : (barsConfig bar.index).readCb = some cb) (memory : MockMemory) (addr : BitVec 64)
    (length : Int) :
    ((mockCallbacks config).read cb memory addr length).calls = [] := by
  simp only [mockCallbacks, if_pos (readCb_own bar registered)]
  split <;> rfl

theorem mock_write_calls (memory : MockMemory) (addr : BitVec 64) (data : Bytes) (length : Int) :
    ((mockCallbacks config).write writeBarCb1 memory addr data length).calls = [] := by
  simp only [mockCallbacks, if_true]
  split <;> rfl

theorem Pending.calm {host device : Client} (wired : Wired host device windows)
    {parcels : List Parcel} (pending : Pending windows promised writes number done parcels) :
    ∀ parcel ∈ parcels.head?, (mockCallbacks config).Calm device parcel.content := by
  intro parcel first
  cases pending with
  | nil => cases first
  | ack content =>
      cases first
      rw [content]
      trivial
  | write content address positive inside =>
      cases first
      rw [content]
      intro cb routed memory addr data length
      obtain ⟨target, decoded, -⟩ := wired.target .bar1 address (by omega) device.barWriteCb
      rw [Client.writeRoute, decoded, show device.barWriteCb MockBar.bar1.index =
        _ from wired.writeCb] at routed
      cases routed
      exact mock_write_calls memory addr data length
  | read promise member packet content address positive inside =>
      cases first
      rw [content]
      intro cb routed memory addr length
      obtain ⟨target, decoded, -⟩ := wired.target promise.bar address (by omega) device.barReadCb
      rw [Client.readRoute, decoded, wired.readCb promise.bar] at routed
      exact mock_read_calls promise.bar routed memory addr length

structure Handled (windows : MockBar → Window) (origin : MockMemory) (promised : List Promise)
    (writes : List (Nat × Bytes)) (number : Nat) (popped rest pushed : List Parcel)
    (events : List Event) (memory : MockMemory) : Prop where
  memory : ∃ done, memory = origin.after done ∧
    Pending windows promised writes (number + popped.length) done rest
  serves : Serves origin promised number events
  replies : ∀ parcel ∈ pushed, parcel.content = .ack ∨
    ∃ tag data, parcel.content = .message (.completion tag data)
  lossless : Lossless popped pushed

section

variable {origin : MockMemory} {host : Client} {device : World MockMemory} {parcel : Parcel}
variable {rest pushed : List Parcel} {events : List Event} {view : View MockMemory}
variable (turn : Turn (mockCallbacks config) device [parcel] events pushed view)

include turn

theorem handled_ack (content : parcel.content = .ack) (memory : device.app = origin.after done)
    (later : Pending windows promised writes (number + 1) done rest) :
    Handled windows origin promised writes number [parcel] rest pushed events view.app := by
  obtain ⟨rfl, rfl, notes, rfl, kinds⟩ := turn.of_ack content
  refine ⟨⟨done, memory, later⟩, serves_nothing number fun cb addr length error data member =>
    ?_, nofun, ?_⟩
  · rcases List.mem_cons.mp member with clash | later
    · cases clash
    · obtain ⟨note, clash⟩ := kinds _ later
      cases clash
  · simp [Lossless, Parcel.readTag?, content]

variable (wired : Wired host device.client windows)

include wired

theorem handled_write {addr : BitVec 64} {offset : Nat} {data : Bytes}
    (content : parcel.content = .message (.write .memory addr data))
    (address : addr.toNat = (windows .bar1).base + offset) (positive : 1 ≤ data.length)
    (inside : offset + data.length ≤ MockBar.bar1.size) (memory : device.app = origin.after done)
    (later : Pending windows promised writes (number + 1) (done ++ [(offset, data)]) rest) :
    Handled windows origin promised writes number [parcel] rest pushed events view.app := by
  obtain ⟨target, decoded, told⟩ := wired.target .bar1 address (by omega) device.client.barWriteCb
  rw [show device.client.barWriteCb MockBar.bar1.index = some writeBarCb1 from wired.writeCb]
    at decoded
  obtain ⟨rfl, rfl, rfl⟩ :=
    turn.of_write content (show device.client.writeRoute .memory _ = _ from decoded)
  refine ⟨⟨_, ?_, later⟩, serves_nothing number (by simp [Parcel.sent]), ?_, ?_⟩
  · simp only [told, mock_write config device.app inside]
    rw [memory, MockMemory.after_concat]
  · simp [ackParcel]
  · simp [Lossless, Parcel.readTag?, content]

theorem handled_read {promise : Promise} {addr : BitVec 64} {tag : Fin 32}
    (member : promise ∈ promised) (packet : promise.packet = number + 1)
    (content : parcel.content = .message (.read .memory addr promise.length tag))
    (address : addr.toNat = (windows promise.bar).base + promise.offset)
    (positive : 1 ≤ promise.length) (inside : promise.offset + promise.length ≤ promise.bar.size)
    (memory : device.app = origin.after promise.writes)
    (later : Pending windows promised writes (number + 1) promise.writes rest) :
    Handled windows origin promised writes number [parcel] rest pushed events view.app := by
  obtain ⟨target, decoded, told⟩ :=
    wired.target promise.bar address (by omega) device.client.barReadCb
  obtain ⟨cb, registered⟩ : ∃ cb, (barsConfig promise.bar.index).readCb = some cb := by
    cases promise.bar <;> exact ⟨_, rfl⟩
  rw [wired.readCb, registered] at decoded
  have returned := mock_read config device.app promise.bar registered inside
  rw [← told] at returned
  obtain ⟨answer, answered, rfl, rfl, rfl⟩ := turn.of_read content
    (show device.client.readRoute .memory _ = _ from decoded) returned
  -- the callback fills the whole buffer, so nothing of the zeroed block is sent
  rw [fillBuffer_full (MockMemory.length_read ..)] at answered ⊢
  refine ⟨⟨_, memory, later⟩, fun place cb addr length error data found => ?_, ?_, ?_⟩
  · refine ⟨promise, member, ?_⟩
    match place with
    | 0 | 1 | 3 => cases found
    | 2 =>
        cases found
        exact ⟨packet, by rw [memory]; rfl⟩
  · intro parcel among
    simp only [List.mem_cons, List.not_mem_nil, or_false] at among
    rcases among with rfl | rfl
    · exact Or.inl rfl
    · exact Or.inr ⟨tag, _, answered⟩
  · intro _ _ _
    refine ⟨answer, by simp, ?_⟩
    rw [Parcel.completion?, answered]
    exact Option.some_ne_none _

theorem Pending.handled (memory : device.app = origin.after done)
    (pending : Pending windows promised writes number done (parcel :: rest)) :
    Handled windows origin promised writes number [parcel] rest pushed events view.app := by
  cases pending with
  | ack content later => exact handled_ack turn content memory later
  | write content address positive inside later =>
      exact handled_write turn wired content address positive inside memory later
  | read promise member packet content address positive inside later =>
      exact handled_read turn wired member packet content address positive inside memory later

end

end

end WarpPipe
