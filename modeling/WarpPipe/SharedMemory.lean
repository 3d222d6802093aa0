import WarpPipe.Hub
import WarpPipe.MemoryRefinement

/-!
Hosts that read and write the BARs of one memory mock, each over its own connection and each waiting
for its reads with `read_data`. They see one memory: the mock goes through the accesses of all hosts
one at a time, those of each host in the order of its program.
-/

namespace WarpPipe

open ByteLayout

variable {α : Type} {n : Nat}

inductive Script (α : Type) where
  | done (value : α)
  | read (barIdx : Fin 6) (addr : BitVec 64) (length : Nat) (buf : Bytes)
      (next : Int → Bytes → Script α)
  | write (junk : Nat → Byte) (barIdx : Fin 6) (addr : BitVec 64) (data : Bytes) (length : Nat)
      (next : Int → Script α)

def Script.program : Script α → HostProgram α
  | .done value => .done value
  | .read barIdx addr length buf next =>
    (readData barIdx addr length buf).bind fun (ret, buf) => (next ret buf).program
  | .write junk barIdx addr data length next =>
    (makeRequest (.write junk barIdx addr data length)).bind fun ret => (next ret).program

def mockBar? : Fin 6 → Option MockBar
  | 0 => some .bar0
  | 1 => some .bar1
  | _ => none

/-- BAR 0 has no write callback. -/
def MockMemory.store (memory : MockMemory) (bar : MockBar) (offset : Nat) (data : Bytes) :
    MockMemory :=
  match bar with
  | .bar0 => memory
  | .bar1 => memory.write offset data

/-- The next access, on a memory that nobody else uses meanwhile. Past the end of its BAR a read
returns zeros and a write is lost; a BAR that is not registered refuses both. -/
def Script.access (memory : MockMemory) : Script α → MockMemory × Script α
  | .done value => (memory, .done value)
  | .read barIdx addr length buf next =>
    match mockBar? barIdx with
    | none => (memory, next (-1) buf)
    | some bar => (memory, next length (overwrite buf 0 (memory.read bar addr.toNat length)))
  | .write _ barIdx addr data length next =>
    match mockBar? barIdx with
    | none => (memory, next (-1))
    | some bar => (memory.store bar addr.toNat (data.take length), next 0)

def Reaches (barIdx : Fin 6) (addr : BitVec 64) (length : Nat) : Prop :=
  ∀ bar, mockBar? barIdx = some bar → addr.toNat < bar.size ∧ 1 ≤ length ∧ length ≤ 4095 ∧
    addr.toNat % 4 + length ≤ 4096

inductive Script.Fits : Nat → Script α → Prop where
  | done (count : Nat) (value : α) : Fits count (.done value)
  | read {count : Nat} {barIdx : Fin 6} {addr : BitVec 64} {length : Nat} {buf : Bytes}
      {next : Int → Bytes → Script α} (room : length ≤ buf.length)
      (reaches : Reaches barIdx addr length)
      (rest : ∀ ret (after : Bytes), after.length = buf.length → Fits count (next ret after)) :
      Fits (count + 1) (.read barIdx addr length buf next)
  | write {count : Nat} {junk : Nat → Byte} {barIdx : Fin 6} {addr : BitVec 64} {data : Bytes}
      {length : Nat} {next : Int → Script α} (available : length ≤ data.length)
      (reaches : Reaches barIdx addr length) (rest : ∀ ret, Fits count (next ret)) :
      Fits (count + 1) (.write junk barIdx addr data length next)

structure Atomic (n : Nat) (α : Type) where
  memory : MockMemory
  script : Fin n → Script α

def Atomic.access (atomic : Atomic n α) (i : Fin n) : Atomic n α where
  memory := ((atomic.script i).access atomic.memory).1
  script := Function.update atomic.script i ((atomic.script i).access atomic.memory).2

def Atomic.after (atomic : Atomic n α) (order : List (Fin n)) : Atomic n α :=
  order.foldl Atomic.access atomic

theorem Atomic.after_append (atomic : Atomic n α) (first second : List (Fin n)) :
    atomic.after (first ++ second) = (atomic.after first).after second := List.foldl_append ..

theorem index_of_mockBar? {barIdx : Fin 6} {bar : MockBar} (found : mockBar? barIdx = some bar) :
    barIdx = bar.index := by
  match barIdx with
  | 0 | 1 =>
      cases found
      rfl
  | 2 | 3 | 4 | 5 => cases found

theorem readBar_clipped (bar : MockBar) {memory : Bytes} (size : memory.length = bar.size)
    {offset : Nat} (length : Nat) (inside : offset < bar.size) :
    ∃ data, readBar (barsConfig bar.index) memory (BitVec.ofNat 64 offset) length = .ok (0, data) ∧
      fillBuffer length data = (List.range length).map fun index =>
        getByte memory (offset + index) := by
  have small := bar.size_le
  have place : (BitVec.ofNat 64 offset).toNat = offset := by
    rw [BitVec.toNat_ofNat]
    omega
  refine ⟨slice memory offset (min length (bar.size - offset)), ?_, ?_⟩
  · rw [readBar, copyLength_eq bar (Nat.le_of_lt inside), Except.map, place]
  have copied : (slice memory offset (min length (bar.size - offset))).length =
      min length (bar.size - offset) := by
    rw [length_slice, size]
    omega
  apply buffer_ext
  · rw [length_fillBuffer, List.length_map, List.length_range]
  intro index bound
  rw [length_fillBuffer] at bound
  rw [fillBuffer, getByte_overwrite (by rw [copied, List.length_replicate]; omega), copied]
  have told : getByte ((List.range length).map fun index => getByte memory (offset + index)) index =
      getByte memory (offset + index) := by
    simp [getByte, bound]
  rw [told]
  by_cases within : index < bar.size - offset
  · rw [if_pos (by omega), getByte_slice (by omega), Nat.sub_zero]
  · rw [if_neg (by omega)]
    have past : memory.length ≤ offset + index := by omega
    simp [getByte, bound, past]

theorem writeBar1_clipped (memory : MockMemory) {offset : Nat} (data : Bytes)
    (inside : offset < MockBar.bar1.size) :
    memory.writeBar1 (BitVec.ofNat 64 offset) data data.length =
      .ok (memory.write offset data) := by
  have place : (BitVec.ofNat 64 offset).toNat = offset := by
    have small := MockBar.bar1.size_le
    rw [BitVec.toNat_ofNat]
    omega
  have size := memory.length_bar1
  have room : MockBar.bar1.size = 2048 := rfl
  have clipped : copyLength (barsConfig 1) (BitVec.ofNat 64 offset) data.length =
      .ok (some (min data.length (2048 - offset))) := copyLength_eq .bar1 (Nat.le_of_lt inside) _
  have fits : offset + (data.take (min data.length (2048 - offset))).length ≤
      memory.bar1.length := by
    rw [List.length_take, size]
    omega
  simp only [MockMemory.writeBar1, clipped, Except.map, writeBar, place, overwrite_eq_mapIdx fits,
    MockMemory.write, Except.ok.injEq, MockMemory.mk.injEq, true_and]
  apply List.ext_getElem
  · rw [List.length_mapIdx, List.length_mapIdx]
  intro index left right
  rw [List.length_mapIdx, size] at left
  simp only [List.getElem_mapIdx, List.length_take]
  by_cases hit : offset ≤ index ∧ index < offset + data.length
  · rw [if_pos hit, if_pos (by omega), getByte_take (by omega)]
  · rw [if_neg hit, if_neg (by omega)]

def memoryOf (device : Shared (MockDevice MockMemory)) : MockMemory := device.app.memory

structure Remembers {δ : Type} (cbs : Callbacks δ) (memory : δ → MockMemory) : Prop where
  mild : cbs.Mild
  read : ∀ (device : δ) (bar : MockBar) (cb : FnPtr) (offset length : Nat),
    (barsConfig bar.index).readCb = some cb → offset < bar.size →
    let ret := cbs.read cb device (BitVec.ofNat 64 offset) length
    ret.error = 0 ∧ fillBuffer length ret.data = (memory device).read bar offset length ∧
    memory ret.app = memory device
  write : ∀ (device : δ) (offset : Nat) (data : Bytes), offset < MockBar.bar1.size →
    let ret := cbs.write writeBarCb1 device (BitVec.ofNat 64 offset) data data.length
    ret.calls = [] ∧ memory ret.app = (memory device).write offset data

theorem mockApplication_mild (table : Fin 6 → BarEntry) {μ : Type} (bars : BarMemory μ) :
    (mockApplication table bars).callbacks.Mild := by
  refine ⟨fun cb shared addr length => mockApplication_read_calls cb shared addr length, ?_⟩
  intro cb shared addr data length call member
  simp only [Application.callbacks, mockApplication, ownCalls, List.mem_map, List.mem_filter]
    at member
  obtain ⟨_, ⟨⟨request, made, rfl⟩, -⟩, rfl⟩ := member
  by_cases config : cb = config0WritePtr
  · simp only [deviceCallbacks, if_pos config] at made
    exact config0WriteCb_registers made
  · rw [deviceCallbacks_write_calls config] at made
    cases made

theorem mock_remembers :
    Remembers (mockApplication mockTable mockBars).callbacks memoryOf := by
  refine ⟨mockApplication_mild _ _, fun shared bar cb offset length registered inside => ?_,
    fun shared offset data inside => ?_⟩
  · have size := shared.app.memory.length_bytes bar
    obtain ⟨copied, read, filled⟩ := readBar_clipped bar size length inside
    have answered : mockBars.read cb shared.app.memory (BitVec.ofNat 64 offset) length =
        .ok (0, copied) := by
      cases bar <;> cases registered <;> exact read
    have other : cb ≠ config0ReadPtr := by
      rcases readCb_own bar registered with rfl | rfl <;> decide
    simp only [Application.callbacks, mockApplication, deviceCallbacks, if_neg other, answered]
    exact ⟨trivial, filled, rfl⟩
  · have stored : mockBars.write writeBarCb1 shared.app.memory (BitVec.ofNat 64 offset)
        data data.length = .ok (shared.app.memory.write offset data) :=
          writeBar1_clipped shared.app.memory data inside
    simp only [Application.callbacks, mockApplication, deviceCallbacks,
      if_neg (show writeBarCb1 ≠ config0WritePtr by decide), stored]
    exact ⟨rfl, rfl⟩

theorem mock_remembers_at (ptrs : Fin n → Nat) (i : Fin n) :
    Remembers (hostsAndMock ptrs i .right) memoryOf :=
  ⟨⟨fun cb _ => mock_remembers.mild.read cb _, fun cb _ => mock_remembers.mild.write cb _⟩,
    fun shared => mock_remembers.read { shared with self := ptrs i },
    fun shared => mock_remembers.write { shared with self := ptrs i }⟩

/-- A host and the mock hold the BARs of the mock at the same places, and the host holds no
other. -/
structure Attached (host device : Registry) (windows : MockBar → Window) : Prop where
  wired : ∃ hostClient deviceClient : Client, hostClient.registry = host ∧
    deviceClient.registry = device ∧ Wired hostClient deviceClient windows
  unset : ∀ barIdx, mockBar? barIdx = none → host.bar barIdx = 0
  readOnly : device.barWriteCb 0 = none

section

variable {δ : Type} {cbs : Callbacks δ} {memory : δ → MockMemory} (remembers : Remembers cbs memory)
  {host registry : Registry} {windows : MockBar → Window}
  (attached : Attached host registry windows)

theorem Attached.set (attached : Attached host registry windows) (bar : MockBar) :
    host.bar bar.index ≠ 0 := by
  obtain ⟨hostClient, deviceClient, rfl, rfl, wired⟩ := attached.wired
  intro zero
  have held : (hostClient.bar bar.index).toNat = (windows bar).base := (wired.hostHolds bar).bar
  rw [show hostClient.bar bar.index = 0 from zero] at held
  exact wired.base bar held.symm

include attached

theorem Attached.encodable (bar : MockBar) {addr : BitVec 64} {length : Nat}
    (inside : addr.toNat < bar.size) (positive : 1 ≤ length)
    (fits : addr.toNat % 4 + length ≤ 4096) :
    Encodable ((host.bar bar.index).setWidth 64 + addr) length := by
  obtain ⟨hostClient, deviceClient, rfl, rfl, wired⟩ := attached.wired
  obtain ⟨address, low⟩ :=
    (wired.hostHolds bar).toNat_addr (show addr.toNat < (windows bar).size by rwa [wired.size bar])
  rw [BitVec.ofNat_toNat, BitVec.setWidth_eq] at address
  have address : ((hostClient.registry.bar bar.index).setWidth 64 + addr).toNat =
    (windows bar).base + addr.toNat := address
  have aligned := (windows bar).aligned
  have dwords : 4 ∣ (windows bar).base :=
    Nat.dvd_trans (Nat.pow_dvd_pow 2 (wired.order bar)) aligned
  exact ⟨by omega, positive, by omega⟩

theorem Attached.writeRoute (bar : MockBar) {addr : BitVec 64} (inside : addr.toNat < bar.size) :
    ∃ target, registry.writeRoute .memory (((host.bar bar.index).setWidth 64 + addr) &&& ~~~3) =
        (registry.barWriteCb bar.index, target) ∧
      target + misalignment ((host.bar bar.index).setWidth 64 + addr) =
        BitVec.ofNat 64 addr.toNat := by
  obtain ⟨hostClient, deviceClient, rfl, rfl, wired⟩ := attached.wired
  obtain ⟨address, low⟩ :=
    (wired.hostHolds bar).toNat_addr (show addr.toNat < (windows bar).size by rwa [wired.size bar])
  rw [BitVec.ofNat_toNat, BitVec.setWidth_eq] at address
  obtain ⟨target, decoded, told⟩ := wired.target bar address inside deviceClient.barWriteCb
  exact ⟨target, (writeRoute_registry deviceClient .memory _).symm.trans decoded, told⟩

theorem Attached.barWriteCb (bar : MockBar) :
    registry.barWriteCb bar.index = (barsConfig bar.index).writeCb := by
  obtain ⟨hostClient, deviceClient, rfl, rfl, wired⟩ := attached.wired
  cases bar with
  | bar0 => exact attached.readOnly
  | bar1 => exact wired.writeCb

include remembers

theorem Attached.serveRead (device : δ) (bar : MockBar) {addr : BitVec 64} (length : Nat)
    (inside : addr.toNat < bar.size) :
    ∃ rest, serveRead cbs (device, registry) .memory
      ((host.bar bar.index).setWidth 64 + addr) length =
      some ((memory device).read bar addr.toNat length, rest) ∧ memory rest = memory device := by
  obtain ⟨hostClient, deviceClient, rfl, rfl, wired⟩ := attached.wired
  obtain ⟨address, low⟩ :=
    (wired.hostHolds bar).toNat_addr (show addr.toNat < (windows bar).size by rwa [wired.size bar])
  rw [BitVec.ofNat_toNat, BitVec.setWidth_eq] at address
  obtain ⟨target, decoded, told⟩ := wired.target bar address inside deviceClient.barReadCb
  obtain ⟨cb, registered⟩ : ∃ cb, (barsConfig bar.index).readCb = some cb := by
    cases bar <;> exact ⟨_, rfl⟩
  rw [wired.readCb bar, registered] at decoded
  have routed : deviceClient.registry.readRoute .memory
      (((hostClient.registry.bar bar.index).setWidth 64 + addr) &&& ~~~3) = (some cb, target) :=
    (readRoute_registry deviceClient .memory _).symm.trans decoded
  obtain ⟨fine, copied, same⟩ := remembers.read device bar cb addr.toNat length registered inside
  rw [← told] at fine copied same
  refine ⟨_, ?_, same⟩
  simp only [WarpPipe.serveRead, routed]
  rw [show hostClient.registry.bar = hostClient.bar from rfl, if_pos fine, copied]

theorem Attached.serveWrite (device : δ) (bar : MockBar) {addr : BitVec 64} (data : Bytes)
    (inside : addr.toNat < bar.size) :
    ∃ after, serveWrite cbs (device, registry)
        ⟨.memory, (host.bar bar.index).setWidth 64 + addr, data⟩ = (after, registry) ∧
      memory after = (memory device).store bar addr.toNat data := by
  obtain ⟨target, routed, told⟩ := attached.writeRoute bar inside
  rw [attached.barWriteCb] at routed
  cases bar with
  | bar0 =>
      change registry.writeRoute _ _ = (none, target) at routed
      exact ⟨device, by simp only [WarpPipe.serveWrite, routed], rfl⟩
  | bar1 =>
      change registry.writeRoute _ _ = (some writeBarCb1, target) at routed
      obtain ⟨silent, written⟩ := remembers.write device addr.toNat data inside
      rw [← told] at silent written
      refine ⟨_, ?_, written⟩
      simp only [WarpPipe.serveWrite, routed, silent]
      rfl

end

def readDataAfter (buf : Bytes) (ret : Int) : HostProgram (Int × Bytes) :=
  if ret < 0 then .done (ret, buf)
  else .wait fun quit readData =>
    if (if quit then -1 else 0 : Int) < 0 then .done (if quit then -1 else 0, readData.buf)
    else .done (readData.ret, readData.buf)

/-- The host is about to make the next access of its script, or has prepared a read, with so many
steps left. -/
inductive Script.At : Script α → Station (Shared HostApp) α → Nat → Prop where
  | start {script : Script α} {station : Station (Shared HostApp) α} {count steps : Nat}
      (program : station.program = script.program.program) (fits : script.Fits count)
      (enough : 2 * count ≤ steps) :
      At script station steps
  | expecting {barIdx : Fin 6} {addr : BitVec 64} {length : Nat} {buf : Bytes}
      {next : Int → Bytes → Script α} {station : Station (Shared HostApp) α} {count steps : Nat}
      (program : station.program =
        (HostProgram.call (.read barIdx addr length (some readComplPtr)) fun ret =>
        (readDataAfter buf ret).bind fun (ret, buf) => (next ret buf).program).program)
      (expected : station.app.app.readData =
        some { finished := false, buf := buf, bufSize := length, ret := 0 })
      (reaches : Reaches barIdx addr length)
      (fits : ∀ ret (after : Bytes), after.length = buf.length → (next ret after).Fits count)
      (enough : 2 * count + 1 ≤ steps) :
      At (.read barIdx addr length buf next) station steps

theorem Script.At.returned {script : Script α} {station : Station (Shared HostApp) α} {steps : Nat}
    {value : α} (stands : script.At station steps) (returned : station.program = .done value) :
    script = .done value := by
  cases stands with
  | start program =>
      cases script with
      | done other =>
          cases program.symm.trans returned
          rfl
      | read => cases program.symm.trans returned
      | write => cases program.symm.trans returned
  | expecting program => cases program.symm.trans returned

abbrev MemoryCallbacks := (side : Side) → Callbacks (HostAndMock MockMemory side)

structure Follows (script : Script α) (device after : Shared (MockDevice MockMemory) × Registry)
    (station next : Station (Shared HostApp) α) (fewer : Nat) : Prop where
  registries : after.2 = device.2 ∧ next.registry = station.registry
  accesses : (memoryOf after.1 = memoryOf device.1 ∧ script.At next fewer) ∨
    memoryOf after.1 = (script.access (memoryOf device.1)).1 ∧
    (script.access (memoryOf device.1)).2.At next fewer

section

variable {cbs : MemoryCallbacks} (host : cbs .left = hostApplication.callbacks)
  (remembers : Remembers (cbs .right) memoryOf) {device : Shared (MockDevice MockMemory) × Registry}
  {station : Station (Shared HostApp) α} {windows : MockBar → Window} {steps : Nat}

include remembers

theorem follows_write {junk : Nat → Byte} {barIdx : Fin 6} {addr : BitVec 64} {data : Bytes}
    {length : Nat} {next : Int → Script α} {count : Nat}
    (attached : Attached station.registry device.2 windows)
    (program : station.program = (Script.write junk barIdx addr data length next).program.program)
    (available : length ≤ data.length) (reaches : Reaches barIdx addr length)
    (fits : ∀ ret, (next ret).Fits count) (enough : 2 * (count + 1) ≤ steps) :
    ∃ after last fewer, Acts cbs device station after last ∧ steps = fewer + 1 ∧
      Follows (.write junk barIdx addr data length next) device after station last fewer := by
  obtain ⟨fewer, rfl⟩ : ∃ fewer, steps = fewer + 1 := ⟨steps - 1, by omega⟩
  obtain ⟨_, app, registry⟩ := station
  cases program
  cases found : mockBar? barIdx with
  | none =>
      have unset : registry.bar barIdx = 0 := attached.unset barIdx found
      refine ⟨device, _, fewer, .silent (.silent app (fun set => absurd unset set) (if_pos unset)),
        rfl, ⟨rfl, rfl⟩, .inr ?_⟩
      simp only [Script.access, found]
      exact ⟨trivial, .start rfl (fits _) (by omega)⟩
  | some bar =>
      obtain ⟨inside, positive, -, short⟩ := reaches bar found
      cases index_of_mockBar? found
      have set : registry.bar bar.index ≠ 0 := attached.set bar
      obtain ⟨after, served, stored⟩ :=
        attached.serveWrite remembers device.1 bar (data.take length) inside
      have effect : (Call.write junk bar.index addr data length).effect registry =
          .post ⟨.memory, (registry.bar bar.index).setWidth 64 + addr, data.take length⟩ := by
        rw [Call.effect, if_neg set, Int.toNat_natCast]
      have acts : Acts cbs device ⟨.call (.write junk bar.index addr data length) fun ret =>
          (next ret).program.program, app, registry⟩ (after, device.2) ⟨(next 0).program.program,
          app, registry⟩ := by
        rw [← served]
        exact .post
          (.post app (fun _ =>
            ⟨Int.ofNat_le.mpr available, attached.encodable bar inside positive short⟩) effect)
      refine ⟨_, _, fewer, acts, rfl, ⟨rfl, rfl⟩, .inr ?_⟩
      simp only [Script.access, found]
      exact ⟨stored, .start rfl (fits _) (by omega)⟩

include host

theorem follows_read {barIdx : Fin 6} {addr : BitVec 64} {length : Nat} {buf : Bytes}
    {next : Int → Bytes → Script α} {count : Nat}
    (attached : Attached station.registry device.2 windows)
    (program : station.program =
      (HostProgram.call (.read barIdx addr length (some readComplPtr)) fun ret =>
      (readDataAfter buf ret).bind fun (ret, buf) => (next ret buf).program).program)
    (expected : station.app.app.readData =
      some { finished := false, buf := buf, bufSize := length, ret := 0 })
    (reaches : Reaches barIdx addr length)
    (fits : ∀ ret (after : Bytes), after.length = buf.length → (next ret after).Fits count)
    (enough : 2 * count + 1 ≤ steps) :
    ∃ after last fewer, Acts cbs device station after last ∧ steps = fewer + 1 ∧
      Follows (.read barIdx addr length buf next) device after station last fewer := by
  obtain ⟨fewer, rfl⟩ : ∃ fewer, steps = fewer + 1 := ⟨steps - 1, by omega⟩
  obtain ⟨_, app, registry⟩ := station
  cases program
  cases found : mockBar? barIdx with
  | none =>
      have unset : registry.bar barIdx = 0 := attached.unset barIdx found
      refine ⟨device, _, fewer, .silent (.silent app (fun set => absurd unset set) (if_pos unset)),
        rfl, ⟨rfl, rfl⟩, .inr ?_⟩
      simp only [Script.access, found]
      exact ⟨trivial, .start rfl (fits _ _ rfl) (by omega)⟩
  | some bar =>
      obtain ⟨inside, positive, most, short⟩ := reaches bar found
      cases index_of_mockBar? found
      have set : registry.bar bar.index ≠ 0 := attached.set bar
      obtain ⟨rest, answer, same⟩ := attached.serveRead remembers device.1 bar length inside
      have effect : (Call.read bar.index addr length (some readComplPtr)).effect registry =
          .ask .memory ((registry.bar bar.index).setWidth 64 + addr) length
            (some readComplPtr) := by
        rw [Call.effect, if_neg set, Int.toNat_natCast]
      have asks :
          Station.Asks
            ⟨(HostProgram.call (.read bar.index addr length (some readComplPtr)) fun ret =>
          (readDataAfter buf ret).bind fun (ret, buf) => (next ret buf).program).program,
          app, registry⟩
          .memory ((registry.bar bar.index).setWidth 64 + addr) length readComplPtr
          (fun shared => shared.app.readData.any ReadComplData.finished)
            (fun shared => shared.setReadData none)
          (fun quit shared => (HostProgram.bind (if (if quit then -1 else 0 : Int) < 0 then
            .done (if quit then -1 else 0, (sharedSlot.waiting shared).buf)
            else .done ((sharedSlot.waiting shared).ret, (sharedSlot.waiting shared).buf))
            fun (ret, buf) => (next ret buf).program).program) := by
        refine ⟨⟨_, _, rfl, fun _ => ⟨by omega, attached.encodable bar inside positive short⟩,
          effect, rfl⟩, ?_⟩
        exact congrArg (Option.any ReadComplData.finished) expected
      have data : ((memoryOf device.1).read bar addr.toNat length).length = length :=
        MockMemory.length_read ..
      have completed := hostApplication_completion expected 0
        ((memoryOf device.1).read bar addr.toNat length) length
      have acts := Acts.ask asks answer (by
        rw [host, data, completed]
        simp only [Option.any_some, readCompl_finished])
      refine ⟨_, _, fewer, acts, rfl, ⟨rfl, rfl⟩, .inr ?_⟩
      simp only [Script.access, found]
      refine ⟨same, .start ?_ (fits _ _ (length_overwrite ..)) (by omega)⟩
      rw [host, data, completed]
      simp [Station.resumed, ReadSlot.waiting, sharedSlot, readCompl, HostProgram.bind,
        List.take_of_length_le (Nat.le_of_eq data)]

theorem Script.At.acts {script : Script α} (stands : script.At station steps)
    (attached : Attached station.registry device.2 windows) :
    station.Done ∨ ∃ after last fewer, Acts cbs device station after last ∧ steps = fewer + 1 ∧
      Follows script device after station last fewer := by
  cases stands with
  | expecting program expected reaches fits enough =>
      exact .inr (follows_read host remembers attached program expected reaches fits enough)
  | start program fits enough =>
      cases fits with
      | done count value => exact .inl ⟨value, program⟩
      | write available reaches rest =>
          exact .inr (follows_write remembers attached program available reaches rest enough)
      | @read count barIdx addr length buf next _ reaches rest =>
          obtain ⟨fewer, rfl⟩ : ∃ fewer, steps = fewer + 1 := ⟨steps - 1, by omega⟩
          obtain ⟨_, app, registry⟩ := station
          cases program
          refine .inr ⟨device, _, fewer, .silent (.change app registry), rfl, ⟨rfl, rfl⟩,
            .inl ⟨rfl, ?_⟩⟩
          exact .expecting rfl rfl reaches rest (by omega)

end

/-- The bench is where the accesses of some order have brought the memory and the hosts. -/
structure Ordered (windows : Fin n → MockBar → Window) (start : Atomic n α)
    (bench : Bench n (HostAndMock MockMemory) α) (steps : Fin n → Nat) : Prop where
  attached : ∀ i, Attached (bench.station i).registry (bench.registry i) (windows i)
  accessed : ∃ order, memoryOf bench.device = (start.after order).memory ∧
    ∀ i, ((start.after order).script i).At (bench.station i) (steps i)

theorem ordered_unstuck {cbs : Fin n → MemoryCallbacks}
    (host : ∀ i, cbs i .left = hostApplication.callbacks)
    (remembers : ∀ i, Remembers (cbs i .right) memoryOf) (windows : Fin n → MockBar → Window)
    (start : Atomic n α) :
    Unstuck cbs (Ordered windows start) := by
  refine .of_step fun bench steps i ordered => ?_
  obtain ⟨order, memory, stands⟩ := ordered.accessed
  have attached : Attached (bench.station i).registry (bench.served i).2 (windows i) :=
    ordered.attached i
  rcases (stands i).acts (host i) (remembers i) attached with done |
    ⟨device, station, fewer, acts, count, follows⟩
  · exact .inl done
  refine .inr ⟨device, station, fewer, acts, count, fun j => ?_, ?_⟩
  · by_cases same : j = i
    · subst same
      simp only [Bench.acted, Function.update_self, follows.registries]
      exact ordered.attached j
    · simp only [Bench.acted, Function.update_of_ne same]
      exact ordered.attached j
  · have others {script : Fin n → Script α}
        (stay : ∀ j, j ≠ i → script j = (start.after order).script j)
        (own : (script i).At station fewer) (j : Fin n) :
        (script j).At ((bench.acted i device station).station j)
          (Function.update steps i fewer j) := by
      by_cases same : j = i
      · subst same
        simpa only [Bench.acted, Function.update_self] using own
      · rw [stay j same]
        simpa only [Bench.acted, Function.update_of_ne same] using stands j
    rcases follows.accesses with ⟨kept, still⟩ | ⟨changed, moved⟩
    · exact ⟨order, kept.trans memory, others (fun _ _ => rfl) still⟩
    · refine ⟨order ++ [i], ?_, ?_⟩
      · rw [start.after_append]
        exact changed.trans (by rw [Bench.served, memory]; rfl)
      · rw [start.after_append]
        refine others (fun j apart => Function.update_of_ne apart _ _) ?_
        rw [Bench.served, memory] at moved
        simpa only [Atomic.after, List.foldl_cons, List.foldl_nil, Atomic.access,
          Function.update_self] using moved

theorem Station.Moves.not_done {σ : Type} {station after : Station σ α} {post : Option Post}
    (moves : station.Moves post after) : ¬station.Done := by
  rintro ⟨value, done⟩
  cases moves <;> cases done

theorem Follows.atomic {atomic : Atomic n α} {i : Fin n}
    {device after : Shared (MockDevice MockMemory) × Registry}
    {station next : Station (Shared HostApp) α} {fewer : Nat}
    (memory : memoryOf device.1 = atomic.memory)
    (follows : Follows (atomic.script i) device after station next fewer) :
    ∃ count, memoryOf after.1 = (atomic.after (List.replicate count i)).memory ∧
      ((atomic.after (List.replicate count i)).script i).At next fewer := by
  have accesses := follows.accesses
  rw [memory] at accesses
  rcases accesses with ⟨kept, still⟩ | ⟨changed, moved⟩
  · exact ⟨0, kept, still⟩
  · refine ⟨1, changed, ?_⟩
    simpa only [Atomic.after, List.replicate_one, List.foldl_cons, List.foldl_nil, Atomic.access,
      Function.update_self] using moved

theorem Script.At.leads {cbs : MemoryCallbacks} (host : cbs .left = hostApplication.callbacks)
    (remembers : Remembers (cbs .right) memoryOf) {windows : MockBar → Window}
    {station last : Station (Shared HostApp) α} {posts : List Post} {lead : Nat}
    (leads : Leads station posts lead last) {atomic : Atomic n α} {i : Fin n}
    {device : Shared (MockDevice MockMemory) × Registry} {steps : Nat}
    (memory : memoryOf device.1 = atomic.memory)
    (attached : Attached station.registry device.2 windows)
    (stands : (atomic.script i).At station steps) :
    ∃ count fewer, ((atomic.after (List.replicate count i)).script i).At last fewer := by
  induction leads generalizing atomic device steps with
  | here => exact ⟨0, steps, stands⟩
  | @silent _ next _ _ _ moves rest ih =>
      obtain ⟨after, other, fewer, acts, -, follows⟩ :=
        (stands.acts host remembers attached).resolve_left moves.not_done
      obtain ⟨-, rfl⟩ := acts.unique (.silent moves)
      obtain ⟨count, changed, moved⟩ := follows.atomic memory
      obtain ⟨more, fewest, ends⟩ :=
        ih changed (by rw [follows.registries.1, follows.registries.2]; exact attached) moved
      refine ⟨count + more, fewest, ?_⟩
      rwa [List.replicate_add, Atomic.after_append]
  | @post _ next _ _ _ _ moves rest ih =>
      obtain ⟨after, other, fewer, acts, -, follows⟩ :=
        (stands.acts host remembers attached).resolve_left moves.not_done
      obtain ⟨-, rfl⟩ := acts.unique (.post moves)
      obtain ⟨count, changed, moved⟩ := follows.atomic memory
      obtain ⟨more, fewest, ends⟩ :=
        ih changed (by rw [follows.registries.1, follows.registries.2]; exact attached) moved
      refine ⟨count + more, fewest, ?_⟩
      rwa [List.replicate_add, Atomic.after_append]

structure Seats (hub : Hub n (HostAndMock MockMemory) α) (windows : Fin n → MockBar → Window)
    (scripts : Fin n → Script α) (counts : Fin n → Nat) : Prop where
  idle : ∀ i, (hub.seat i).Idle
  attached : ∀ i, Attached (hub.seat i).host.client.registry
    ((hub.seat i).system .right).client.registry (windows i)
  program : ∀ i, (hub.seat i).program = (scripts i).program.program
  fits : ∀ i, (scripts i).Fits (counts i)

theorem Seats.ordered {hub : Hub n (HostAndMock MockMemory) α} {windows : Fin n → MockBar → Window}
    {scripts : Fin n → Script α} {counts : Fin n → Nat} (seats : Seats hub windows scripts counts) :
    Ordered windows ⟨memoryOf hub.device, scripts⟩ hub.bench fun i => 2 * counts i :=
  ⟨seats.attached, [], rfl, fun i => .start (seats.program i) (seats.fits i) (Nat.le_refl _)⟩

theorem host_completions (i : Fin n) (ptrs : Fin n → Nat) (cb : FnPtr)
    (app : HostAndMock MockMemory .left) (code : Int) (data : Bytes) (length : Int) :
    ((hostsAndMock ptrs i .left).completion cb app code data length).calls = [] :=
  hostApplication_completion_calls ..

section

variable (ptrs : Fin n → Nat) {hub : Hub n (HostAndMock MockMemory) α}
  {windows : Fin n → MockBar → Window} {scripts : Fin n → Script α} {counts : Fin n → Nat}
  (seats : Seats hub windows scripts counts)

include seats

theorem Seats.consistent (schedule : List (Fin n × Side)) :
    ∃ last order, Runs.run (hubStep (hostsAndMock ptrs)) hub schedule = .ok last ∧
      memoryOf last.device = ((⟨memoryOf hub.device, scripts⟩ : Atomic n α).after order).memory ∧
      ∀ i value, (last.seat i).program = .done value → ∃ count,
        ((⟨memoryOf hub.device, scripts⟩ : Atomic n α).after
          (order ++ List.replicate count i)).script i = .done value := by
  have unstuck : Unstuck (hostsAndMock ptrs) (Ordered windows ⟨memoryOf hub.device, scripts⟩) :=
    ordered_unstuck (fun _ => rfl) (mock_remembers_at ptrs) windows _
  obtain ⟨last, bench, fewer, ran, ordered, device, trails⟩ := hub_consistent unstuck
    (fun i => host_completions i ptrs) (fun i => (mock_remembers_at ptrs i).mild) seats.idle
      seats.ordered schedule
  obtain ⟨order, memory, stands⟩ := ordered.accessed
  refine ⟨last, order, ran, by rw [← device, memory], fun i value returned => ?_⟩
  cases trails i with
  | ahead leads =>
      obtain ⟨count, fewest, ends⟩ := (stands i).leads
        (show hostsAndMock ptrs i .left = hostApplication.callbacks from rfl)
          (mock_remembers_at ptrs i) leads
        (show memoryOf (bench.served i).1 = _ from memory) (ordered.attached i)
      refine ⟨count, ?_⟩
      rw [Atomic.after_append]
      exact ends.returned returned
  | waiting program => cases program.symm.trans returned

theorem Seats.returns {rounds : List (List (Fin n × Side))}
    (fair : ∀ round ∈ rounds, ∀ mover, mover ∈ round)
    (enough : 20 * ∑ i, counts i ≤ rounds.length) :
    ∃ last order, Runs.run (hubStep (hostsAndMock ptrs)) hub rounds.flatten = .ok last ∧
      memoryOf last.device = ((⟨memoryOf hub.device, scripts⟩ : Atomic n α).after order).memory ∧
      ∀ i, (last.seat i).Idle ∧ ∃ value, (last.seat i).program = .done value ∧
        ((⟨memoryOf hub.device, scripts⟩ : Atomic n α).after order).script i = .done value := by
  have unstuck : Unstuck (hostsAndMock ptrs) (Ordered windows ⟨memoryOf hub.device, scripts⟩) :=
    ordered_unstuck (fun _ => rfl) (mock_remembers_at ptrs) windows _
  obtain ⟨last, fewer, ran, ordered, ends⟩ := hub_returns unstuck (fun i => host_completions i ptrs)
    (fun i => (mock_remembers_at ptrs i).mild) seats.idle seats.ordered fair (by
      rw [← Finset.mul_sum]
      omega)
  obtain ⟨order, memory, stands⟩ := ordered.accessed
  refine ⟨last, order, ran, memory, fun i => ⟨(ends i).1, ?_⟩⟩
  obtain ⟨value, done⟩ := (ends i).2
  exact ⟨value, done, (stands i).returned done⟩

end

/-- Hosts that share a memory mock see one memory. Whatever turns they and the mock take, no step
fails and the mock holds what the accesses of the hosts leave in some order, in which a host that
has returned makes its accesses one by one and returns the same; and turns that leave nobody out
bring every host to its end. -/
theorem sharedMemory_consistent (ptrs : Fin n → Nat) {hub : Hub n (HostAndMock MockMemory) α}
    {windows : Fin n → MockBar → Window} {scripts : Fin n → Script α} {counts : Fin n → Nat}
    (seats : Seats hub windows scripts counts) :
    (∀ schedule, ∃ last order, Runs.run (hubStep (hostsAndMock ptrs)) hub schedule = .ok last ∧
      memoryOf last.device = ((⟨memoryOf hub.device, scripts⟩ : Atomic n α).after order).memory ∧
      ∀ i value, (last.seat i).program = .done value → ∃ count,
        ((⟨memoryOf hub.device, scripts⟩ : Atomic n α).after
          (order ++ List.replicate count i)).script i = .done value) ∧
    ∀ rounds : List (List (Fin n × Side)), (∀ round ∈ rounds, ∀ mover, mover ∈ round) →
      20 * ∑ i, counts i ≤ rounds.length →
      ∃ last order, Runs.run (hubStep (hostsAndMock ptrs)) hub rounds.flatten = .ok last ∧
        memoryOf last.device = ((⟨memoryOf hub.device, scripts⟩ : Atomic n α).after order).memory ∧
        ∀ i, (last.seat i).Idle ∧ ∃ value, (last.seat i).program = .done value ∧
          ((⟨memoryOf hub.device, scripts⟩ : Atomic n α).after order).script i = .done value := by
  constructor
  · intro schedule
    exact seats.consistent ptrs schedule
  · intro rounds fair enough
    exact seats.returns ptrs fair enough

theorem mockClient_attached : Attached mockClient.registry mockClient.registry mockWindows := by
  have holds (bar : MockBar) : Holds mockClient bar.index (mockWindows bar) := by
    cases bar <;> exact ⟨rfl, rfl⟩
  refine ⟨⟨mockClient, mockClient, rfl, rfl, holds, holds, fun bar => ?_, fun bar => ?_,
    .inl (by decide), fun bar => ?_, rfl⟩, fun barIdx none => ?_, rfl⟩
  · cases bar <;> rfl
  · cases bar <;> decide
  · cases bar <;> rfl
  · match barIdx with
    | 0 | 1 => cases none
    | 2 | 3 | 4 | 5 => rfl

def pairScripts : Fin 2 → Script Bytes
  | 0 => .write (fun _ => 0) 1 4 [7, 8, 9] 3 fun _ => .done []
  | 1 => .read 1 4 3 [0, 0, 0] fun _ buf => .done buf

theorem pairScripts_fit (i : Fin 2) : (pairScripts i).Fits 1 := by
  have reaches : Reaches 1 4 3 := by
    intro bar found
    cases found
    decide
  match i with
  | 0 => exact .write (Nat.le_refl 3) reaches fun _ => .done _ _
  | 1 => exact .read (Nat.le_refl 3) reaches fun _ _ _ => .done _ _

def pairSystem : System (HostAndMock MockMemory)
  | .left => ⟨mockClient, (clientWith []).sock, ⟨⟨none, none⟩, 0, .ok []⟩, []⟩
  | .right => ⟨mockClient, (clientWith []).sock, ⟨mockServer.process.app, 1, .ok []⟩, []⟩

def pairHub : Hub 2 (HostAndMock MockMemory) Bytes where
  device := ⟨mockServer.process.app, 1, .ok []⟩
  seat i := ⟨pairSystem, false, (pairScripts i).program.program⟩

theorem pair_consistent :
    Seats pairHub (fun _ => mockWindows) pairScripts (fun _ => 1) ∧ ∃ last order,
      Runs.run (hubStep (hostsAndMock fun i => i.val + 1)) pairHub
        (List.replicate 40 [(0, .left), (0, .right), (1, .left), (1, .right)]).flatten = .ok last ∧
      ∀ i, ∃ value, (last.seat i).program = .done value ∧
        ((⟨zeroMemory, pairScripts⟩ : Atomic 2 Bytes).after order).script i = .done value := by
  have seats : Seats pairHub (fun _ => mockWindows) pairScripts (fun _ => 1) := by
    refine ⟨fun i => ⟨⟨fun side => ?_, fun side => ?_, fun side => ?_⟩, rfl, fun side => ?_⟩,
      fun _ => mockClient_attached, fun _ => rfl, pairScripts_fit⟩
    · cases side <;> rfl
    · cases side <;> rfl
    · cases side <;> exact List.forall_mem_nil _
    · cases side <;> rfl
  have fair :
      ∀ round ∈ List.replicate 40 [((0 : Fin 2), Side.left), (0, .right), (1, .left), (1, .right)],
      ∀ mover, mover ∈ round := by
    rintro round member ⟨i, side⟩
    rw [List.eq_of_mem_replicate member]
    match i with
    | 0 | 1 => cases side <;> decide
  obtain ⟨last, order, ran, -, ends⟩ :=
    (sharedMemory_consistent (fun i => i.val + 1) seats).2 _ fair List.length_replicate.ge
  exact ⟨seats, last, order, ran, fun i => (ends i).2⟩

end WarpPipe
