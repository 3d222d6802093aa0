import WarpPipe.Enumeration
import WarpPipe.SharedMemory

/-!
A host that has the device for itself: what its program does with direct access it does over the
connection, whatever turns the two sides take. `main` of `zephyr-samples/pcie_native` is such a
program.
-/

namespace WarpPipe

open ByteLayout

variable {α β μ : Type} {τ : Side → Type}

inductive Performs (cbs : (side : Side) → Callbacks (τ side)) :
    τ .right × Registry → Station (τ .left) α → Nat → τ .right × Registry →
    Station (τ .left) α → Prop where
  | here (device : τ .right × Registry) (station : Station (τ .left) α) :
      Performs cbs device station 0 device station
  | step {device middle final : τ .right × Registry} {station next last : Station (τ .left) α}
      {steps : Nat} (acts : Acts cbs device station middle next)
      (rest : Performs cbs middle next steps final last) :
      Performs cbs device station (steps + 1) final last

section

variable {cbs : (side : Side) → Callbacks (τ side)} {device middle final : τ .right × Registry}
  {station next last : Station (τ .left) α} {steps : Nat}

theorem Performs.trans {more : Nat} (first : Performs cbs device station steps middle next)
    (second : Performs cbs middle next more final last) :
    Performs cbs device station (steps + more) final last := by
  induction first with
  | here => rwa [Nat.zero_add]
  | step acts rest ih =>
      rw [Nat.add_right_comm]
      exact .step acts (ih second)

theorem Performs.of_done {value : α} (performs : Performs cbs device station steps final last)
    (done : station.program = .done value) : device = final ∧ station = last := by
  cases performs with
  | here => exact ⟨rfl, rfl⟩
  | step acts rest =>
      have ready := acts.ready
      rw [Station.ready, done] at ready
      cases ready

end

def EndsAt (cbs : (side : Side) → Callbacks (τ side)) (final : τ .right × Registry)
    (last : Station (τ .left) α) (bench : Bench 1 τ α) (steps : Fin 1 → Nat) : Prop :=
  Performs cbs (bench.served (.last 0)) (bench.station (.last 0)) (steps (.last 0)) final last

theorem endsAt_unstuck {cbs : (side : Side) → Callbacks (τ side)} {final : τ .right × Registry}
    {last : Station (τ .left) α} (done : last.Done) :
    Unstuck (fun _ => cbs) (EndsAt cbs final last) := by
  refine .of_step fun bench steps i ends => ?_
  obtain rfl : i = .last 0 := Subsingleton.elim ..
  rw [EndsAt] at ends
  generalize from_ : bench.station (.last 0) = station at ends
  generalize served : bench.served (.last 0) = device at ends
  generalize count : steps (.last 0) = all at ends
  cases ends with
  | here => exact .inl done
  | @step _ middle _ _ next _ fewer acts rest =>
      refine .inr ⟨middle, next, fewer, acts, rfl, ?_⟩
      simpa only [EndsAt, acted_served, acted_station, Function.update_self] using rest

section

variable {cbs : (side : Side) → Callbacks (τ side)} {hub : Hub 1 τ α} {final : τ .right × Registry}
  {value : α} {app : τ .left} {registry : Registry} {steps : Nat}

/-- The connection is transparent to a host that waits for its reads: its program returns what it
returns with direct access and nothing else, and leaves both sides as direct access does. -/
theorem hub_transparent
    (quiet : ∀ cb app code data length, ((cbs .left).completion cb app code data length).calls = [])
    (mild : (cbs .right).Mild) (idle : (hub.seat 0).Idle)
    (performs : Performs cbs (hub.bench.served 0) (hub.bench.station 0) steps final
      ⟨.done value, app, registry⟩) :
    (∀ schedule, ∃ last, Runs.run (hubStep fun _ => cbs) hub schedule = .ok last ∧
      ∀ result, (last.seat 0).program = .done result → result = value) ∧
    ∀ rounds : List (List (Fin 1 × Side)), (∀ round ∈ rounds, ∀ mover, mover ∈ round) →
      10 * steps ≤ rounds.length → ∃ last, Runs.run (hubStep fun _ => cbs) hub rounds.flatten =
          .ok last ∧ (last.seat 0).Idle ∧
        last.bench.served 0 = final ∧ (last.seat 0).station = ⟨.done value, app, registry⟩ := by
  have unstuck : Unstuck (fun _ : Fin 1 => cbs) (EndsAt cbs final ⟨.done value, app, registry⟩) :=
    endsAt_unstuck ⟨value, rfl⟩
  have all (i : Fin 1) : (hub.seat i).Idle := by
    rw [Subsingleton.elim i 0]
    exact idle
  have held : EndsAt cbs final ⟨.done value, app, registry⟩ hub.bench fun _ => steps := performs
  refine ⟨fun schedule => ?_, fun rounds fair enough => ?_⟩
  · obtain ⟨last, bench, fewer, ran, ends, -, trails⟩ :=
      hub_consistent unstuck (fun _ => quiet) (fun _ => mild) all held schedule
    refine ⟨last, ran, fun result returned => ?_⟩
    cases trails (.last 0) with
    | ahead leads =>
        obtain ⟨device, left, -, -, later⟩ := unstuck.leads ends leads
        rw [EndsAt, acted_station] at later
        obtain ⟨-, same⟩ := later.of_done returned
        have program := congrArg Station.program same
        cases returned.symm.trans program
        rfl
    | waiting program => cases program.symm.trans returned
  · obtain ⟨last, fewer, ran, ends, rests⟩ :=
      hub_returns unstuck (fun _ => quiet) (fun _ => mild) all held fair (by simpa using enough)
    obtain ⟨result, done⟩ := (rests 0).2
    obtain ⟨device, station⟩ := Performs.of_done ends done
    exact ⟨last, ran, (rests 0).1, device, station⟩

end

def Script.result (memory : MockMemory) : Script α → MockMemory × α
  | .done value => (memory, value)
  | .read barIdx addr length buf next =>
    match mockBar? barIdx with
    | none => (next (-1) buf).result memory
    | some bar => (next length (overwrite buf 0 (memory.read bar addr.toNat length))).result memory
  | .write _ barIdx addr data length next =>
    match mockBar? barIdx with
    | none => (next (-1)).result memory
    | some bar => (next 0).result (memory.store bar addr.toNat (data.take length))

theorem Script.result_access (memory : MockMemory) (script : Script α) :
    (script.access memory).2.result (script.access memory).1 = script.result memory := by
  cases script with
  | done value => rfl
  | read barIdx addr length buf next =>
      simp only [access, result]
      cases mockBar? barIdx <;> rfl
  | write junk barIdx addr data length next =>
      simp only [access, result]
      cases mockBar? barIdx <;> rfl

theorem Script.At.performs {cbs : MemoryCallbacks} (host : cbs .left = hostApplication.callbacks)
    (remembers : Remembers (cbs .right) memoryOf) {windows : MockBar → Window} {script : Script α}
    {device : Shared (MockDevice MockMemory) × Registry} {station : Station (Shared HostApp) α}
    {steps : Nat} (stands : script.At station steps)
    (attached : Attached station.registry device.2 windows) :
    ∃ count after app, count ≤ steps ∧ memoryOf after = (script.result (memoryOf device.1)).1 ∧
      Performs cbs device station count (after, device.2)
        ⟨.done (script.result (memoryOf device.1)).2, app, station.registry⟩ := by
  induction steps using Nat.strong_induction_on generalizing script device station with
  | _ steps ih =>
      rcases stands.acts host remembers attached with ⟨value, done⟩ |
        ⟨middle, next, fewer, acts, rfl, follows⟩
      · obtain rfl := stands.returned done
        obtain ⟨_, app, registry⟩ := station
        cases done
        exact ⟨0, device.1, app, Nat.zero_le _, rfl, .here ..⟩
      · obtain ⟨kept, held⟩ := follows.registries
        have still : Attached next.registry middle.2 windows := by rwa [kept, held]
        -- the step prepared the next access or made it: the result is the same
        have later : ∃ rest : Script α, rest.At next fewer ∧
            rest.result (memoryOf middle.1) = script.result (memoryOf device.1) := by
          rcases follows.accesses with ⟨same, stays⟩ | ⟨changed, moved⟩
          · exact ⟨script, stays, by rw [same]⟩
          · exact ⟨_, moved, by rw [changed, script.result_access]⟩
        obtain ⟨rest, there, same⟩ := later
        obtain ⟨more, after, app, few, memory, performs⟩ :=
          ih fewer (Nat.lt_succ_self _) there still
        rw [same, kept, held] at performs
        rw [same] at memory
        exact ⟨more + 1, after, app, by omega, memory, .step acts performs⟩

/-- The mock serves the connection, and it is the one that it accepted last. -/
structure Latest (mock : MockDevice μ × Registry) (ptr : Nat) : Prop where
  latest : mock.1.devClient = ptr
  readCb : mock.2.cfg0ReadCb = some config0ReadPtr
  writeCb : mock.2.cfg0WriteCb = some config0WritePtr

section

variable {table : Fin 6 → BarEntry} {bars : BarMemory μ} {direct final : Direct μ} {ptr : Nat}

theorem Latest.configWrite {mock : MockDevice μ × Registry} (serves : Latest mock ptr)
    (access : BitVec 64 × Bytes) :
    Latest (configWrite table mock access) ptr := by
  obtain ⟨reads, writes⟩ :=
    config0WriteCb_config table mock.1.space access.1 access.2 access.2.length mock.2
  exact ⟨serves.latest, reads.trans serves.readCb, writes.trans serves.writeCb⟩

theorem serveWrite_config {mock : MockDevice μ × Registry} {device : Shared (MockDevice μ)}
    (serves : Latest mock device.self) (addr : BitVec 64) (data : Bytes) :
    serveWrite (mockApplication table bars).callbacks ({ device with app := mock.1 }, mock.2)
      ⟨.config0, addr, data⟩ = ({ device with app := (configWrite table mock (addr, data)).1 },
        (configWrite table mock (addr, data)).2) := by
  have route : mock.2.writeRoute .config0 (addr &&& ~~~3) =
      (some config0WritePtr, addr &&& ~~~3) := by
    rw [Registry.writeRoute, serves.writeCb]
  simp only [serveWrite, route, aligned_add_misalignment]
  rw [mockApplication_write serves.latest]
  rfl

theorem serveRead_config {mock : MockDevice μ × Registry} {device : Shared (MockDevice μ)}
    (serves : Latest mock device.self) {addr : BitVec 64} {data : Bytes}
    (answer : config0ReadCb mock.1.space addr 4 = .ok (0, data)) :
    serveRead (mockApplication table bars).callbacks ({ device with app := mock.1 }, mock.2)
      .config0 addr 4 = some (data, { device with app := mock.1 }) := by
  have route : mock.2.readRoute .config0 (addr &&& ~~~3) =
      (some config0ReadPtr, addr &&& ~~~3) := by
    rw [Registry.readRoute, serves.readCb]
  have returned : (mockApplication table bars).callbacks.read config0ReadPtr
      { device with app := mock.1 } addr 4 = _ :=
    mockApplication_read answer
  simp only [serveRead, route, aligned_add_misalignment]
  rw [show ((4 : Nat) : Int) = 4 from rfl, returned, if_pos rfl]
  simp only [fillBuffer_full (length_of_config0Read answer),
    show (4 : Int) = ((4 : Nat) : Int) from rfl]

theorem Exec.waits {program : HostProgram α} {steps : Nat} {value : α} {readData : ReadComplData}
    (exec : Exec table program direct steps value final) (ends : final.readData = none)
    (expected : direct.readData = some readData) (finished : readData.finished = true) :
    ∃ next fewer, program = .wait next ∧ steps = fewer + 1 ∧
      Exec table (next false readData) { direct with readData := none } fewer value final := by
  cases exec with
  | done => cases expected.symm.trans ends
  | expect idle => cases expected.symm.trans idle
  | read access other unfinished =>
      cases expected.symm.trans other
      cases finished.symm.trans unfinished
  | write access full idle => cases expected.symm.trans idle
  | register unset power idle => cases expected.symm.trans idle
  | wait other met later =>
      cases expected.symm.trans other
      exact ⟨_, _, rfl, rfl, later⟩

def ReadSlot.Completes {σ : Type} (slot : ReadSlot σ) (cbs : Callbacks σ) : Prop :=
  ∀ app readData data length, slot.get app = some readData →
    cbs.completion readComplPtr app 0 data length =
      { app := slot.put (some (readCompl readData 0 data length)) app, calls := [] }

theorem sharedSlot_completes : sharedSlot.Completes hostApplication.callbacks :=
  fun _ _ data length own => hostApplication_completion own 0 data length

theorem Exec.performs {σ : Type} {slot : ReadSlot σ} {cbs : Callbacks σ}
    (completes : slot.Completes cbs) {program : HostProgram α} {steps : Nat} {value : α}
    (next : α → Program σ β) (host : σ) {device : Shared (MockDevice μ)}
    (exec : Exec table program direct steps value final) (ends : final.readData = none)
    (fresh : ∀ readData, direct.readData = some readData → readData.finished = false)
    (serves : Latest direct.mock device.self) :
    Latest final.mock device.self ∧ ∃ count, count ≤ steps ∧
      Performs (withMock cbs table bars) ({ device with app := direct.mock.1 }, direct.mock.2)
        ⟨(program.within slot).bind next, slot.put direct.readData host, direct.hostRegistry⟩ count
        ({ device with app := final.mock.1 }, final.mock.2)
        ⟨next value, slot.put none host, final.hostRegistry⟩ := by
  have idles {other : Direct μ} (idle : other.readData = none) (readData : ReadComplData)
      (held : other.readData = some readData) : readData.finished = false := by
    cases idle.symm.trans held
  -- a read and its wait are one step of direct access, so the induction is on the steps
  induction steps using Nat.strong_induction_on generalizing program direct with
  | _ steps ih =>
      cases exec with
      | done =>
          refine ⟨serves, 0, Nat.le_refl _, ?_⟩
          rw [ends]
          exact .here ..
      | @expect readData rest _ _ fewer _ idle unfinished later =>
          have expecting : ∀ other, some readData = some other → other.finished = false := by
            intro other same
            cases same
            exact unfinished
          obtain ⟨still, count, few, performs⟩ :=
            ih fewer (Nat.lt_succ_self _) later expecting serves
          rw [← slot.put_put direct.readData] at performs
          exact ⟨still, count + 1, by omega, .step (.silent (.change _ _)) performs⟩
      | @read addr rest _ _ fewer _ readData data access expected unfinished answer later =>
          obtain ⟨resume, fewest, waits, rfl, after⟩ := later.waits ends rfl (readCompl_finished ..)
          obtain ⟨still, count, few, performs⟩ := ih fewest (by omega) after (idles rfl) serves
          have full : (data.length : Int) = 4 := congrArg Nat.cast (length_of_config0Read answer)
          have held : slot.get (slot.put direct.readData host) = some readData := by
            rw [slot.get_put, expected]
          have asks :
              Station.Asks
                ⟨((HostProgram.call (.config0Read addr 4 (some readComplPtr)) rest).within
                  slot).bind next,
              slot.put direct.readData host, direct.hostRegistry⟩ .config0 addr 4 readComplPtr
              (fun app => (slot.get app).any ReadComplData.finished) (slot.put none)
              (fun quit app => ((resume quit (slot.waiting app)).within slot).bind next) := by
            refine ⟨⟨_, _, rfl, ⟨by decide, access⟩, rfl, ?_⟩, ?_⟩
            · simp only [waits]
              rfl
            · exact (congrArg (Option.any ReadComplData.finished) held).trans unfinished
          have completed : (withMock cbs table bars .left).completion readComplPtr
              (slot.put direct.readData host) 0 data
              data.length =
                { app := slot.put (some (readCompl readData 0 data 4)) host, calls := [] } := by
            rw [full]
            exact (completes _ _ data 4 held).trans (by rw [slot.put_put])
          have answered : serveRead (withMock cbs table bars .right)
              ({ device with app := direct.mock.1 }, direct.mock.2)
              .config0 addr 4 = some (data, { device with app := direct.mock.1 }) :=
                serveRead_config serves answer
          have acts := Acts.ask asks answered (by
            rw [completed, slot.get_put]
            exact readCompl_finished ..)
          rw [completed, Station.resumed, ReadSlot.waiting, slot.get_put, slot.put_put] at acts
          exact ⟨still, count + 1, by omega, .step acts performs⟩
      | @write junk addr data rest _ _ fewer _ access full idle later =>
          obtain ⟨still, count, few, performs⟩ := ih fewer (Nat.lt_succ_self _) later
            (idles idle) (serves.configWrite _)
          refine ⟨still, count + 1, by omega, .step ?_ performs⟩
          have effect : (Call.config0Write junk addr data 4).effect direct.hostRegistry =
              .post ⟨.config0, addr, data⟩ := by
            rw [Call.effect, List.take_of_length_le (by rw [full]; decide)]
          rw [← serveWrite_config serves]
          exact .post (.post _ ⟨by omega, access⟩ effect)
      | @register bar size barIdx readCb writeCb rest _ _ fewer _ unset power idle later =>
          obtain ⟨still, count, few, performs⟩ := ih fewer (Nat.lt_succ_self _) later
            (idles idle) serves
          refine ⟨still, count + 1, by omega, .step (.silent (.silent _ trivial ?_)) performs⟩
          rw [Call.effect, if_neg (not_not.mpr unset), if_neg power]
      | wait expected finished => cases finished.symm.trans (fresh _ expected)

theorem HostProgram.within_bind {σ : Type} (slot : ReadSlot σ) (program : HostProgram α)
    (next : α → HostProgram β) :
    (program.bind next).within slot = (program.within slot).bind fun value =>
      (next value).within slot := by
  induction program with
  | done value => rfl
  | expect readData rest ih => exact congrArg _ (funext fun _ => ih)
  | call request rest ih => exact congrArg _ (funext ih)
  | wait rest ih => exact congrArg _ (funext fun quit => funext fun app => ih quit _)

def Tabled (table : Fin 6 → BarEntry) (registry : Registry) : Prop :=
  ∀ barIdx, registry.bar barIdx ≠ 0 →
    registry.barReadCb barIdx = (table barIdx).readCb ∧
    registry.barWriteCb barIdx = (table barIdx).writeCb

theorem Tabled.configWrite {mock : MockDevice μ × Registry} (tabled : Tabled table mock.2)
    (access : BitVec 64 × Bytes) :
    Tabled table (configWrite table mock access).2 := by
  simp only [WarpPipe.configWrite]
  rcases config0WriteCb_calls table mock.1.space access.1 access.2 access.2.length with none |
    ⟨bar, barIdx, one⟩
  · rw [none]
    exact tabled
  · rw [one]
    simp only [List.foldl_cons, List.foldl_nil, Registry.after]
    split
    · exact tabled
    · split
      · exact tabled
      · intro other set
        by_cases same : other = barIdx
        · subst same
          simp only [Function.update_self, and_self]
        · simp only [Function.update_of_ne same] at set ⊢
          exact tabled other set

theorem Exec.tabled {program : HostProgram α} {steps : Nat} {value : α}
    (exec : Exec table program direct steps value final) (tabled : Tabled table direct.mock.2) :
    Tabled table final.mock.2 := by
  induction exec with
  | done => exact tabled
  | expect idle unfinished later ih => exact ih tabled
  | read access expected unfinished answer later ih => exact ih tabled
  | write access full idle later ih => exact ih (tabled.configWrite _)
  | register unset power idle later ih => exact ih tabled
  | wait expected finished later ih => exact ih tabled

theorem Exec.memory {program : HostProgram α} {steps : Nat} {value : α}
    (exec : Exec table program direct steps value final) :
    final.mock.1.memory = direct.mock.1.memory := by
  induction exec with
  | done => rfl
  | expect idle unfinished later ih => exact ih
  | read access expected unfinished answer later ih => exact ih
  | write access full idle later ih => exact ih
  | register unset power idle later ih => exact ih
  | wait expected finished later ih => exact ih

end

theorem enumeratedBase_low (bar : MockBar) : 0x40000 * (4 + bar.index.val) < 2 ^ 32 := by
  cases bar <;> decide

def enumeratedWindows (bar : MockBar) : Window where
  base := 0x40000 * (4 + bar.index.val)
  order := match bar with
    | .bar0 => 7
    | .bar1 => 11
  aligned := by cases bar <;> decide
  low := enumeratedBase_low bar

def Registry.on (registry : Registry) (client : Client) : Client :=
  { client with
    bar := registry.bar
    barSize := registry.barSize
    barReadCb := registry.barReadCb
    barWriteCb := registry.barWriteCb
    cfg0ReadCb := registry.cfg0ReadCb
    cfg0WriteCb := registry.cfg0WriteCb }

theorem mockTable_used (bar : MockBar) : (mockTable bar.index).size ≠ 0 := by
  cases bar <;> decide

theorem mockTable_unused {barIdx : Fin 6} (none : mockBar? barIdx = none) :
    (mockTable barIdx).size = 0 := by
  match barIdx with
  | 0 | 1 => cases none
  | 2 | 3 | 4 | 5 => rfl

theorem enumerated_held {registry : Registry} (client : Client)
    (bars : registry.bar = barsAfter mockTable (List.finRange 6).reverse ∧
      registry.barSize = sizesAfter mockTable (List.finRange 6).reverse) (bar : MockBar) :
    Holds (registry.on client) bar.index (enumeratedWindows bar) := by
  have found : bar.index ∈ (List.finRange 6).reverse := by simp
  have place : registry.bar bar.index = hostBarAddr bar.index := by
    rw [bars.1, barsAfter, if_pos ⟨found, mockTable_used bar⟩]
  have size : registry.barSize bar.index = (mockTable bar.index).size := by
    rw [bars.2, sizesAfter, if_pos found]
  refine ⟨(congrArg BitVec.toNat place).trans (toNat_hostBarAddr bar.index),
    (congrArg BitVec.toNat size).trans ?_⟩
  cases bar <;> rfl

theorem Enumerated.attached {before : ConfigSpace} {direct : Direct μ}
    (enumerated : Enumerated mockTable before (List.finRange 6).reverse direct)
    (tabled : Tabled mockTable direct.mock.2) (client : Client) :
    Attached direct.hostRegistry direct.mock.2 enumeratedWindows := by
  have hostHolds := enumerated_held client enumerated.hostBars
  have deviceHolds := enumerated_held client enumerated.mockBars
  have set (bar : MockBar) : direct.mock.2.bar bar.index ≠ 0 := by
    intro zero
    have place : (direct.mock.2.bar bar.index).toNat = _ := (deviceHolds bar).bar
    rw [zero] at place
    cases bar <;> simp [enumeratedWindows] at place
  refine ⟨⟨direct.hostRegistry.on client, direct.mock.2.on client, rfl, rfl, hostHolds, deviceHolds,
    fun bar => ?_, fun bar => ?_, .inl (by decide), fun bar => ?_, ?_⟩, fun barIdx none => ?_, ?_⟩
  · cases bar <;> rfl
  · cases bar <;> decide
  · refine (tabled bar.index (set bar)).1.trans ?_
    cases bar <;> rfl
  · exact (tabled 1 (set .bar1)).2
  · rw [enumerated.hostBars.1, barsAfter, if_neg fun held => held.2 (mockTable_unused none)]
  · exact (tabled 0 (set .bar0)).2

/-! `main` of `zephyr-samples/pcie_native`. -/

def hello : Bytes := [0x68, 0x65, 0x6c, 0x6c, 0x6f]

/-- What follows enumeration. None: an assertion failed. -/
def nativeChecks (junk : Nat → Byte) (buf : Bytes) : Script (Option Int) :=
  .read 0 0 16 buf fun ret buf =>
    if ret ≠ 16 then .done none
    else .read 1 0 16 buf fun ret buf =>
      if ret ≠ 16 then .done none
      else .write junk 1 0 (overwrite buf 0 hello) hello.length fun ret =>
        if ret ≠ 0 then .done none
        else .read 1 0 16 (overwrite buf 0 hello) fun ret buf =>
          if ret ≠ 16 then .done none
          else if buf.take hello.length ≠ hello then .done none
          else .read 2 0 16 buf fun ret _ =>
            if ret ≠ -1 then .done none else .done (some 0)

/-- `junk`, `block` and `buf` are what the variables and the blocks from `malloc` hold at first. -/
def nativeMain (junk : Junk) (block : Nat → Byte) (buf : Bytes) : HostProgram (Option Int) := do
  let ret ← enumerate junk
  if ret < 0 then return some (-1)
  else (nativeChecks block buf).program

theorem reaches_mock {barIdx : Fin 6} {length : Nat} (positive : 1 ≤ length) (short : length ≤ 16) :
    Reaches barIdx 0 length := by
  intro bar found
  have room : 128 ≤ bar.size := by cases bar <;> decide
  have zero : (0 : BitVec 64).toNat = 0 := rfl
  exact ⟨by omega, positive, by omega, by omega⟩

theorem nativeChecks_fits (junk : Nat → Byte) {buf : Bytes} (size : buf.length = 16) :
    (nativeChecks junk buf).Fits 5 := by
  have stop {count : Nat} {test : Prop} [Decidable test] {next : Script (Option Int)}
      (fits : next.Fits count) : (if test then Script.done none else next).Fits count := by
    split
    · exact .done _ _
    · exact fits
  have checked {buf : Bytes} (size : buf.length = 16) {barIdx : Fin 6} {count : Nat}
      {next : Int → Bytes → Script (Option Int)}
      (rest : ∀ ret (after : Bytes), after.length = 16 → (next ret after).Fits count) :
      (Script.read barIdx 0 (16 : Nat) buf next).Fits (count + 1) :=
    .read size.ge (reaches_mock (by decide) (by decide)) (size ▸ rest)
  refine checked size fun _ first firstSize => stop ?_
  refine checked firstSize fun _ second secondSize => stop ?_
  have filled : (overwrite second 0 hello).length = 16 := by rw [length_overwrite, secondSize]
  refine .write (by rw [filled]; decide) (reaches_mock (by decide) (by decide)) fun _ => stop ?_
  refine checked filled fun _ third thirdSize => stop (stop ?_)
  exact checked thirdSize fun _ _ _ => stop (.done _ _)

theorem getByte_write (memory : MockMemory) (offset : Nat) (data : Bytes) {index : Nat}
    (inside : index < 2048) :
    getByte (memory.write offset data).bar1 index =
      if offset ≤ index ∧ index < offset + data.length then getByte data (index - offset)
      else getByte memory.bar1 index := by
  have within : index < memory.bar1.length := by rwa [memory.length_bar1]
  simp only [MockMemory.write, getByte, List.getD_eq_getElem?_getD, List.getElem?_mapIdx,
    List.getElem?_eq_getElem within, Option.map_some, Option.getD_some]

theorem take_read_write (memory : MockMemory) {buf data : Bytes} {length : Nat}
    (fits : data.length ≤ length) (room : length ≤ buf.length) (inside : data.length ≤ 2048) :
    (overwrite buf 0 ((memory.write 0 data).read .bar1 0 length)).take data.length = data := by
  have read : ((memory.write 0 data).read .bar1 0 length).length = length :=
    MockMemory.length_read ..
  have size := memory.length_bar1
  rw [overwrite_zero _ _ (by omega), List.take_append_of_le_length (by omega)]
  apply buffer_ext
  · rw [List.length_take]
    omega
  intro index bound
  rw [List.length_take] at bound
  rw [getByte_take (by omega)]
  have told : getByte ((memory.write 0 data).read .bar1 0 length) index =
      getByte (memory.write 0 data).bar1 index := by
    simp [MockMemory.read, MockMemory.bytes, getByte, show index < length by omega]
  rw [told, getByte_write memory 0 data (by omega), if_pos (by omega), Nat.sub_zero]

theorem nativeChecks_result (junk : Nat → Byte) {buf : Bytes} (size : buf.length = 16)
    (memory : MockMemory) :
    (nativeChecks junk buf).result memory = (memory.write 0 hello, some 0) := by
  have sent {before : Bytes} (full : before.length = 16) :
      (overwrite before 0 hello).take hello.length = hello := by
    simpa using take_overwrite_through before hello 0 (by rw [full]; decide)
  have back {before : Bytes} (full : before.length = 16) :
      (overwrite before 0 ((memory.write 0 hello).read .bar1 0 16)).take hello.length = hello :=
    take_read_write memory (by decide) (Nat.le_of_eq full.symm) (by decide)
  simp [nativeChecks, Script.result, mockBar?, MockMemory.store, sent, back, size]

def Setup.seat (setup : Setup μ α) : Seat (HostAndMock μ) α :=
  ⟨setup.system, setup.quit, setup.program.program⟩

def Setup.hub (setup : Setup μ α) : Hub 1 (HostAndMock μ) α where
  device := (setup.system .right).app
  seat _ := setup.seat

theorem Setup.hub_withSeat (setup : Setup μ α) (device : Shared (MockDevice μ))
    (seat : Seat (HostAndMock μ) α) :
    setup.hub.withSeat 0 device seat = ⟨device, fun _ => seat⟩ := by
  simp only [Hub.withSeat, Hub.mk.injEq, true_and]
  funext i
  rw [Subsingleton.elim i 0, Function.update_self]

section

variable {table : Fin 6 → BarEntry} {bars : BarMemory μ} {setup next : Setup μ α}

theorem hostLoop_seat (ok : hostLoop table bars setup = .ok next) :
    setup.seat.loop (hostAndMock table bars) = .ok next.seat := by
  obtain ⟨system, stepped, rfl⟩ := ok_of_map_ok ok
  rw [Seat.loop, show setup.seat.system = setup.system from rfl, stepped]
  rfl

theorem hostStep_seat (ok : hostStep table bars setup = .ok next) :
    setup.seat.hostStep (hostAndMock table bars) = .ok next.seat := by
  rw [hostStep] at ok
  rw [Seat.hostStep, show setup.seat.program = setup.program.within sharedSlot from rfl]
  have quits : setup.seat.quit = setup.quit := rfl
  cases program : setup.program with
  | done value =>
      simp only [program] at ok
      simp only [HostProgram.within, quits]
      split at ok
      · rename_i quit
        cases ok
        rw [if_pos quit]
      · rename_i running
        rw [if_neg running]
        exact hostLoop_seat ok
  | expect readData rest =>
      simp only [program] at ok
      split at ok
      · cases ok
      · cases ok
        rfl
  | call request rest =>
      simp only [program] at ok
      split at ok
      · cases ok
      · rename_i running
        obtain ⟨result, ran, rfl⟩ := ok_of_map_ok ok
        simp only [HostProgram.within, quits]
        rw [if_neg running, show setup.seat.host = setup.system .left from rfl, ran]
        rfl
  | wait rest =>
      simp only [program] at ok
      split at ok
      · cases ok
      · rename_i readData held
        have found : sharedSlot.get setup.seat.host.app = some readData := held
        simp only [HostProgram.within, quits, ReadSlot.waiting, found, Option.any_some,
          Option.getD_some]
        split at ok
        · rename_i ends
          cases ok
          rw [if_pos ends]
          rfl
        · rename_i waits
          rw [if_neg waits]
          exact hostLoop_seat ok

theorem moved_device (system : System (HostAndMock μ)) (after : World (Shared HostApp)) :
    (system.moved .left after .right).app = (system .right).app := by
  have arrived : system.moved .left after .right =
      (system .right).arrive (transferred (system .left) after) :=
    moved_peer system .left after
  rw [arrived]
  rfl

theorem hostLoop_device (ok : hostLoop table bars setup = .ok next) :
    (next.system .right).app = (setup.system .right).app := by
  obtain ⟨system, stepped, rfl⟩ := ok_of_map_ok ok
  obtain ⟨after, -, rfl⟩ := ok_of_map_ok stepped
  exact moved_device setup.system after

theorem hostStep_device (ok : hostStep table bars setup = .ok next) :
    (next.system .right).app = (setup.system .right).app := by
  rw [hostStep] at ok
  cases program : setup.program with
  | done value =>
      simp only [program] at ok
      split at ok
      · cases ok
        rfl
      · exact hostLoop_device ok
  | expect readData rest =>
      simp only [program] at ok
      split at ok
      · cases ok
      · cases ok
        rfl
  | call request rest =>
      simp only [program] at ok
      split at ok
      · cases ok
      · obtain ⟨result, -, rfl⟩ := ok_of_map_ok ok
        exact moved_device setup.system result.2
  | wait rest =>
      simp only [program] at ok
      split at ok
      · cases ok
      · split at ok
        · cases ok
          rfl
        · exact hostLoop_device ok

theorem mockStep_seat (ok : mockStep table bars setup = .ok next) :
    setup.seat.deviceStep (hostAndMock table bars) (setup.system .right).app =
      .ok ((next.system .right).app, next.seat) := by
  rw [mockStep] at ok
  rw [Seat.deviceStep, show setup.seat.system .right = setup.system .right from rfl]
  split at ok
  · rename_i active
    obtain ⟨system, stepped, rfl⟩ := ok_of_map_ok ok
    obtain ⟨after, read, rfl⟩ := ok_of_map_ok stepped
    rw [if_pos active, read]
    have own : setup.system.moved .right after .right = after :=
      moved_self setup.system .right after
    simp only [own]
    rfl
  · rename_i inactive
    cases ok
    rw [if_neg inactive]

/-- The hub takes every step that the two sides take. -/
theorem setupStep_hub {side : Side} (ok : setupStep table bars setup side = .ok next) :
    hubStep (fun _ => hostAndMock table bars) setup.hub (0, side) = .ok next.hub := by
  cases side with
  | left =>
      have stepped := hostStep_seat ok
      rw [hubStep, show setup.hub.seat 0 = setup.seat from rfl, stepped]
      refine congrArg Except.ok ((setup.hub_withSeat ..).trans ?_)
      exact congrArg (Hub.mk · fun _ => next.seat) (hostStep_device ok).symm
  | right =>
      have stepped := mockStep_seat ok
      rw [hubStep, show setup.hub.seat 0 = setup.seat from rfl,
        show setup.hub.device = (setup.system .right).app from rfl, stepped]
      exact congrArg Except.ok (setup.hub_withSeat ..)

end

theorem setup_runs_hub {table : Fin 6 → BarEntry} {bars : BarMemory μ} {setup last : Setup μ α}
    {schedule : List Side} (ran : Runs.run (setupStep table bars) setup schedule = .ok last) :
    Runs.run (hubStep fun _ => hostAndMock table bars) setup.hub (schedule.map (Prod.mk 0)) =
      .ok last.hub := by
  induction schedule generalizing setup with
  | nil =>
      cases ran
      rfl
  | cons side rest ih =>
      obtain ⟨next, stepped, later⟩ := Runs.run_cons_ok ran
      rw [List.map_cons, Runs.run_cons (setupStep_hub stepped)]
      exact ih later

def enumerateThen (junk : Junk) (failed : α) (script : Script α) : HostProgram α :=
  (enumerate junk).bind fun ret => if ret < 0 then .done failed else script.program

/-- What a run of the hub comes to: no step fails, the host returns nothing but `value`, and turns
that leave no side out get it there with that memory and nothing under way. -/
def Settles (hub : Hub 1 (HostAndMock MockMemory) α) (value : α) (memory : MockMemory)
    (enough : Nat) : Prop :=
  (∀ schedule, ∃ last, Runs.run (hubStep fun _ => hostAndMock mockTable mockBars) hub
      schedule = .ok last ∧
    ∀ result, (last.seat (.last 0)).program = .done result → result = value) ∧
  ∀ rounds : List (List (Fin 1 × Side)), (∀ round ∈ rounds, ∀ mover, mover ∈ round) →
    enough ≤ rounds.length → ∃ last, Runs.run (hubStep fun _ => hostAndMock mockTable mockBars) hub
        rounds.flatten = .ok last ∧
      (last.seat (.last 0)).Idle ∧ (last.seat (.last 0)).program = .done value ∧
      memoryOf last.device = memory

section

variable {host : Process HostApp} {device : Process (MockDevice MockMemory)}
  {hostNode deviceNode : ClientNode}
  (fresh : FreshConnection mockTable mockBars host device hostNode deviceNode)
  (vendor : device.app.space.vendorId ≠ 0xFFFF) (type : device.app.space.headerType = 0)

include fresh vendor type

theorem FreshConnection.enumerates {σ : Type} {slot : ReadSlot σ} {cbs : Callbacks σ}
    (completes : slot.Completes cbs) (junk : Junk) (next : Int → Program σ α) (app : σ) :
    ∃ count, count ≤ 60 ∧
      ∃ (mock : Shared (MockDevice MockMemory)) (mockRegistry registry : Registry),
      memoryOf mock = device.app.memory ∧ Attached registry mockRegistry enumeratedWindows ∧
      Performs (withMock cbs mockTable mockBars)
        (device.shared deviceNode.ptr, deviceNode.client.registry)
        ⟨((enumerate junk).within slot).bind next, slot.put none app,
          hostNode.client.registry⟩ count
        (mock, mockRegistry) ⟨next 0, slot.put none app, registry⟩ := by
  obtain ⟨steps, final, few, exec, found⟩ := exec_enumerate junk mockTable_enumerable
    (show (startDirect device hostNode deviceNode).mock.1.space.vendorId ≠ 0xFFFF from vendor) type
      fresh.enumerated
  obtain ⟨_, _, client, -, latest, -⟩ := fresh.device_created
  have serves : Latest (startDirect device hostNode deviceNode).mock
      (device.shared deviceNode.ptr).self :=
    ⟨latest, congrArg Client.cfg0ReadCb client, congrArg Client.cfg0WriteCb client⟩
  obtain ⟨-, count, atMost, performs⟩ := exec.performs completes next app found.idle nofun serves
  have tabled : Tabled mockTable final.mock.2 := by
    refine exec.tabled fun barIdx set => absurd ?_ set
    exact congrFun (congrArg Client.bar client) barIdx
  exact ⟨count, by omega, { device.shared deviceNode.ptr with app := final.mock.1 }, _,
    _, exec.memory, found.attached tabled hostNode.client, performs⟩

theorem FreshConnection.script_performs (junk : Junk) (failed : α) {script : Script α} {count : Nat}
    (fits : script.Fits count) :
    ∃ steps, steps ≤ 60 + 2 * count ∧ ∃ after app registry,
      memoryOf after.1 = (script.result device.app.memory).1 ∧
      Performs (hostAndMock mockTable mockBars)
        (device.shared deviceNode.ptr, deviceNode.client.registry)
        ⟨(enumerateThen junk failed script).program, host.shared hostNode.ptr,
          hostNode.client.registry⟩ steps
        after ⟨.done (script.result device.app.memory).2, app, registry⟩ := by
  obtain ⟨first, atMost, mock, mockRegistry, registry, kept, attached, enumerates⟩ :=
    fresh.enumerates vendor type sharedSlot_completes junk
      (fun ret => HostProgram.program (if ret < 0 then .done failed else script.program))
        (host.shared hostNode.ptr)
  have stands : script.At ⟨script.program.program, (host.shared hostNode.ptr).setReadData none,
      registry⟩ (2 * count) :=
    .start rfl fits (Nat.le_refl _)
  obtain ⟨second, after, app, fewer, memory, accesses⟩ := stands.performs
    (show hostAndMock mockTable mockBars .left = hostApplication.callbacks from rfl) mock_remembers
    (show Attached _ (mock, mockRegistry).2 _ from attached)
  have whole := enumerates.trans accesses
  rw [kept] at memory whole
  obtain ⟨_, _, -, -, hostApp⟩ := fresh.host_created
  have started : sharedSlot.put none (host.shared hostNode.ptr) = host.shared hostNode.ptr := by
    simp only [sharedSlot, Shared.setReadData, Process.shared, hostApp]
  rw [started] at whole
  refine ⟨first + second, by omega, (after, mockRegistry), app, registry, memory, ?_⟩
  rw [HostProgram.program, enumerateThen, HostProgram.within_bind]
  exact whole

omit vendor type in
theorem FreshConnection.settles {program : HostProgram α} {steps enough : Nat} {value : α}
    {memory : MockMemory} {after : Shared (MockDevice MockMemory) × Registry} {app : Shared HostApp}
    {registry : Registry} (kept : memoryOf after.1 = memory) (atMost : 10 * steps ≤ enough)
    (performs : Performs (hostAndMock mockTable mockBars)
      (device.shared deviceNode.ptr, deviceNode.client.registry)
      ⟨program.program, host.shared hostNode.ptr, hostNode.client.registry⟩ steps after
        ⟨.done value, app, registry⟩) :
    Settles (Setup.hub ⟨connection host device hostNode deviceNode, false, program⟩) value
      memory enough := by
  have coupled := fresh.coupled program
  have idle :
      ((Setup.hub ⟨connection host device hostNode deviceNode, false, program⟩).seat 0).Idle := by
    refine ⟨coupled.linked, rfl, fun side => ?_⟩
    cases side with
    | left => exact coupled.host.active
    | right => exact coupled.mock.active
  obtain ⟨safe, live⟩ :=
    hub_transparent (fun _ _ _ _ _ => hostApplication_completion_calls ..) mock_remembers.mild idle
    performs
  refine ⟨safe, fun rounds fair many => ?_⟩
  obtain ⟨last, ran, rests, served, station⟩ := live rounds fair (atMost.trans many)
  exact ⟨last, ran, rests, congrArg Station.program station,
    (congrArg (fun served => memoryOf served.1) served).trans kept⟩

/-- Whatever turns the two sides take, a host that enumerates the mock and then runs a script
returns what the script returns on a memory of its own. -/
theorem script_settles (junk : Junk) (failed : α) {script : Script α} {count : Nat}
    (fits : script.Fits count) :
    Settles (Setup.hub ⟨connection host device hostNode deviceNode, false,
      enumerateThen junk failed script⟩)
      (script.result device.app.memory).2 (script.result device.app.memory).1
        (600 + 20 * count) := by
  obtain ⟨steps, atMost, after, app, registry, memory, performs⟩ :=
    fresh.script_performs vendor type junk failed fits
  exact fresh.settles memory (by omega) performs

/-- On a fresh connection `main` returns 0 and no assertion of it fails, whatever the memory of the
mock holds and whatever turns the two sides take; it leaves its greeting in BAR 1 and everything
else as it was. -/
theorem nativeMain_settles (junk : Junk) (block : Nat → Byte) {buf : Bytes}
    (size : buf.length = 16) :
    Settles (Setup.hub ⟨connection host device hostNode deviceNode, false,
      nativeMain junk block buf⟩) (some 0) (device.app.memory.write 0 hello) 700 := by
  obtain ⟨steps, atMost, after, app, registry, memory, performs⟩ :=
    fresh.script_performs vendor type junk (some (-1)) (nativeChecks_fits block size)
  rw [nativeChecks_result block size] at memory performs
  exact fresh.settles memory (by omega) performs

end

theorem mock_connects : ∃ host device hostNode deviceNode,
    FreshConnection mockTable mockBars host device hostNode deviceNode ∧
      device.app.space.vendorId ≠ 0xFFFF ∧
      device.app.space.headerType = 0 ∧ device.app.memory = zeroMemory := by
  obtain ⟨host, hostNode, connected, hostListed⟩ : ∃ host hostNode,
      serverAccept hostApplication connectingHost (acceptAt 3 1) = .ok (0, host) ∧
      host.server.clients = [hostNode] := ⟨_, _, rfl, rfl⟩
  obtain ⟨device, deviceNode, accepted, deviceListed, space, memory⟩ : ∃ device deviceNode,
      serverAccept (mockApplication mockTable mockBars) mockServer.process (acceptAt 4 1) =
        .ok (0, device) ∧
      findAt device.server.clients device.app.devClient = some deviceNode ∧
      device.app.space = resetBars mockTable mockServer.process.app.space ∧
      device.app.memory = zeroMemory :=
    ⟨_, _, rfl, rfl, rfl, rfl⟩
  refine ⟨host, device, hostNode, deviceNode,
    ⟨⟨_, _, rfl, rfl, rfl, acceptAt_reliable 3 1, connected⟩,
    ⟨_, _, fun _ _ _ => rfl, rfl, rfl, acceptAt_reliable 4 1, accepted⟩, hostListed, deviceListed⟩,
    ?_, ?_, memory⟩
  · rw [space]
    decide +kernel
  · rw [space]
    decide +kernel

theorem nativeMain_greets : ∃ host device hostNode deviceNode,
    FreshConnection mockTable mockBars host device hostNode deviceNode ∧
      Settles (Setup.hub ⟨connection host device hostNode deviceNode, false,
        nativeMain blankJunk (fun _ => 0) (List.replicate 16 0)⟩) (some 0) (zeroMemory.write 0
          hello) 700 := by
  obtain ⟨host, device, hostNode, deviceNode, fresh, vendor, type, memory⟩ := mock_connects
  have settles := nativeMain_settles fresh vendor type blankJunk (fun _ => 0)
    (List.length_replicate : (List.replicate 16 (0 : Byte)).length = 16)
  rw [memory] at settles
  exact ⟨host, device, hostNode, deviceNode, fresh, settles⟩

/-- A host reads back what it wrote across the end of BAR 1: what lies past the end is lost, and
reads as zero. -/
def pastTheEnd : Script Bytes :=
  .write (fun _ => 0) 1 2046 [1, 2, 3] 3 fun _ => .read 1 2045 4 [9, 9, 9, 9] fun _ buf => .done buf

theorem pastTheEnd_settles : ∃ host device hostNode deviceNode,
    FreshConnection mockTable mockBars host device hostNode deviceNode ∧
      Settles (Setup.hub ⟨connection host device hostNode deviceNode, false,
        enumerateThen blankJunk [] pastTheEnd⟩)
        [0, 1, 2, 0] (zeroMemory.write 2046 [1, 2, 3]) 640 := by
  obtain ⟨host, device, hostNode, deviceNode, fresh, vendor, type, memory⟩ := mock_connects
  have near {addr : BitVec 64} {length : Nat} (inside : addr.toNat < 2048)
      (small : 1 ≤ length ∧ length ≤ 4) : Reaches 1 addr length := by
    intro bar found
    cases found
    exact ⟨inside, small.1, by omega, by omega⟩
  have fits : pastTheEnd.Fits 2 := .write (Nat.le_refl 3) (near (by decide) (by decide)) fun _ =>
    .read (Nat.le_refl 4) (near (by decide) (by decide)) fun _ _ _ => .done 0 _
  have settles := script_settles fresh vendor type blankJunk [] fits
  have result : pastTheEnd.result zeroMemory = (zeroMemory.write 2046 [1, 2, 3], [0, 1, 2, 0]) := by
    refine Prod.ext rfl ?_
    change overwrite [9, 9, 9, 9] 0 ((zeroMemory.write 2046 [1, 2, 3]).read .bar1 2045 4) = _
    have blank (index : Nat) : getByte zeroMemory.bar1 index = 0 := by
      simp only [zeroMemory, getByte, List.getD_eq_getElem?_getD, List.getElem?_replicate]
      split <;> rfl
    have past : getByte (zeroMemory.write 2046 [1, 2, 3]).bar1 2048 = 0 := by
      have size := (zeroMemory.write 2046 [1, 2, 3]).length_bar1
      simp only [getByte, List.getD_eq_getElem?_getD, List.getElem?_eq_none (Nat.le_of_eq size),
        Option.getD_none]
    have read : (zeroMemory.write 2046 [1, 2, 3]).read .bar1 2045 4 = [0, 1, 2, 0] := by
      have bytes (memory : MockMemory) : memory.read .bar1 2045 4 =
          [2045, 2046, 2047, 2048].map (getByte memory.bar1) := rfl
      rw [bytes]
      simp only [List.map_cons, List.map_nil, past]
      rw [getByte_write _ _ _ (by decide), getByte_write _ _ _ (by decide),
        getByte_write _ _ _ (by decide), blank]
      rfl
    rw [read]
    rfl
  rw [memory, result] at settles
  exact ⟨host, device, hostNode, deviceNode, fresh, settles⟩

end WarpPipe
