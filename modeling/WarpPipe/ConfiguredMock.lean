import WarpPipe.MockIntegrity
import WarpPipe.YamlFlat

/-!
From the configuration file of the memory mock to a host on the other side of a connection: what the
file says is what a host reads, and it decides whether enumeration finds the device.
-/

namespace WarpPipe

open ByteLayout FieldTable

def Configures (files : YamlFiles) (options : List MockOption) (settings : List Setting) : Prop :=
  ∃ args, parseOptions defaultArgs options = .ok args ∧
    ((args.yamlPath = none ∧ settings = []) ∨
      ∃ path pairs rest, args.yamlPath = some path ∧ files path = some (flatEvents pairs rest) ∧
        FlatPairs pairs ∧ settings = pairSettings pairs)

/-- The bytes of a field of the header: the last value that the settings give for it, low byte first
and reduced to the width of the field, or what is compiled in. -/
def configuredField (settings : List Setting) (key : ConfigKey) : Bytes :=
  ((last settings key).map fun text =>
    littleEndian (configFields.size key) (strtoul text.bytes).value).getD
    (configFields.read configurationSpace.bytes key)

theorem memoryMockSetup_configured {files : YamlFiles} {options : List MockOption}
    {settings : List Setting} (configures : Configures files options settings) {args : MockArgs}
    {header : ConfigSpace} (setup : memoryMockSetup files options = .ok (args, header))
    (key : ConfigKey) :
    configFields.read header.bytes key = configuredField settings key := by
  obtain ⟨parsed, options, named⟩ := configures
  simp only [memoryMockSetup, parseArgs, options, bind, Except.bind, pure, Except.pure] at setup
  split at setup
  · cases setup
  · rename_i result read
    split at setup
    · cases setup
      rcases named with ⟨none, rfl⟩ | ⟨path, pairs, rest, given, file, flat, rfl⟩
      · rw [none] at read
        cases read
        rfl
      · simp only [given, file, fromYaml_flat flat] at read
        split at read
        · rename_i space same
          cases read
          rw [Prod.mk.injEq, Option.some.injEq] at same
          obtain ⟨code, rfl⟩ := same
          have all := (carryOut_code_eq_zero _ _).mp code
          have stores : settingStores (pairSettings pairs) =
              (pairSettings pairs).map fun setting => (setting.1, setting.bytes) := by
            rw [settingStores, carriedOut_of_allConvert all]
          refine (read_storeAll configurationSpace.length_bytes (settingStores_sized _) key).trans
            ?_
          rw [stores, last_map]
          rfl
        · cases read
    · cases setup

/-! A host on a new connection. -/

section

variable {μ α : Type} {table : Fin 6 → BarEntry} {bars : BarMemory μ} {host : Process HostApp}
  {device : Process (MockDevice μ)} {hostNode deviceNode : ClientNode}

theorem FreshConnection.returns (fresh : FreshConnection table bars host device hostNode deviceNode)
    {program : HostProgram α} {steps : Nat} {value : α} {final : Direct μ}
    (exec : Exec table program (startDirect device hostNode deviceNode) steps value final) :
    (∀ schedule, ∃ last,
      Runs.run (setupStep table bars) ⟨connection host device hostNode deviceNode, false, program⟩
        schedule = .ok last ∧
      ∀ result, last.program = .done result → result = value) ∧
    ∀ rounds : List (List Side), (∀ round ∈ rounds, ∀ side, side ∈ round) →
      5 * steps ≤ rounds.length → ∃ last, Runs.run (setupStep table bars)
          ⟨connection host device hostNode deviceNode, false, program⟩
          rounds.flatten = .ok last ∧ Ended value final last ∧
          ∀ side, (last.system side).sock.incoming = [] := by
  have track : OnTrack table value final
      ⟨connection host device hostNode deviceNode, false, program⟩
      ⟨steps, _, fun _ => []⟩ := ⟨rfl, _, fresh.coupled _, exec⟩
  refine ⟨fun schedule => ?_, fun rounds fair enough => track.ends fair enough⟩
  obtain ⟨last, later, ran, still⟩ := track.runs schedule
  exact ⟨last, ran, fun result => still.returned⟩

theorem exec_enumerate_absent (junk : Junk) {direct : Direct μ} (idle : direct.readData = none)
    (absent : direct.mock.1.space.vendorId = 0xFFFF ∨ direct.mock.1.space.headerType ≠ 0) :
    ∃ steps, steps ≤ 6 ∧ Exec table (enumerate junk) direct steps (-1) direct := by
  have first : Exec table (readConfigHeaderField junk.vendorId 0x0 2) direct 3 _ direct :=
    exec_readConfigHeaderField idle junk.vendorId (show (0x0 : BitVec 64).toNat / 4 = 0 from rfl)
      (by decide) (by decide)
  have second : Exec table (readConfigHeaderField junk.headerType 0xE 1) direct 3 _ direct :=
    exec_readConfigHeaderField idle junk.headerType (show (0xE : BitVec 64).toNat / 4 = 3 from rfl)
      (by decide) (by decide)
  rw [slice_dword _ (by decide)] at first second
  by_cases unknown : direct.mock.1.space.vendorId = 0xFFFF
  · refine ⟨3 + 0, by omega, first.bind ?_⟩
    change Exec table (if (4 : Int) < 0 ∨ direct.mock.1.space.vendorId = 0xFFFF then _ else _)
      _ _ _ _
    rw [if_pos (.inr unknown)]
    exact .done _ _
  · have type := absent.resolve_left unknown
    refine ⟨3 + (3 + 0), by omega, first.bind ?_⟩
    change Exec table (if (4 : Int) < 0 ∨ direct.mock.1.space.vendorId = 0xFFFF then _ else _)
      _ _ _ _
    rw [if_neg (not_or.mpr ⟨by decide, unknown⟩)]
    refine second.bind ?_
    change Exec table (if (4 : Int) < 0 ∨ direct.mock.1.space.headerType ≠ 0 then _ else _) _ _ _ _
    rw [if_pos (.inr type)]
    exact .done _ _

end

/-- A host has connected to the mock that stands at `before`, and the mock has accepted the
connection. -/
structure Connects (before : Process (MockDevice MockMemory)) (host : Process HostApp)
    (device : Process (MockDevice MockMemory)) (hostNode deviceNode : ClientNode) : Prop where
  connected : ∃ idle env, idle.server.clients = [] ∧ idle.server.acceptCb = none ∧
    idle.app = ⟨none, none⟩ ∧ env.sock.Reliable ∧
    serverAccept hostApplication idle env = .ok (0, host)
  accepted : ∃ env,
    (∀ ptr memory, env.client = some (ptr, memory) → findAt before.server.clients ptr = none) ∧
    env.sock.Reliable ∧ serverAccept (mockApplication mockTable mockBars) before env =
      .ok (0, device)
  hostListed : host.server.clients = [hostNode]
  deviceListed : findAt device.server.clients device.app.devClient = some deviceNode

def Detectable (settings : List Setting) : Prop :=
  ofLittleEndian 16 2 (configuredField settings .vendorId) ≠ 0xFFFF ∧
    ofLittleEndian 8 1 (configuredField settings .headerType) = 0

instance (settings : List Setting) : Decidable (Detectable settings) :=
  inferInstanceAs (Decidable (_ ∧ _))

theorem ConfigKey.within (key : ConfigKey) :
    key.offset / 4 < 16 ∧ (key.offset / 4 < 4 ∨ 10 ≤ key.offset / 4) ∧
    key.offset % 4 + key.size ≤ 4 := by
  cases key <;> decide

theorem read_dword (space : ConfigSpace) (key : ConfigKey) :
    slice (space.dword (key.offset / 4)) (key.offset % 4) key.size =
      configFields.read space.bytes key := by
  rw [slice_dword space key.within.2.2, Nat.div_add_mod]
  rfl

section

variable {env : MockEnv} {options : List MockOption} {turns : List MockTurn}
  {before : Process (MockDevice MockMemory)}
  (serving : mockMain env options turns = .ok (.serving before)) {settings : List Setting}
  (configures : Configures env.files options settings) {host : Process HostApp}
  {device : Process (MockDevice MockMemory)} {hostNode deviceNode : ClientNode}
  (connects : Connects before host device hostNode deviceNode)

include serving connects in
theorem Connects.fresh : FreshConnection mockTable mockBars host device hostNode deviceNode := by
  obtain ⟨_, _, -, -, upheld⟩ := mockMain_upheld serving
  obtain ⟨_, _, -, started⟩ := serving_of_mockMain serving
  have sane := memoryMarkStart_sane started
  obtain ⟨accept, unused, reliable, came⟩ := connects.accepted
  exact ⟨connects.connected, ⟨before, accept, unused, upheld.acceptCb, sane, reliable, came⟩,
    connects.hostListed, connects.deviceListed⟩

include serving configures connects in
theorem Connects.configured (key : ConfigKey) :
    slice (device.app.space.dword (key.offset / 4)) (key.offset % 4) key.size =
      configuredField settings key := by
  obtain ⟨args, header, setup, upholds, upheld⟩ := mockMain_upheld serving
  obtain ⟨accept, unused, reliable, came⟩ := connects.accepted
  have header_kept : device.app.space.dword (key.offset / 4) = header.dword (key.offset / 4) := by
    rcases (serverAccept_upheld upholds upheld came).app with ⟨first, -⟩ | guarded
    · rw [first]
      rfl
    · exact guarded.space.header _ key.within.1 key.within.2.1
  rw [header_kept, read_dword, memoryMockSetup_configured configures setup]

include serving configures connects

/-- What the configuration file says is what a host reads: whatever other hosts did before, whatever
turns the two sides take. -/
theorem configured_field_read (key : ConfigKey) (junk : BitVec 32) :
    (∀ schedule, ∃ last, Runs.run (setupStep mockTable mockBars)
          ⟨connection host device hostNode deviceNode, false,
        readConfigHeaderField junk (BitVec.ofNat 64 key.offset) key.size⟩ schedule = .ok last ∧
      ∀ result, last.program = .done result → result = (4, configuredField settings key)) ∧
    ∀ rounds : List (List Side), (∀ round ∈ rounds, ∀ side, side ∈ round) → 15 ≤ rounds.length →
      ∃ last, Runs.run (setupStep mockTable mockBars)
            ⟨connection host device hostNode deviceNode, false,
          readConfigHeaderField junk (BitVec.ofNat 64 key.offset) key.size⟩
            rounds.flatten = .ok last ∧
        last.program = .done (4, configuredField settings key) := by
  have place : (BitVec.ofNat 64 key.offset).toNat = key.offset := by
    cases key <;> rfl
  have idle : (startDirect device hostNode deviceNode).readData = none := rfl
  have exec : Exec mockTable _ _ 3 _ _ :=
    exec_readConfigHeaderField idle junk (congrArg (· / 4) place) key.within.1
    (by rw [place]; exact key.within.2.2)
  rw [place] at exec
  rw [show slice ((startDirect device hostNode deviceNode).mock.1.space.dword (key.offset / 4))
    (key.offset % 4) key.size = _ from connects.configured serving configures key] at exec
  obtain ⟨safe, live⟩ := (connects.fresh serving).returns exec
  refine ⟨safe, fun rounds fair enough => ?_⟩
  obtain ⟨last, ran, ended, -⟩ := live rounds fair enough
  exact ⟨last, ran, ended.program⟩

/-- Enumeration finds the mock exactly if the configuration file leaves it detectable. It then
leaves both sides in agreement; otherwise it returns -1 and leaves them as they were. -/
theorem configured_mock_found (junk : Junk) :
    (∀ schedule, ∃ last, Runs.run (setupStep mockTable mockBars)
        ⟨connection host device hostNode deviceNode, false, enumerate junk⟩ schedule = .ok last ∧
      ∀ result, last.program = .done result → result = if Detectable settings then 0 else -1) ∧
    ∀ rounds : List (List Side), (∀ round ∈ rounds, ∀ side, side ∈ round) → 300 ≤ rounds.length →
      ∃ last, Runs.run (setupStep mockTable mockBars)
          ⟨connection host device hostNode deviceNode, false, enumerate junk⟩
            rounds.flatten = .ok last ∧
        last.program = .done (if Detectable settings then 0 else -1) ∧
        (∀ side, (last.system side).sock.incoming = []) ∧
        if Detectable settings then
          Agreed mockTable device.app.space (last.system .right).app.app.space
            (last.system .left).client (last.system .right).client
        else
          (last.system .left).client.registry = hostNode.client.registry ∧
            (last.system .right).client.registry = deviceNode.client.registry ∧
            (last.system .right).app.app = device.app := by
  have fresh := connects.fresh serving
  have vendor : device.app.space.vendorId =
      ofLittleEndian 16 2 (configuredField settings .vendorId) := by
    rw [← connects.configured serving configures, slice_dword _ (by decide)]
    rfl
  have type : device.app.space.headerType =
      ofLittleEndian 8 1 (configuredField settings .headerType) := by
    rw [← connects.configured serving configures, slice_dword _ (by decide)]
    rfl
  by_cases detectable : Detectable settings
  · obtain ⟨steps, final, few, exec, found⟩ := exec_enumerate junk mockTable_enumerable
      (show (startDirect device hostNode deviceNode).mock.1.space.vendorId ≠
        0xFFFF from vendor ▸ detectable.1)
      (type.trans detectable.2) fresh.enumerated
    obtain ⟨safe, live⟩ := fresh.returns exec
    simp only [if_pos detectable]
    refine ⟨safe, fun rounds fair enough => ?_⟩
    obtain ⟨last, ran, ended, drained⟩ := live rounds fair (by omega)
    have mock : (last.system .right).app.app = final.mock.1 := congrArg Prod.fst ended.mock
    refine ⟨last, ran, ended.program, drained, ?_⟩
    rw [mock]
    exact found.agreed mockTable_enumerable ended.host (congrArg Prod.snd ended.mock)
  · have absent : device.app.space.vendorId = 0xFFFF ∨ device.app.space.headerType ≠ 0 := by
      by_cases unknown : device.app.space.vendorId = 0xFFFF
      · exact .inl unknown
      · exact .inr fun plain => detectable ⟨vendor ▸ unknown, type.symm.trans plain⟩
    have idle : (startDirect device hostNode deviceNode).readData = none := rfl
    obtain ⟨steps, few, exec⟩ : ∃ steps, steps ≤ 6 ∧ Exec mockTable _ _ steps (-1) _ :=
      exec_enumerate_absent junk idle absent
    obtain ⟨safe, live⟩ := fresh.returns exec
    simp only [if_neg detectable]
    refine ⟨safe, fun rounds fair enough => ?_⟩
    obtain ⟨last, ran, ended, drained⟩ := live rounds fair (by omega)
    exact ⟨last, ran, ended.program, drained, ended.host, congrArg Prod.snd ended.mock,
      congrArg Prod.fst ended.mock⟩

end

def fileEnv (pairs : List ScalarPair) : MockEnv :=
  { mockEnv with files := fun _ => some (flatEvents pairs []) }

theorem fileEnv_connects {pairs : List ScalarPair} (flat : FlatPairs pairs)
    (all : AllConvert (pairSettings pairs)) :
    ∃ before host device hostNode deviceNode,
      mockMain (fileEnv pairs) [.file idText] [] = .ok (.serving before) ∧
      Configures (fileEnv pairs).files [.file idText] (pairSettings pairs) ∧
      Connects before host device hostNode deviceNode := by
  have setup : memoryMockSetup (fileEnv pairs).files [.file idText] =
      .ok ({ defaultArgs with yamlPath := some idText },
        (carryOut (pairSettings pairs) configurationSpace).2) := by
    simp only [memoryMockSetup, parseArgs, parseOptions, fileEnv, bind, Except.bind,
      pure, Except.pure, fromYaml_flat flat, (carryOut_code_eq_zero _ _).mpr all]
    rfl
  generalize (carryOut (pairSettings pairs) configurationSpace).2 = header at setup
  obtain ⟨host, hostNode, connected, hostListed⟩ : ∃ host hostNode,
      serverAccept hostApplication connectingHost (acceptAt 3 1) = .ok (0, host) ∧
      host.server.clients = [hostNode] := ⟨_, _, rfl, rfl⟩
  obtain ⟨before, device, deviceNode, started, none, accepted, deviceListed⟩ :
      ∃ before device deviceNode,
        memoryMarkStart (fileEnv pairs) { defaultArgs with yamlPath := some idText } header [] =
        .ok (Option.none, before) ∧ before.server.clients = [] ∧
      serverAccept (mockApplication mockTable mockBars) before (acceptAt 4 1) = .ok (0, device) ∧
      findAt device.server.clients device.app.devClient = some deviceNode :=
        ⟨_, _, _, rfl, rfl, rfl, rfl⟩
  refine ⟨before, host, device, hostNode, deviceNode, ?_,
    ⟨_, rfl, .inr ⟨_, pairs, [], rfl, rfl, flat, rfl⟩⟩,
    ⟨⟨_, _, rfl, rfl, rfl, acceptAt_reliable 3 1, connected⟩,
      ⟨_, fun _ _ _ => by rw [none]; rfl, acceptAt_reliable 4 1, accepted⟩,
      hostListed, deviceListed⟩⟩
  simp only [mockMain, setup, started, bind, Except.bind, pure, Except.pure]

theorem sample_vendor_read : ∃ host device hostNode deviceNode last,
    Runs.run (setupStep mockTable mockBars) ⟨connection host device hostNode deviceNode, false,
      readConfigHeaderField 0 0 2⟩ (List.replicate 15 [Side.left, Side.right]).flatten = .ok last ∧
    last.program = .done (4, [0x4d, 0x14]) := by
  obtain ⟨before, host, device, hostNode, deviceNode, serving, configures, connects⟩ :=
    fileEnv_connects samplePairs_flat (by decide +kernel)
  have fair : ∀ round ∈ List.replicate 15 [Side.left, Side.right], ∀ side, side ∈ round := by
    intro round member side
    rw [List.eq_of_mem_replicate member]
    cases side <;> decide
  obtain ⟨last, ran, returned⟩ :=
    (configured_field_read serving configures connects .vendorId 0).2 _ fair (by decide)
  have field : configuredField (pairSettings samplePairs) .vendorId = [0x4d, 0x14] := by
    decide +kernel
  rw [field] at returned
  exact ⟨host, device, hostNode, deviceNode, last, ran, returned⟩

def absentPairs : List ScalarPair :=
  [(ConfigKey.vendorId.text, ⟨asciiBytes "0xffff", by decide +kernel⟩)]

theorem absent_vendor_not_found : ∃ host device hostNode deviceNode last,
    Runs.run (setupStep mockTable mockBars)
      ⟨connection host device hostNode deviceNode, false, enumerate blankJunk⟩
      (List.replicate 300 [Side.left, Side.right]).flatten = .ok last ∧
      last.program = .done (-1) := by
  have flat : FlatPairs absentPairs := by
    intro pair member
    rw [List.mem_singleton.mp member]
    simp [findKey_text]
  obtain ⟨before, host, device, hostNode, deviceNode, serving, configures, connects⟩ :=
    fileEnv_connects flat (by decide +kernel)
  have fair : ∀ round ∈ List.replicate 300 [Side.left, Side.right], ∀ side, side ∈ round := by
    intro round member side
    rw [List.eq_of_mem_replicate member]
    cases side <;> decide
  obtain ⟨last, ran, returned, -⟩ :=
    (configured_mock_found serving configures connects blankJunk).2 _ fair
      (by rw [List.length_replicate])
  rw [if_neg (by decide +kernel)] at returned
  exact ⟨host, device, hostNode, deviceNode, last, ran, returned⟩

end WarpPipe
