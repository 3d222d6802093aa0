import WarpPipe.MockMainCore
import WarpPipe.Upkeep

/-!
What no host can do to the memory mock. Its hosts may send any bytes at any time and come and go:
the read-only BAR, the header and the layout of the BAR registers stay as the program and its
configuration file set them.
-/

namespace WarpPipe

open ByteLayout

def BarEntry.Decodes (entry : BarEntry) (register : Bytes) : Prop :=
  ∃ value, register = littleEndian 4 (barAddr entry.toBarConfig value ||| entry.config.setWidth 32)

structure ConfigSpace.Guarded (space : ConfigSpace) (table : Fin 6 → BarEntry)
    (header : ConfigSpace) : Prop where
  header : ∀ index < 16, index < 4 ∨ 10 ≤ index → space.dword index = header.dword index
  bars : ∀ barIdx : Fin 6, (table barIdx).Decodes (space.dword (4 + barIdx.val))

/-- The registrations of a client: the callbacks of the mock, and BARs of the table at addresses
that they decode. -/
structure Registry.OfTable (registry : Registry) (table : Fin 6 → BarEntry) : Prop where
  configRead : registry.cfg0ReadCb = none ∨ registry.cfg0ReadCb = some config0ReadPtr
  configWrite : registry.cfg0WriteCb = none ∨ registry.cfg0WriteCb = some config0WritePtr
  bars : ∀ barIdx,
    (registry.bar barIdx = 0 ∧ registry.barSize barIdx = 0 ∧ registry.barReadCb barIdx = none ∧
      registry.barWriteCb barIdx = none) ∨
    ((∃ value, registry.bar barIdx = barAddr (table barIdx).toBarConfig value) ∧
      registry.barSize barIdx = (table barIdx).size ∧
      registry.barReadCb barIdx = (table barIdx).readCb ∧
      registry.barWriteCb barIdx = (table barIdx).writeCb)

section

variable {μ : Type} {table : Fin 6 → BarEntry} {bars : BarMemory μ}

theorem Registry.OfTable.registerBar {registry : Registry} (ofTable : registry.OfTable table)
    (barIdx : Fin 6) (value : BitVec 32) :
    (registry.after (.registerBar ((barAddr (table barIdx).toBarConfig value).setWidth 64)
      (table barIdx).size barIdx (table barIdx).readCb (table barIdx).writeCb)).OfTable table := by
  simp only [Registry.after]
  split
  · exact ofTable
  · split
    · exact ofTable
    · refine ⟨ofTable.configRead, ofTable.configWrite, fun other => ?_⟩
      by_cases same : other = barIdx
      · subst same
        refine .inr ⟨⟨value, ?_⟩, Function.update_self .., Function.update_self ..,
          Function.update_self ..⟩
        exact (Function.update_self ..).trans (BitVec.setWidth_setWidth_of_le _ (by decide))
      · simp only [Function.update_of_ne same]
        exact ofTable.bars other

theorem config0WriteCb_keeps (space : ConfigSpace) (addr : BitVec 64) (data : Bytes)
    (length : Int) :
    ∀ call ∈ (config0WriteCb table space addr data length).2, call.Keeps fun registry =>
      registry.OfTable table := by
  intro call member
  simp only [config0WriteCb] at member
  split at member
  · cases member
  · split at member
    · rename_i barIdx found
      simp only [handleConfigBarWrite] at member
      split at member
      · rw [List.mem_singleton.mp member]
        exact fun registry ofTable => ofTable.registerBar barIdx _
      · cases member
    · cases member

theorem ConfigSpace.Guarded.setBar {space header : ConfigSpace}
    (guarded : space.Guarded table header) {barIdx : Fin 6} {value : BitVec 32}
    (decodes : (table barIdx).Decodes (littleEndian 4 value)) :
    (space.setBar barIdx value).Guarded table header := by
  refine ⟨header_setBar guarded.header, fun other => ?_⟩
  rw [dword_setBar]
  split
  · rename_i hit
    obtain rfl : other = barIdx := Fin.ext (by omega)
    exact decodes
  · exact guarded.bars other

theorem ConfigSpace.Guarded.config0Write {space header : ConfigSpace}
    (guarded : space.Guarded table header) (addr : BitVec 64) (data : Bytes) (length : Int) :
    (config0WriteCb table space addr data length).1.Guarded table header := by
  simp only [config0WriteCb]
  split
  · exact guarded
  · split
    · exact guarded.setBar ⟨_, rfl⟩
    · exact guarded

theorem resetBars_dword (barIdxs : List (Fin 6)) (space : ConfigSpace) (barIdx : Fin 6) :
    (barIdxs.foldl (fun space barIdx =>
        space.setBar barIdx (((table barIdx).config &&& 0xf).setWidth 32)) space).dword
          (4 + barIdx.val) =
      if barIdx ∈ barIdxs
        then littleEndian 4 (((table barIdx).config &&& 0xf).setWidth 32 : BitVec 32)
      else space.dword (4 + barIdx.val) := by
  induction barIdxs generalizing space with
  | nil => rfl
  | cons first rest ih =>
      rw [List.foldl_cons, ih, dword_setBar]
      by_cases later : barIdx ∈ rest
      · rw [if_pos later, if_pos (List.mem_cons_of_mem _ later)]
      · by_cases same : barIdx = first
        · subst same
          rw [if_neg later, if_pos rfl, if_pos List.mem_cons_self]
        · rw [if_neg later, if_neg fun hit => same (Fin.ext (by omega)),
            if_neg fun member => (List.mem_cons.mp member).elim same later]

theorem resetBars_guarded (typed : ∀ barIdx, (table barIdx).config &&& 0xf = (table barIdx).config)
    {space header : ConfigSpace}
    (kept : ∀ index < 16, index < 4 ∨ 10 ≤ index → space.dword index = header.dword index) :
    (resetBars table space).Guarded table header := by
  refine ⟨?_, fun barIdx => ⟨0#32, ?_⟩⟩
  · exact List.foldlRecOn (motive := fun space : ConfigSpace =>
      ∀ index < 16, index < 4 ∨ 10 ≤ index → space.dword index = header.dword index)
      (List.finRange 6) _ kept fun current held barIdx _ => header_setBar held
  · rw [resetBars, resetBars_dword, if_pos (List.mem_finRange barIdx), typed, barAddr,
      BitVec.zero_and, BitVec.zero_or]

structure MockDevice.Guarded (device : MockDevice μ) (table : Fin 6 → BarEntry)
    (header : ConfigSpace) (kept : μ → Prop) : Prop where
  space : device.space.Guarded table header
  memory : kept device.memory

theorem mockApplication_upholds
    (typed : ∀ barIdx, (table barIdx).config &&& 0xf = (table barIdx).config) {kept : μ → Prop}
    (keeps : ∀ cb memory addr data length after, kept memory →
      bars.write cb memory addr data length = .ok after → kept after)
    {start : MockDevice μ} (first : kept start.memory) :
    (mockApplication table bars).Upholds serverClientAcceptPtr start
      (fun device => device.Guarded table start.space kept) fun registry =>
        registry.OfTable table where
  created memory fd := ⟨.inl rfl, .inl rfl, fun barIdx => .inl ⟨rfl, rfl, rfl, rfl⟩⟩
  accept device ptr before := by
    rw [mockApplication_accept]
    simp only [serverClientAccept]
    rcases before with same | guarded
    · rw [same]
      refine ⟨resetBars_guarded typed ?_, first⟩
      intro index _ _
      rfl
    · exact ⟨resetBars_guarded typed guarded.space.header, guarded.memory⟩
  acceptCalls device ptr call member := by
    rw [mockApplication_accept] at member
    obtain ⟨request, listed, rfl⟩ := List.mem_map.mp member
    rcases List.mem_pair.mp listed with rfl | rfl
    · exact fun registry ofTable => ⟨.inr rfl, ofTable.configWrite, ofTable.bars⟩
    · exact fun registry ofTable => ⟨ofTable.configRead, .inr rfl, ofTable.bars⟩
  read cb device self addr length guarded := by
    simp only [mockApplication, deviceCallbacks]
    split
    · exact guarded
    · exact ⟨guarded.space, guarded.memory⟩
  readCalls cb device self addr length call member := by
    simp only [mockApplication, deviceCallbacks_read_calls, List.map_nil] at member
    cases member
  write cb device self addr data length guarded := by
    simp only [mockApplication, deviceCallbacks]
    split
    · exact ⟨guarded.space.config0Write addr data length, guarded.memory⟩
    · split
      · rename_i after written
        exact ⟨guarded.space, keeps cb _ addr data length after guarded.memory written⟩
      · exact ⟨guarded.space, guarded.memory⟩
  writeCalls cb device self addr data length call member := by
    obtain ⟨request, listed, rfl⟩ := List.mem_map.mp member
    by_cases config : cb = config0WritePtr
    · simp only [deviceCallbacks, if_pos config] at listed
      exact config0WriteCb_keeps _ addr data length request listed
    · rw [deviceCallbacks_write_calls config] at listed
      cases listed
  completion cb device self errorCode data length guarded := guarded
  completionCalls cb device self errorCode data length := List.forall_mem_nil _

end

/-! The whole program. -/

theorem mockTurn_ok {process next : Process (MockDevice MockMemory)} {turn : MockTurn}
    (ok : mockTurn process turn = .ok next) :
    next = process ∨
      serverStep (mockApplication mockTable mockBars) process turn.input = .ok next ∧
        next.app.fault = none := by
  simp only [mockTurn, bind, Except.bind, pure, Except.pure] at ok
  split at ok
  · cases ok
    exact .inl rfl
  · split at ok
    · cases ok
    · rename_i after stepped
      split at ok
      · rename_i sane
        cases ok
        exact .inr ⟨stepped, sane⟩
      · cases ok

theorem mockTurn_upheld {start : MockDevice MockMemory} {holds : MockDevice MockMemory → Prop}
    {fits : Registry → Prop}
    (upholds : (mockApplication mockTable mockBars).Upholds serverClientAcceptPtr start holds fits)
    {process next : Process (MockDevice MockMemory)} {turn : MockTurn}
    (upheld : process.Upheld serverClientAcceptPtr start holds fits)
    (ok : mockTurn process turn = .ok next) :
    next.Upheld serverClientAcceptPtr start holds fits := by
  rcases mockTurn_ok ok with rfl | ⟨stepped, -⟩
  · exact upheld
  · cases turn with
    | loop env => exact serverLoop_upheld upholds upheld stepped
    | network ptr sock =>
        cases stepped
        refine ⟨upheld.acceptCb, upheld.app.imp_left fun first => ⟨first.1, ?_⟩,
          fun node member => ?_⟩
        · simp only [Process.withClients, first.2]
          rfl
        · obtain ⟨before, inside, rfl⟩ := List.mem_map.mp member
          split
          · exact upheld.fits before inside
          · exact upheld.fits before inside

theorem memoryMarkStart_upheld {env : MockEnv} {args : MockArgs} {space : ConfigSpace}
    {turns : List MockTurn} {exit : Option Int} {process : Process (MockDevice MockMemory)}
    {holds : MockDevice MockMemory → Prop} {fits : Registry → Prop}
    (upholds : (mockApplication mockTable mockBars).Upholds serverClientAcceptPtr
      (mockProcess env.openFds args space).app holds fits)
    (ok : memoryMarkStart env args space turns = .ok (exit, process)) :
    process.Upheld serverClientAcceptPtr (mockProcess env.openFds args space).app holds fits := by
  have first : (warppipeServerRegisterAcceptCb (mockProcess env.openFds args space)
      (some serverClientAcceptPtr)).Upheld serverClientAcceptPtr (mockProcess env.openFds args
        space).app holds fits :=
    ⟨rfl, .inl ⟨rfl, rfl⟩, List.forall_mem_nil _⟩
  simp only [memoryMarkStart, bind, Except.bind, pure, Except.pure] at ok
  split at ok
  · cases ok
  · rename_i created started
    have upheld := serverCreate_upheld upholds first started
    split at ok
    · split at ok
      · cases ok
      · rename_i last ran
        cases ok
        have keeps (process : Process (MockDevice MockMemory)) (turn : MockTurn)
            (next : Process (MockDevice MockMemory))
            (upheld : process.Upheld serverClientAcceptPtr (mockProcess env.openFds args space).app
              holds fits) (_ : True)
            (stepped : mockTurn process turn = .ok next) :
            next.Upheld serverClientAcceptPtr (mockProcess env.openFds args space).app holds fits :=
          mockTurn_upheld upholds upheld stepped
        exact Runs.run_invariant keeps upheld (Runs.along_of_forall _ fun _ _ => trivial) ran
    · cases ok
      exact upheld

section

variable {μ : Type} {table : Fin 6 → BarEntry} {bars : BarMemory μ}
  {process next : Process (MockDevice μ)}

theorem accept_fault (cb : FnPtr) (device : MockDevice μ) (ptr : Nat) :
    ((mockApplication table bars).accept cb device ptr).app.fault = device.fault := by
  by_cases own : cb = serverClientAcceptPtr
  · simp only [mockApplication, if_pos own, serverClientAccept]
  · simp only [mockApplication, if_neg own]

theorem insertClient_fault {fd : Int} {env : AcceptEnv}
    (ok : insertClient (mockApplication table bars) process fd env = .ok (0, next)) :
    next.app.fault = process.app.fault := by
  obtain ⟨ptr, memory, -, ⟨-, app, -⟩ | ⟨cb, -, app, -⟩⟩ := insertClient_created ok
  · rw [app]
  · rw [app, accept_fault]

theorem serverAccept_fault {env : AcceptEnv} {rc : Int}
    (ok : serverAccept (mockApplication table bars) process env = .ok (rc, next)) :
    next.app.fault = process.app.fault := by
  cases serverAccept_step ok with
  | unchanged => rfl
  | leaked => rfl
  | accepted listens came named allocated inserted =>
      have kept := insertClient_fault inserted
      exact kept
  | connected connects empty allocated inserted => exact insertClient_fault inserted

theorem serverCreate_fault {addresses : Option (List AddrStep)} {env : AcceptEnv} {rc : Int}
    (ok : warppipeServerCreate (mockApplication table bars) process addresses env =
      .ok (rc, next)) :
    next.app.fault = process.app.fault := by
  have ready {socket : Option Int} {ready : Process (MockDevice μ)} {steps : List AddrStep}
      (bound : setUpSocket process steps = (socket, ready)) :
        ready.app.fault = process.app.fault := by
    obtain ⟨-, app⟩ := setUpSocket_kept process steps
    rw [bound] at app
    rw [app]
  cases serverCreate_step ok with
  | unresolved => rfl
  | gaveUp failed => exact ready failed
  | listening bound listens =>
      have kept := ready bound
      exact kept
  | connecting bound connects accepted =>
      have kept := ready bound
      exact (serverAccept_fault accepted).trans kept

end

theorem memoryMarkStart_sane {env : MockEnv} {args : MockArgs} {space : ConfigSpace}
    {turns : List MockTurn} {exit : Option Int} {process : Process (MockDevice MockMemory)}
    (ok : memoryMarkStart env args space turns = .ok (exit, process)) :
    process.app.fault = none := by
  simp only [memoryMarkStart, bind, Except.bind, pure, Except.pure] at ok
  split at ok
  · cases ok
  · rename_i created started
    have sane : created.2.app.fault = none := serverCreate_fault started
    split at ok
    · split at ok
      · cases ok
      · rename_i last ran
        cases ok
        have keeps (before : Process (MockDevice MockMemory)) (turn : MockTurn)
            (after : Process (MockDevice MockMemory)) (sane : before.app.fault = none) (_ : True)
            (stepped : mockTurn before turn = .ok after) : after.app.fault = none := by
          rcases mockTurn_ok stepped with rfl | ⟨-, fine⟩
          · exact sane
          · exact fine
        exact Runs.run_invariant keeps sane (Runs.along_of_forall _ fun _ _ => trivial) ran
    · cases ok
      exact sane

theorem mockTable_typed :
    ∀ barIdx, (mockTable barIdx).config &&& 0xf = (mockTable barIdx).config := by
  decide

theorem serving_of_mockMain {env : MockEnv} {options : List MockOption} {turns : List MockTurn}
    {process : Process (MockDevice MockMemory)}
    (serving : mockMain env options turns = .ok (.serving process)) :
    ∃ args header, memoryMockSetup env.files options = .ok (args, header) ∧
      memoryMarkStart env args header turns = .ok (none, process) := by
  simp only [mockMain] at serving
  split at serving
  · cases serving
  · rename_i args header setup
    refine ⟨args, header, setup, ?_⟩
    simp only [bind, Except.bind, pure, Except.pure] at serving
    split at serving
    · cases serving
    · rename_i result started
      split at serving
      · cases serving
      · cases serving
        exact started

theorem mockMain_upheld {env : MockEnv} {options : List MockOption} {turns : List MockTurn}
    {process : Process (MockDevice MockMemory)}
    (serving : mockMain env options turns = .ok (.serving process)) :
    ∃ args header, memoryMockSetup env.files options = .ok (args, header) ∧
      (mockApplication mockTable mockBars).Upholds serverClientAcceptPtr
        (mockProcess env.openFds args header).app
        (fun device => device.Guarded mockTable header fun memory => memory.bar0 = mockMemory.bar0)
        (fun registry => registry.OfTable mockTable) ∧
      process.Upheld serverClientAcceptPtr (mockProcess env.openFds args header).app
        (fun device => device.Guarded mockTable header fun memory => memory.bar0 = mockMemory.bar0)
        fun registry => registry.OfTable mockTable := by
  obtain ⟨args, header, setup, started⟩ := serving_of_mockMain serving
  have readOnly (cb : FnPtr) (memory : MockMemory) (addr : BitVec 64) (data : Bytes) (length : Int)
      (after : MockMemory) (kept : memory.bar0 = mockMemory.bar0)
      (written : mockBars.write cb memory addr data length = .ok after) :
        after.bar0 = mockMemory.bar0 := by
    simp only [mockBars, MockMemory.writeBar1] at written
    split at written
    · cases copied : copyLength (barsConfig 1) addr length with
      | error fault => simp [copied, Except.map] at written
      | ok count =>
          simp only [copied, Except.map] at written
          cases written
          exact kept
    · cases written
      exact kept
  have upholds : (mockApplication mockTable mockBars).Upholds serverClientAcceptPtr
      (mockProcess env.openFds args header).app
      (fun device => device.Guarded mockTable header fun memory => memory.bar0 = mockMemory.bar0)
      fun registry => registry.OfTable mockTable :=
        mockApplication_upholds mockTable_typed readOnly rfl
  exact ⟨args, header, setup, upholds, memoryMarkStart_upheld upholds started⟩

/-- Whatever the hosts of the mock send, and however many of them come and go: the header is the one
that the program was started with, the BAR registers decode their BARs once a host is there, BAR 0
is as it was compiled in, and every client holds the callbacks of the mock and BARs of its table, at
addresses that these decode. -/
theorem mock_integrity {env : MockEnv} {options : List MockOption} {turns : List MockTurn}
    {process : Process (MockDevice MockMemory)}
    (serving : mockMain env options turns = .ok (.serving process)) :
    ∃ args header, memoryMockSetup env.files options = .ok (args, header) ∧
      (∀ index < 16, index < 4 ∨ 10 ≤ index → process.app.space.dword index = header.dword index) ∧
      (process.server.clients ≠ [] →
        ∀ barIdx : Fin 6, (mockTable barIdx).Decodes (process.app.space.dword (4 + barIdx.val))) ∧
      process.app.memory.bar0 = mockMemory.bar0 ∧
      ∀ node ∈ process.server.clients, node.client.registry.OfTable mockTable := by
  obtain ⟨args, header, setup, -, upheld⟩ := mockMain_upheld serving
  refine ⟨args, header, setup, ?_⟩
  rcases upheld.app with ⟨first, none⟩ | guarded
  · rw [first]
    exact ⟨fun _ _ _ => rfl, fun some => absurd none some, rfl, upheld.fits⟩
  · exact ⟨guarded.space.header, fun _ => guarded.space.bars, guarded.memory, upheld.fits⟩

def mockEnv : MockEnv where
  files _ := none
  openFds := {0, 1, 2}
  addresses _ := some [.bound 3]
  connected := acceptAt (-1) 0

/-- A host connects and gives the first BAR an address that it does not decode. -/
def addressing : List MockTurn :=
  [.loop ⟨.ready {3}, acceptAt 4 1⟩,
    .network 1 ⟨sealTlp 1 (writeBlock (fun _ => 0) 0x10 [0x34, 0x12, 0, 0x10] .cw0), [], []⟩,
    .loop ⟨.ready {4}, acceptAt (-1) 0⟩]

def MockMain.firstBar : MockMain → Option (Nat × Bytes)
  | .serving process => some (process.server.clients.length, process.app.space.dword 4)
  | .exited _ => none

theorem addressing_guarded : ∃ process, mockMain mockEnv [] addressing = .ok (.serving process) ∧
    (mockTable 0).Decodes (process.app.space.dword 4) ∧
    process.app.space.dword 4 = [0x01, 0x12, 0, 0x10] := by
  have seen : (mockMain mockEnv [] addressing).map MockMain.firstBar =
      .ok (some (1, [0x01, 0x12, 0, 0x10])) := by
    decide +kernel
  match ran : mockMain mockEnv [] addressing with
  | .error fault => rw [ran] at seen; cases seen
  | .ok (.exited code) => rw [ran] at seen; cases seen
  | .ok (.serving process) =>
      have found : (process.server.clients.length, process.app.space.dword 4) =
          (1, [0x01, 0x12, 0, 0x10]) := by
        rw [ran] at seen
        exact Option.some.inj (Except.ok.inj seen)
      rw [Prod.mk.injEq] at found
      obtain ⟨-, -, -, -, bars, -⟩ := mock_integrity ran
      refine ⟨process, rfl, bars (fun none => ?_) 0, found.2⟩
      rw [none] at found
      cases found.1

end WarpPipe
