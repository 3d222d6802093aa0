import WarpPipe.FailedAccepts

/-!
SIGINT. The handler that `warppipe_server_create` installs disconnects every client and closes the
socket of the server. A server that connected has one descriptor for both, which it closes twice.
-/

namespace WarpPipe

variable {σ : Type}

inductive SigintHandler where
  | ign
  | dfl
  | function (handler : FnPtr)
  deriving DecidableEq

inductive Disposition where
  | dfl
  | handleSigint
  deriving DecidableEq

/-- A process with its SIGINT: `forwarded` are the calls of the handler that was there before. -/
structure Signalled (σ : Type) where
  process : Process σ
  disposition : Disposition
  pending : Bool
  forwarded : List FnPtr

def Process.shutDown (process : Process σ) : Process σ :=
  let process := { process with server := { process.server with quit := true } }
  let process := warppipeServerDisconnectClients process none
  process.closeFd process.server.fd

def handleSigint (earlier : SigintHandler) (state : Signalled σ) : Signalled σ :=
  match earlier with
  | .ign => state
  | .dfl =>
    let state := { state with process := state.process.shutDown, disposition := .dfl }
    -- SIGINT is blocked while its handler runs: what `raise` sends stays pending
    let state := { state with pending := true }
    { state with disposition := .handleSigint }
  | .function handler =>
    { state with process := state.process.shutDown, forwarded := state.forwarded ++ [handler] }

/-- A pending SIGINT is delivered once no handler runs; with `SIG_DFL` it ends the process. -/
def deliver (earlier : SigintHandler) (state : Signalled σ) : Option (Signalled σ) :=
  if state.pending then
    match state.disposition with
    | .dfl => none
    | .handleSigint => some (handleSigint earlier { state with pending := false })
  else some state

def deliveries (earlier : SigintHandler) : Nat → Signalled σ → Option (Signalled σ)
  | 0, state => some state
  | n + 1, state => (deliver earlier state).bind (deliveries earlier n)

def Process.interrupted (process : Process σ) : Signalled σ where
  process := process
  disposition := .handleSigint
  pending := true
  forwarded := []

theorem loopAfterSelect_nobody {application : Application σ} {process : Process σ}
    {accept : AcceptEnv} (listens : process.server.listen = true)
    (empty : process.server.clients = []) (nobody : accept.fd = -1) :
    loopAfterSelect application process accept = .ok process := by
  have refused : (serverAccept application process accept).map Prod.snd = .ok process := by
    simp only [serverAccept, if_pos listens, if_pos nobody]
    rfl
  simp only [loopAfterSelect, refused, ite_self, bind, Except.bind, pure, Except.pure, empty,
    List.map_nil, serverRead, warppipeServerDisconnectClients, List.foldl_nil]

structure Books.Spares (base : Finset Int) (books : Books) : Prop where
  opened : base ⊆ books.openFds
  own : books.fd ∉ base
  listed : ∀ entry ∈ books.listed, entry.2 ∉ base

section

variable {base : Finset Int} {books : Books}

theorem Books.Spares.drop (spares : books.Spares base) {entry : Nat × Int}
    (member : entry ∈ books.listed) :
    (books.drop entry).Spares base := by
  refine ⟨fun fd old => Finset.mem_erase.mpr ⟨?_, spares.opened old⟩, spares.own,
    fun other remains => ?_⟩
  · rintro rfl
    exact spares.listed entry member old
  · exact spares.listed other (Keyed.mem_remove.mp remains).1

theorem Books.Spares.add (spares : books.Spares base) (ptr : Nat) {fd : Int} (new : fd ∉ base) :
    (books.add ptr fd).Spares base := by
  refine ⟨spares.opened, spares.own, fun entry member => ?_⟩
  rcases List.mem_append.mp member with old | last
  · exact spares.listed entry old
  · rw [List.mem_singleton.mp last]
    exact new

theorem Books.Spares.withOpen (spares : books.Spares base) (fd : Int) :
    (books.withOpen fd).Spares base :=
  ⟨fun _ old => Finset.mem_insert_of_mem (spares.opened old), spares.own, spares.listed⟩

theorem Books.Spares.after {env : AcceptEnv} {after : Books} (spares : books.Spares base)
    (fresh : env.Fresh books) (accepts : books.Accepts env after) : after.Spares base := by
  have opened := spares.withOpen env.fd
  cases accepts with
  | same => exact spares
  | leaked => exact opened
  | accepted listens came ptr =>
      have new := (fresh.1 listens).resolve_left came
      exact opened.add ptr fun old => new (spares.opened old)
  | connected connects ptr => exact spares.add ptr spares.own

end

section

variable {application : Application σ} {process next : Process σ} {base : Finset Int}

theorem serverStep_spares {input : ServerInput} (order : process.InOrder)
    (admissible : Admissible process input) (spares : process.books.Spares base)
    (ok : serverStep application process input = .ok next) : next.books.Spares base := by
  refine serverStep_books (fun _ _ _ member held => Books.Spares.drop held member) order admissible
    ?_ spares ok
  rintro env after rfl _ accepts
  exact spares.after admissible.2 accepts

theorem serverCreate_spares {addresses : Option (List AddrStep)} {env : AcceptEnv}
    (fresh : ∀ steps, addresses = some steps → FreshSteps process.openFds steps)
    (created : warppipeServerCreate application process addresses env = .ok (0, next)) :
    next.books.Spares process.openFds := by
  obtain ⟨sfd, ready, -, opened, new, -, mode⟩ := serverCreate_cases fresh created
  have served : (ready.serveOn sfd).books.Spares process.openFds := by
    refine ⟨?_, new, List.forall_mem_nil _⟩
    rw [Process.books, show (ready.serveOn sfd).openFds = ready.openFds from rfl, opened]
    exact Finset.subset_insert _ _
  rcases mode with ⟨-, rfl⟩ | ⟨-, able, rc, accepted⟩
  · exact served
  · exact served.after able (serverAccept_books List.nodup_nil able accepted)

structure Process.Closable (base : Finset Int) (process : Process σ) : Prop where
  order : process.InOrder
  owned : process.books.Owned base
  spares : process.books.Spares base

theorem serverRun_closable {start state : Process σ} {addresses : Option (List AddrStep)}
    {env : AcceptEnv} {inputs : List ServerInput} (unused : process.events = [])
    (fresh : ∀ steps, addresses = some steps → FreshSteps process.openFds steps)
    (allocated : process.server.listen = false → env.Allocated)
    (created : warppipeServerCreate application process addresses env = .ok (0, start))
    (small : InFdSet start.server.fd)
    (along : Runs.Along (serverStep application) CleanStep start inputs)
    (ran : Runs.run (serverStep application) start inputs = .ok state) :
    state.Closable process.openFds := by
  have keeps : ∀ (before : Process σ) (input : ServerInput) (after : Process σ),
      before.Kept process.openFds ∧ before.books.Spares process.openFds → CleanStep before input →
      serverStep application before input = .ok after →
      after.Kept process.openFds ∧ after.books.Spares process.openFds := by
    intro before input after holds clean stepped
    exact ⟨serverStep_kept holds.1 clean stepped,
      serverStep_spares holds.1.bounded.order clean.1.1 holds.2 stepped⟩
  have kept := Runs.run_invariant keeps ⟨serverCreate_kept unused fresh allocated created small,
    serverCreate_spares fresh created⟩ along ran
  exact ⟨kept.1.bounded.order, kept.1.owned, kept.2⟩

end

section

variable {process : Process σ} {base : Finset Int}

def Process.emptied (process : Process σ) : Process σ :=
  warppipeServerDisconnectClients { process with server := { process.server with quit := true } }
    none

theorem Process.InOrder.quitting (order : process.InOrder) :
    Process.InOrder { process with server := { process.server with quit := true } } := by
  refine ⟨⟨order.books.ptrs, order.books.fds, order.books.opened, order.books.highest,
    fun needed => ?_, order.books.apart, order.books.joined⟩, order.closes⟩
  exact order.books.own (.inl (needed.resolve_right Bool.noConfusion))

theorem Process.Closable.emptied (closable : process.Closable base) :
    process.emptied.Closable base :=
  ⟨disconnect_inOrder closable.order.quitting none,
    disconnect_owned closable.order.quitting closable.owned none,
    disconnect_books (fun _ _ _ member held => Books.Spares.drop held member)
      closable.order.quitting ⟨closable.spares.opened, closable.spares.own,
        closable.spares.listed⟩ none⟩

theorem emptied_clients (order : process.InOrder) : process.emptied.server.clients = [] := by
  rw [Process.emptied, disconnect_clients order.quitting]
  exact List.filter_eq_nil_iff.mpr fun node _ => by simp [meets]

theorem emptied_server (order : process.InOrder) :
    process.emptied.server.fd = process.server.fd ∧
      process.emptied.server.listen = process.server.listen ∧
      process.emptied.server.quit = true := by
  have same := (disconnect_keeps (fun next : Process σ => next.server.fd = process.server.fd ∧
    next.server.listen = process.server.listen) none (fun _ _ _ _ same =>
      same) order.quitting ⟨rfl, rfl⟩).2
  exact ⟨same.1, same.2, by rw [Process.emptied, disconnect_quit]; rfl⟩

theorem Process.Closable.emptied_open (closable : process.Closable base) {fd : Int}
    (opened : fd ∈ process.emptied.openFds) :
    fd ∈ base ∨ process.server.listen = true ∧ fd = process.server.fd := by
  obtain ⟨same, mode, -⟩ := emptied_server closable.order
  rcases closable.emptied.owned fd opened with old | ⟨listens, own⟩ | listed
  · exact .inl old
  · exact .inr ⟨mode.symm.trans listens, own.trans same⟩
  · have nobody : process.emptied.books.listed = [] :=
      congrArg listing (emptied_clients closable.order)
    rw [nobody] at listed
    cases listed

theorem Process.shutDown_eq (process : Process σ) :
    process.shutDown = process.emptied.closeFd process.emptied.server.fd := rfl

theorem Process.Closable.shutDown_openFds (closable : process.Closable base) :
    process.shutDown.openFds = base := by
  have spared := closable.emptied.spares
  refine Finset.Subset.antisymm (fun fd opened => ?_) fun fd old =>
    Finset.mem_erase.mpr ⟨?_, spared.opened old⟩
  · obtain ⟨other, before⟩ := Finset.mem_erase.mp opened
    rcases closable.emptied_open before with old | ⟨-, own⟩
    · exact old
    · exact absurd (own.trans (emptied_server closable.order).1.symm) other
  · rintro rfl
    exact spared.own old

theorem deliver_interrupted (process : Process σ) {earlier : SigintHandler}
    (heeded : earlier ≠ .ign) :
    ∃ entered, deliver earlier process.interrupted = some entered ∧
      entered.process = process.shutDown := by
  cases earlier with
  | ign => exact absurd rfl heeded
  | dfl => exact ⟨_, rfl, rfl⟩
  | function handler => exact ⟨_, rfl, rfl⟩

structure Process.Stopped (process : Process σ) : Prop where
  quit : process.server.quit = true
  empty : process.server.clients = []
  closed : process.server.fd ∉ process.openFds

theorem Process.InOrder.shutDown (order : process.InOrder) : process.shutDown.Stopped :=
  ⟨(emptied_server order).2.2, emptied_clients order, Finset.notMem_erase _ _⟩

def Process.closedAgain (process : Process σ) (n : Nat) : Process σ :=
  { process with events := process.events ++ List.replicate n (.close process.server.fd false) }

theorem Process.Stopped.shutDown (stopped : process.Stopped) :
    process.shutDown = process.closedAgain 1 := by
  obtain ⟨openFds, ⟨fd, listen, quit, maxFd, readFds, clients, acceptCb⟩, app, events⟩ := process
  obtain ⟨rfl, rfl, closed⟩ := stopped
  replace closed : fd ∉ openFds := closed
  simp only [Process.shutDown, Process.closedAgain, warppipeServerDisconnectClients, List.foldl_nil,
    Process.closeFd, Finset.erase_eq_of_notMem closed, closed, decide_false, List.replicate_one]

theorem Process.closedAgain_add (process : Process σ) (m n : Nat) :
    (process.closedAgain m).closedAgain n = process.closedAgain (m + n) := by
  simp only [Process.closedAgain, List.replicate_add, List.append_assoc]

theorem Process.Stopped.deliveries_dfl (stopped : process.Stopped) (n : Nat) :
    deliveries .dfl n process.interrupted = some (process.closedAgain n).interrupted := by
  induction n generalizing process with
  | zero => simp only [deliveries, Process.closedAgain, List.replicate_zero, List.append_nil]
  | succ n ih =>
      have again : (process.closedAgain 1).Stopped := ⟨stopped.quit, stopped.empty, stopped.closed⟩
      have entered : deliver .dfl process.interrupted = some process.shutDown.interrupted := rfl
      rw [deliveries, entered, Option.bind_some, stopped.shutDown, ih again,
        Process.closedAgain_add, Nat.add_comm]

end

/-- A SIGINT that is heeded closes, when `handle_sigint` is first entered, every descriptor that was
not open before the server was created. Where the server listens, each was open when it was closed;
where it connected, the last `close` finds its descriptor closed. A handler that was there before is
called once, and an interrupted `warppipe_server_loop` of a listening server returns. With `SIG_DFL`
the signal is raised for ever, and each further entry closes the closed socket again. -/
theorem sigint_restores_descriptors {application : Application σ} {process start state : Process σ}
    {addresses : Option (List AddrStep)} {env : AcceptEnv} {inputs : List ServerInput}
    (unused : process.events = [])
    (fresh : ∀ steps, addresses = some steps → FreshSteps process.openFds steps)
    (allocated : process.server.listen = false → env.Allocated)
    (created : warppipeServerCreate application process addresses env = .ok (0, start))
    (small : InFdSet start.server.fd)
    (along : Runs.Along (serverStep application) CleanStep start inputs)
    (ran : Runs.run (serverStep application) start inputs = .ok state) :
    (∀ earlier ≠ .ign, ∃ entered, deliver earlier state.interrupted = some entered ∧
      entered.process.server.quit = true ∧ entered.process.server.clients = [] ∧
      entered.process.openFds = process.openFds ∧
      (state.server.listen = true → ClosesOpen entered.process.events) ∧
      (state.server.listen = false →
        entered.process.events.getLast? = some (.close state.server.fd false))) ∧
    (∀ handler, ∃ woken,
      deliver (.function handler) (state.selected .failed).interrupted = some woken ∧
      woken.forwarded = [handler] ∧ woken.pending = false ∧
      (state.server.listen = true → ∀ accept : AcceptEnv, accept.fd = -1 →
        loopAfterSelect application woken.process accept = .ok woken.process)) ∧
    ∃ entered, deliver .dfl state.interrupted = some entered ∧ ∀ n,
      deliveries .dfl (n + 1) state.interrupted =
        some { entered with process := entered.process.closedAgain n } := by
  have closable : state.Closable process.openFds :=
    serverRun_closable unused fresh allocated created small along ran
  obtain ⟨own, mode, quit⟩ := emptied_server closable.order
  refine ⟨fun earlier heeded => ?_, fun handler => ?_, ?_⟩
  · obtain ⟨entered, first, same⟩ := deliver_interrupted state heeded
    refine ⟨entered, first, ?_⟩
    rw [same]
    refine ⟨quit, emptied_clients closable.order, closable.shutDown_openFds, fun listens => ?_,
      fun connects => ?_⟩
    · exact closable.emptied.order.closes.closeFd
        (closable.emptied.order.books.own (.inl (mode.trans listens)))
    · have gone : state.server.fd ∉ state.emptied.openFds := by
        intro opened
        rcases closable.emptied_open opened with old | ⟨listens, -⟩
        · exact closable.spares.own old
        · rw [connects] at listens
          cases listens
      rw [Process.shutDown_eq, own, Process.closeFd, List.getLast?_concat, decide_eq_false gone]
  · have selected : (state.selected .failed).InOrder :=
      ⟨closable.order.books, closable.order.closes⟩
    refine ⟨_, rfl, rfl, rfl, fun listens accept nobody => ?_⟩
    exact loopAfterSelect_nobody ((emptied_server selected).2.1.trans listens)
      (emptied_clients selected) nobody
  · refine ⟨state.shutDown.interrupted, rfl, fun n => ?_⟩
    exact closable.order.shutDown.deliveries_dfl n

theorem accepted_client_interrupted : ∃ start state entered,
    warppipeServerCreate silentApplication (idleProcess true) (some [.bound 3]) (acceptAt (-1) 0) =
      .ok (0, start) ∧
    Runs.run (serverStep silentApplication) start [.loop ⟨.ready {3}, acceptAt 4 7⟩] = .ok state ∧
    4 ∈ state.openFds ∧ deliver (.function 9) state.interrupted = some entered ∧
    entered.process.openFds = {0, 1, 2} ∧ ClosesOpen entered.process.events := by
  obtain ⟨state, ran, opened, listens⟩ : ∃ state, Runs.run (serverStep silentApplication)
      (((idleProcess true).openFd 3).serveOn 3) [.loop ⟨.ready {3}, acceptAt 4 7⟩] = .ok state ∧
        4 ∈ state.openFds ∧ state.server.listen = true := ⟨_, rfl, by decide, rfl⟩
  have fresh : ∀ steps, some [AddrStep.bound 3] = some steps →
      FreshSteps (idleProcess true).openFds steps := by
    intro steps same
    cases same
    decide
  have created : warppipeServerCreate silentApplication (idleProcess true) (some [.bound 3])
      (acceptAt (-1) 0) = .ok (0, ((idleProcess true).openFd 3).serveOn 3) := rfl
  have along : Runs.Along (serverStep silentApplication) CleanStep
      (((idleProcess true).openFd 3).serveOn 3) [.loop ⟨.ready {3}, acceptAt 4 7⟩] := by
    refine ⟨⟨⟨⟨rfl, fun _ => .inr (by decide), fun _ _ _ => List.not_mem_nil⟩, ?_⟩, ?_⟩,
      fun _ _ => trivial⟩
    · intro env same _
      cases same
      exact .inr (by decide)
    · intro env same _ _
      cases same
      exact .inr ⟨rfl, by decide⟩
  obtain ⟨every, -, -⟩ :=
    sigint_restores_descriptors rfl fresh (by decide) created (by decide) along ran
  obtain ⟨entered, first, -, -, restored, closes, -⟩ := every (.function 9) (by decide)
  exact ⟨_, state, entered, created, ran, opened, first, restored, closes listens⟩

end WarpPipe
