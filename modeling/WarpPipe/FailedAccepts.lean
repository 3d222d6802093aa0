import WarpPipe.ServerRuns

/-!
What `server_accept` leaves behind when it fails. Where `getnameinfo` or an allocation fails after
`accept` returned, nobody closes the connection, and no client has it.
-/

namespace WarpPipe

variable {σ : Type}

def AcceptEnv.Clean (env : AcceptEnv) (listen : Bool) : Prop :=
  listen = true → env.fd = -1 ∨ env.named = true ∧ env.Allocated

structure Untouched (process next : Process σ) : Prop where
  openFds : next.openFds = process.openFds
  clients : next.server.clients = process.server.clients
  maxFd : next.server.maxFd = process.server.maxFd

theorem serverAccept_untouched_iff {application : Application σ} {process next : Process σ}
    {env : AcceptEnv} {rc : Int}
    (fresh : process.server.listen = true → env.fd = -1 ∨ env.fd ∉ process.openFds)
    (ok : serverAccept application process env = .ok (rc, next)) :
    (rc = -1 → Untouched process next) ↔ env.Clean process.server.listen := by
  cases serverAccept_step ok with
  | unchanged nothing unable =>
      constructor
      · intro _ listens
        exact .inl (nothing listens)
      · intro _ _
        exact ⟨rfl, rfl, rfl⟩
  | leaked listens came failed =>
      have new := (fresh listens).resolve_left came
      constructor
      · intro untouched
        have same : insert env.fd process.openFds = process.openFds := (untouched rfl).openFds
        exact absurd (Finset.insert_eq_self.mp same) new
      · intro clean
        rcases clean listens with nothing | whole
        · exact absurd nothing came
        · exact absurd whole failed
  | accepted listens came named allocated inserted =>
      constructor
      · intro _ _
        exact .inr ⟨named, allocated⟩
      · intro _ failed
        cases failed
  | connected connects empty allocated inserted =>
      constructor
      · intro _ listens
        rw [connects] at listens
        cases listens
      · intro _ failed
        cases failed

def Books.Owned (base : Finset Int) (books : Books) : Prop :=
  ∀ fd ∈ books.openFds, fd ∈ base ∨ (books.listen = true ∧ fd = books.fd) ∨
    fd ∈ books.listed.map Prod.snd

section

variable {base : Finset Int} {books : Books}

theorem Books.Owned.drop (owned : books.Owned base) (sound : books.Sound) {entry : Nat × Int}
    (member : entry ∈ books.listed) : (books.drop entry).Owned base := by
  intro fd opened
  obtain ⟨other, before⟩ := Finset.mem_erase.mp opened
  rcases owned fd before with old | own | listed
  · exact .inl old
  · exact .inr (.inl own)
  · obtain ⟨holder, inside, rfl⟩ := List.mem_map.mp listed
    refine .inr
      (.inr (List.mem_map.mpr ⟨holder, Keyed.mem_remove.mpr ⟨inside, fun same => ?_⟩, rfl⟩))
    exact other (congrArg Prod.snd (Keyed.eq_of_key sound.ptrs inside member same))

theorem Books.Owned.add (owned : books.Owned base) (ptr : Nat) (fd : Int) :
    (books.add ptr fd).Owned base := by
  intro other opened
  rcases owned other opened with old | own | listed
  · exact .inl old
  · exact .inr (.inl own)
  · refine .inr (.inr ?_)
    rw [Books.add, List.map_append]
    exact List.mem_append_left _ listed

theorem Books.Owned.accept (owned : books.Owned base) (ptr : Nat) (fd : Int) :
    ((books.withOpen fd).add ptr fd).Owned base := by
  intro other opened
  rcases Finset.mem_insert.mp opened with rfl | before
  · refine .inr (.inr ?_)
    rw [Books.add, List.map_append]
    exact List.mem_append_right _ (List.mem_singleton.mpr rfl)
  · exact owned.add ptr fd other before

theorem Books.Owned.after {env : AcceptEnv} {after : Books} (owned : books.Owned base)
    (clean : env.Clean books.listen) (accepts : books.Accepts env after) : after.Owned base := by
  cases accepts with
  | same => exact owned
  | leaked listens came failed =>
      rcases clean listens with nothing | whole
      · exact absurd nothing came
      · exact absurd whole failed
  | accepted listens came ptr => exact owned.accept ptr env.fd
  | connected connects ptr => exact owned.add ptr books.fd

end

section

variable {application : Application σ} {process next : Process σ} {base : Finset Int}

def CleanStep (process : Process σ) (input : ServerInput) : Prop :=
  FitStep process input ∧ ∀ env, input = .loop env →
    process.server.fd ∈ env.select.apply (requestedFds process.server) →
    env.accept.Clean process.server.listen

theorem disconnect_owned (order : process.InOrder) (owned : process.books.Owned base)
    (condition : Option (ClientNode → Bool)) :
    (warppipeServerDisconnectClients process condition).books.Owned base :=
  disconnect_books (fun _ _ sound member held => Books.Owned.drop held sound member) order
    owned condition

theorem serverStep_owned {input : ServerInput} (order : process.InOrder)
    (clean : CleanStep process input) (owned : process.books.Owned base)
    (ok : serverStep application process input = .ok next) : next.books.Owned base := by
  refine serverStep_books (fun _ _ sound member held => Books.Owned.drop held sound member) order
    clean.1.1 ?_ owned ok
  intro env after loops ready accepts
  exact owned.after (clean.2 env loops ready) accepts

theorem serverCreate_owned {addresses : Option (List AddrStep)} {env : AcceptEnv}
    (fresh : ∀ steps, addresses = some steps → FreshSteps process.openFds steps)
    (allocated : process.server.listen = false → env.Allocated)
    (created : warppipeServerCreate application process addresses env = .ok (0, next)) :
    next.books.Owned process.openFds := by
  obtain ⟨sfd, ready, server, opened, -, -, mode⟩ := serverCreate_cases fresh created
  have same : ready.server.listen = process.server.listen := congrArg Server.listen server
  have within {fd : Int} (isOpen : fd ∈ ready.openFds) : fd = sfd ∨ fd ∈ process.openFds :=
    Finset.mem_insert.mp (opened ▸ isOpen)
  rcases mode with ⟨listens, rfl⟩ | ⟨connects, new, rc, accepted⟩
  · intro fd isOpen
    rcases within isOpen with own | old
    · exact .inr (.inl ⟨same.trans listens, own⟩)
    · exact .inl old
  · have accepts : (ready.serveOn sfd).books.Accepts env next.books :=
      serverAccept_books List.nodup_nil new accepted
    have mode : (ready.serveOn sfd).books.listen = false := same.trans connects
    generalize next.books = after at accepts
    cases accepts with
    | same nothing unable =>
        rcases unable mode with occupied | missing
        · exact absurd rfl occupied
        · exact absurd (allocated connects) missing
    | leaked listens => exact absurd (listens.symm.trans mode) (by decide)
    | accepted listens => exact absurd (listens.symm.trans mode) (by decide)
    | connected _ ptr =>
        intro fd isOpen
        rcases within isOpen with rfl | old
        · exact .inr (.inr (List.mem_singleton.mpr rfl))
        · exact .inl old

end

/-- Every descriptor of a connection that is open belongs to exactly one listed client. The open
descriptors are those of `base`, the socket that the server listens on, and connections. -/
def Process.Accounted (base : Finset Int) (process : Process σ) : Prop :=
  ∀ fd ∈ process.openFds, fd ∉ base → (process.server.listen = true → fd ≠ process.server.fd) →
    ∃! entry, entry ∈ process.books.listed ∧ entry.2 = fd

theorem Books.Owned.accounted {process : Process σ} {base : Finset Int}
    (owned : process.books.Owned base) (sound : process.books.Sound) : process.Accounted base := by
  intro fd opened new connection
  rcases owned fd opened with old | ⟨listens, own⟩ | listed
  · exact absurd old new
  · exact absurd own (connection listens)
  · obtain ⟨entry, member, rfl⟩ := List.mem_map.mp listed
    refine ⟨entry, ⟨member, rfl⟩, ?_⟩
    rintro other ⟨inside, same⟩
    exact Keyed.eq_of_key sound.fds inside member same

section

variable {application : Application σ} {process start : Process σ}
  {addresses : Option (List AddrStep)} {env : AcceptEnv}

structure Process.Kept (base : Finset Int) (process : Process σ) : Prop where
  bounded : process.Bounded
  owned : process.books.Owned base

theorem serverCreate_kept (unused : process.events = [])
    (fresh : ∀ steps, addresses = some steps → FreshSteps process.openFds steps)
    (allocated : process.server.listen = false → env.Allocated)
    (created : warppipeServerCreate application process addresses env = .ok (0, start))
    (small : InFdSet start.server.fd) : start.Kept process.openFds :=
  ⟨⟨serverCreate_inOrder fresh created unused, serverCreate_fit fresh created small⟩,
    serverCreate_owned fresh allocated created⟩

theorem serverStep_kept {base : Finset Int} {next : Process σ} {input : ServerInput}
    (kept : process.Kept base) (clean : CleanStep process input)
    (ok : serverStep application process input = .ok next) : next.Kept base :=
  ⟨serverStep_bounded kept.bounded clean.1 ok,
    serverStep_owned kept.bounded.order clean kept.owned ok⟩

end

/-- A failed `server_accept` leaves everything as it was iff nothing behind a successful `accept`
failed. In a run in which nothing does, every open connection belongs to exactly one client. -/
theorem failed_accepts_leave_nothing (application : Application σ) :
    (∀ (process next : Process σ) (env : AcceptEnv) (rc : Int),
      (process.server.listen = true → env.fd = -1 ∨ env.fd ∉ process.openFds) →
      serverAccept application process env = .ok (rc, next) →
      ((rc = -1 → Untouched process next) ↔ env.Clean process.server.listen)) ∧
    ∀ (process start state : Process σ) (addresses : Option (List AddrStep)) (env : AcceptEnv)
      (inputs : List ServerInput), process.events = [] →
      (∀ steps, addresses = some steps → FreshSteps process.openFds steps) →
      (process.server.listen = false → env.Allocated) →
      warppipeServerCreate application process addresses env = .ok (0, start) →
      InFdSet start.server.fd → Runs.Along (serverStep application) CleanStep start inputs →
      Runs.run (serverStep application) start inputs = .ok state →
      state.Accounted process.openFds ∧ state.server.FdsFit := by
  constructor
  · intro process next env rc fresh ok
    exact serverAccept_untouched_iff fresh ok
  · intro process start state addresses env inputs unused fresh allocated created small along ran
    have kept : state.Kept process.openFds := Runs.run_invariant
      (fun _ _ _ kept clean stepped => serverStep_kept kept clean stepped)
      (serverCreate_kept unused fresh allocated created small) along ran
    exact ⟨kept.owned.accounted kept.bounded.order.books, kept.bounded.fit.fdsFit⟩

def unnamedAt (fd : Int) (ptr : Nat) : AcceptEnv := { acceptAt fd ptr with named := false }

theorem accepted_client_accounted : ∃ start state,
    warppipeServerCreate silentApplication (idleProcess true) (some [.bound 3]) (acceptAt (-1) 0) =
      .ok (0, start) ∧
    Runs.run (serverStep silentApplication) start [.loop ⟨.ready {3}, acceptAt 4 7⟩] = .ok state ∧
    4 ∈ state.openFds ∧ state.Accounted (idleProcess true).openFds := by
  obtain ⟨state, ran, opened⟩ : ∃ state, Runs.run (serverStep silentApplication)
      (((idleProcess true).openFd 3).serveOn 3) [.loop ⟨.ready {3}, acceptAt 4 7⟩] = .ok state ∧
        4 ∈ state.openFds := ⟨_, rfl, by decide⟩
  refine ⟨_, state, rfl, ran, opened, ((failed_accepts_leave_nothing silentApplication).2
    (idleProcess true) _ state (some [.bound 3]) (acceptAt (-1) 0) _ rfl ?_ ?_ rfl (by decide) ?_
    ran).1⟩
  · intro steps same
    cases same
    decide
  · intro connects
    cases connects
  · refine ⟨⟨⟨⟨rfl, fun _ => .inr (by decide), fun _ _ _ => List.not_mem_nil⟩, ?_⟩, ?_⟩,
      fun _ _ => trivial⟩
    · intro env same _
      cases same
      exact .inr (by decide)
    · intro env same _ _
      cases same
      exact .inr ⟨rfl, by decide⟩

/-- Two rounds whose connections cannot be named: both stay open. -/
theorem unnamed_connections_leak : ∃ start state,
    warppipeServerCreate silentApplication (idleProcess true) (some [.bound 3]) (acceptAt (-1) 0) =
      .ok (0, start) ∧
    (∃ next, serverAccept silentApplication start (unnamedAt 4 7) = .ok (-1, next) ∧
      4 ∈ next.openFds ∧ 4 ∉ start.openFds) ∧
    Runs.run (serverStep silentApplication) start
      [.loop ⟨.ready {3}, unnamedAt 4 7⟩, .loop ⟨.ready {3}, unnamedAt 5 7⟩] = .ok state ∧
    state.openFds = {0, 1, 2, 3, 4, 5} ∧ state.server.clients.length = 0 :=
  ⟨_, _, rfl, ⟨_, rfl, by decide, by decide⟩, rfl, by decide, by decide⟩

end WarpPipe
