import WarpPipe.ReceiveBuffer
import WarpPipe.Server

/-!
Runs of a server: it is created, then the loop and the application's own calls follow in any order,
whatever `select`, `accept` and the allocator answer and whatever arrives on the connections.
-/

namespace WarpPipe

open ByteLayout

variable {σ : Type}

def AddrStep.fd? : AddrStep → Option Int
  | .noSocket => none
  | .failed fd | .refused fd | .bound fd => some fd

def FreshSteps (openFds : Finset Int) (steps : List AddrStep) : Prop :=
  ∀ step ∈ steps, ∀ fd ∈ step.fd?, fd ∉ openFds

instance (openFds : Finset Int) (steps : List AddrStep) : Decidable (FreshSteps openFds steps) :=
  inferInstanceAs (Decidable (∀ step ∈ steps, ∀ fd ∈ step.fd?, fd ∉ openFds))

theorem setUpSocket_ok {process next : Process σ} {steps : List AddrStep} {sfd : Int}
    (fresh : FreshSteps process.openFds steps) (ok : setUpSocket process steps = (some sfd, next)) :
    next.server = process.server ∧ next.openFds = insert sfd process.openFds ∧
      sfd ∉ process.openFds ∧ (ClosesOpen process.events → ClosesOpen next.events) := by
  induction steps generalizing process with
  | nil => cases ok
  | cons step rest ih =>
      have later : FreshSteps process.openFds rest := fun other member =>
        fresh other (List.mem_cons_of_mem _ member)
      cases step with
      | noSocket => exact ih later ok
      | failed fd => cases ok
      | bound fd =>
          have new := fresh (.bound fd) List.mem_cons_self fd rfl
          cases ok
          exact ⟨rfl, rfl, new, id⟩
      | refused fd =>
          have new := fresh (.refused fd) List.mem_cons_self fd rfl
          have same : ((process.openFd fd).closeFd fd).openFds = process.openFds :=
            Finset.erase_insert new
          rw [setUpSocket] at ok
          obtain ⟨server, opened, unused, closes⟩ := ih (by rwa [same]) ok
          rw [same] at opened unused
          refine ⟨server, opened, unused, fun before => closes ?_⟩
          have opening : ClosesOpen (process.openFd fd).events := before
          exact opening.closeFd (Finset.mem_insert_self _ _)

section

variable {application : Application σ} {process start : Process σ}
  {addresses : Option (List AddrStep)} {env : AcceptEnv}
  (fresh : ∀ steps, addresses = some steps → FreshSteps process.openFds steps)
  (created : warppipeServerCreate application process addresses env = .ok (0, start))

include fresh created

theorem serverCreate_cases :
    ∃ (sfd : Int) (ready : Process σ), ready.server = process.server ∧
      ready.openFds = insert sfd process.openFds ∧
      sfd ∉ process.openFds ∧ (ClosesOpen process.events → ClosesOpen ready.events) ∧
      (process.server.listen = true ∧ start = ready.serveOn sfd ∨
        process.server.listen = false ∧ env.Fresh (ready.serveOn sfd).books ∧
          ∃ rc, serverAccept application (ready.serveOn sfd) env = .ok (rc, start)) := by
  cases serverCreate_step created with
  | listening bound listens =>
      obtain ⟨server, opened, unused, closes⟩ := setUpSocket_ok (fresh _ rfl) bound
      exact ⟨_, _, server, opened, unused, closes, .inl ⟨server ▸ listens, rfl⟩⟩
  | connecting bound connects accepted =>
      obtain ⟨server, opened, unused, closes⟩ := setUpSocket_ok (fresh _ rfl) bound
      refine ⟨_, _, server, opened, unused, closes, .inr ⟨server ▸ connects, ⟨?_, ?_⟩, _, accepted⟩⟩
      · intro listens
        exact absurd (listens.symm.trans connects) (by decide)
      · exact fun _ _ _ => List.not_mem_nil

theorem serverCreate_inOrder (unused : process.events = []) : start.InOrder := by
  obtain ⟨sfd, ready, server, opened, -, closes, mode⟩ := serverCreate_cases fresh created
  have silent : ClosesOpen process.events := by
    rw [unused]
    intro fd wasOpen closed
    cases closed
  have own : sfd ∈ ready.openFds := by
    rw [opened]
    exact Finset.mem_insert_self _ _
  have order : (ready.serveOn sfd).InOrder :=
    ⟨⟨List.nodup_nil, List.nodup_nil, List.forall_mem_nil _, ⟨Int.le_refl _, List.forall_mem_nil _⟩,
      fun _ => own, fun _ => List.forall_mem_nil _, fun _ => List.forall_mem_nil _⟩, closes silent⟩
  rcases mode with ⟨-, rfl⟩ | ⟨-, new, rc, accepted⟩
  · exact order
  · obtain ⟨added, result⟩ := serverAccept_ok order own new accepted
    exact result.order

end

theorem mem_requestedFds {server : Server} {fd : Int} :
    fd ∈ requestedFds server ↔ fd = server.fd ∨ ∃ ptr, (ptr, fd) ∈ listing server.clients := by
  simp only [requestedFds, Finset.mem_insert, List.mem_toFinset, List.mem_map, listing,
    Prod.mk.injEq]
  constructor
  · rintro (own | ⟨node, member, same⟩)
    · exact .inl own
    · exact .inr ⟨node.ptr, node, member, rfl, same⟩
  · rintro (own | ⟨ptr, node, member, -, same⟩)
    · exact .inl own
    · exact .inr ⟨node, member, same⟩

theorem Server.FdsFit.client {server : Server} (fits : server.FdsFit) {node : ClientNode}
    (member : node ∈ server.clients) : InFdSet node.client.fd :=
  fits _ (mem_requestedFds.mpr (.inr ⟨node.ptr, mem_listing member⟩))

theorem serverLoop_cases {application : Application σ} {process next : Process σ} {env : LoopEnv}
    (order : process.InOrder) (running : process.server.quit = false)
    (fresh : env.accept.Fresh process.books)
    (ok : warppipeServerLoop application process env = .ok next) :
    ∃ accepted read added, Accepted (process.selected env.select) accepted added ∧
      (accepted = process.selected env.select ∨
        process.server.fd ∈ env.select.apply (requestedFds process.server) ∧
          ∃ rc, serverAccept application (process.selected env.select) env.accept =
            .ok (rc, accepted)) ∧
      serverRead application accepted (accepted.server.clients.map ClientNode.ptr) = .ok read ∧
      next = warppipeServerDisconnectClients read (some shouldDisconnectClient) := by
  have selected : (process.selected env.select).InOrder := ⟨order.books, order.closes⟩
  obtain ⟨accepted, read, how, passed, same⟩ := serverLoop_phases ok
  rcases how with rfl | ⟨ready, rc, came⟩
  · exact ⟨_, read, [], .none selected rfl rfl rfl rfl, .inl rfl, passed, same⟩
  · obtain ⟨added, holds⟩ := serverAccept_ok selected (order.books.own (.inr running)) fresh came
    exact ⟨accepted, read, added, holds, .inr ⟨ready, rc, came⟩, passed, same⟩

theorem serverRead_inOrder {application : Application σ} {process next : Process σ}
    {ptrs : List Nat} (order : process.InOrder)
    (ok : serverRead application process ptrs = .ok next) : next.InOrder := by
  obtain ⟨same, reads, events, each⟩ := serverRead_ok order.books.ptrs ok
  refine ⟨by rw [same]; exact order.books, fun fd wasOpen closed => ?_⟩
  rw [events, List.mem_append] at closed
  rcases closed with old | now
  · exact order.closes fd wasOpen old
  · obtain ⟨ptr, other, clash, -⟩ := each _ now
    cases clash

section

variable {application : Application σ} {process next : Process σ} {env : LoopEnv}
  (order : process.InOrder) (running : process.server.quit = false)
  (fresh : env.accept.Fresh process.books)
  (ok : warppipeServerLoop application process env = .ok next)

include order running fresh ok

theorem serverLoop_inOrder : next.InOrder := by
  obtain ⟨accepted, read, added, came, -, passed, rfl⟩ := serverLoop_cases order running fresh ok
  exact disconnect_inOrder (serverRead_inOrder came.order passed) _

end

section

variable {application : Application σ} {process : Process σ}

theorem serverRead_idle {ptrs : List Nat} (idle : ∀ ptr ∈ ptrs, ∀ node,
      findAt process.server.clients ptr = some node →
        InFdSet node.client.fd ∧ node.client.fd ∉ process.server.readFds) :
    serverRead application process ptrs = .ok process := by
  induction ptrs with
  | nil => rfl
  | cons ptr rest ih =>
      have later := ih fun other member => idle other (List.mem_cons_of_mem _ member)
      simp only [serverRead]
      split
      · exact later
      · rename_i node found
        obtain ⟨fits, silent⟩ := idle ptr List.mem_cons_self node found
        rw [if_pos fits, if_neg silent]
        exact later

variable {node : ClientNode} {world : World (Shared σ)}

def Process.readAt (process : Process σ) (node : ClientNode) (world : World (Shared σ)) :
    Process σ :=
  { process with
    server := { process.server with clients := updateAt process.server.clients node.ptr world }
    app := world.app.app
    events := process.events ++ [.clientRead node.ptr node.client.fd] }

theorem serverRead_turn {ptrs : List Nat} (distinct : ptrs.Nodup) (here : node.ptr ∈ ptrs)
    (found : findAt process.server.clients node.ptr = some node) (fits : InFdSet node.client.fd)
    (ready : node.client.fd ∈ process.server.readFds)
    (others : ∀ ptr, ptr ≠ node.ptr → ∀ other, findAt process.server.clients ptr = some other →
      InFdSet other.client.fd ∧ other.client.fd ∉ process.server.readFds)
    (ran : clientReadAt application process node = .ok (process.readAt node world)) :
    serverRead application process ptrs = .ok (process.readAt node world) := by
  induction ptrs with
  | nil => cases here
  | cons ptr rest ih =>
      rw [List.nodup_cons] at distinct
      by_cases same : ptr = node.ptr
      · subst same
        simp only [serverRead, found, if_pos fits, if_pos ready, ran]
        refine serverRead_idle fun other member beside hit => ?_
        have apart : other ≠ node.ptr := fun same => distinct.1 (same ▸ member)
        rw [Process.readAt, findAt_updateAt, if_neg apart] at hit
        exact others other apart beside hit
      · have rest := ih distinct.2 ((List.mem_cons.mp here).resolve_left (Ne.symm same))
        simp only [serverRead]
        split
        · exact rest
        · rename_i beside hit
          obtain ⟨inside, silent⟩ := others ptr same beside hit
          rw [if_pos inside, if_neg silent]
          exact rest

theorem disconnect_app (process : Process σ) (condition : Option (ClientNode → Bool)) :
    (warppipeServerDisconnectClients process condition).app = process.app := by
  refine List.foldlRecOn (motive := fun after : Process σ => after.app = process.app) _ _ rfl
    fun after same node _ => ?_
  split
  · exact same
  · exact same

theorem disconnect_quit (process : Process σ) (condition : Option (ClientNode → Bool)) :
    (warppipeServerDisconnectClients process condition).server.quit =
      (process.server.quit || !process.server.listen &&
        process.server.clients.any (meets condition)) := by
  have visit : ∀ (nodes : List ClientNode) (process : Process σ),
      (nodes.foldl (fun process node =>
        if meets condition node then disconnectClient process node
        else process) process).server.quit =
          (process.server.quit || !process.server.listen && nodes.any (meets condition)) := by
    intro nodes
    induction nodes with
    | nil => intro process; simp
    | cons node rest ih =>
        intro process
        rw [List.foldl_cons, ih]
        cases gone : meets condition node with
        | false => simp [gone]
        | true =>
            cases listens : process.server.listen <;>
              simp [gone, disconnectClient, Process.closeFd, listens]
  exact visit _ process

/-- One call of the loop with one ready client is one `warppipe_client_read`; a client that it
leaves inactive goes, and takes a server that connected with it. -/
theorem serverLoop_turn {env : LoopEnv} (order : process.InOrder) (fits : process.server.FdsFit)
    (found : findAt process.server.clients node.ptr = some node)
    (ready : node.client.fd ∈ env.select.apply (requestedFds process.server))
    (others : ∀ ptr, ptr ≠ node.ptr → ∀ other, findAt process.server.clients ptr = some other →
      other.client.fd ∉ env.select.apply (requestedFds process.server))
    (unasked : process.server.listen = true →
      process.server.fd ∉ env.select.apply (requestedFds process.server))
    (ran : warppipeClientRead application.callbacks
      (node.world (process.shared node.ptr)) = .ok world)
    (beside : world.app.clients = .ok process.server.clients) :
    ∃ next, warppipeServerLoop application process env = .ok next ∧ next.app = world.app.app ∧
      next.server.clients =
        (updateAt process.server.clients node.ptr world).filter (fun node => node.client.active) ∧
      next.server.quit = (process.server.quit || !process.server.listen &&
        (updateAt process.server.clients node.ptr world).any fun node => !node.client.active) := by
  obtain ⟨member, -⟩ := Keyed.find_some found
  have distinct : (process.server.clients.map ClientNode.ptr).Nodup := by
    rw [← map_fst_listing]
    exact order.books.ptrs
  have selected : (process.selected env.select).InOrder := ⟨order.books, order.closes⟩
  have read : clientReadAt application (process.selected env.select) node =
      .ok ((process.selected env.select).readAt node world) := by
    have same : warppipeClientRead application.callbacks
        (node.world ((process.selected env.select).shared node.ptr)) = .ok world := ran
    simp only [clientReadAt, same, bind, Except.bind, beside, pure, Except.pure]
    rfl
  have pass : serverRead application (process.selected env.select)
      ((process.selected env.select).server.clients.map ClientNode.ptr) =
        .ok ((process.selected env.select).readAt node world) :=
    serverRead_turn distinct (List.mem_map_of_mem member) found (fits.client member) ready
      (fun ptr apart other hit => ⟨fits.client (Keyed.find_some hit).1, others ptr apart other hit⟩)
        read
  refine ⟨warppipeServerDisconnectClients ((process.selected env.select).readAt node world)
    (some shouldDisconnectClient), ?_, ?_, ?_, ?_⟩
  · rw [warppipeServerLoop, if_pos fits]
    simp only [loopAfterSelect, bind, Except.bind, pure, Except.pure]
    split
    · rename_i own
      -- a server that connected has its client already
      have refused : serverAccept application (process.selected env.select) env.accept =
          .ok (-1, process.selected env.select) := by
        have connects : process.server.listen = false := by
          cases listens : process.server.listen with
          | false => rfl
          | true => exact absurd own (unasked listens)
        have some : process.server.clients.isEmpty = false := by
          rw [List.isEmpty_eq_false_iff]
          exact List.ne_nil_of_mem member
        simp only [serverAccept, Process.selected, connects, some, if_false, Bool.false_eq_true]
      simp only [refused, Except.map, pass]
    · simp only [pass]
  · exact disconnect_app _ _
  · rw [disconnect_clients (serverRead_inOrder selected pass)]
    exact List.filter_congr fun node _ => by simp [meets, shouldDisconnectClient]
  · exact disconnect_quit _ _

end

inductive ServerInput where
  | loop (env : LoopEnv)
  | disconnect (condition : Option (ClientNode → Bool))
  | registerAcceptCb (acceptCb : Option FnPtr)
  | request (ptr : Nat) (call : Call)
  | network (ptr : Nat) (sock : Socket)
  | deactivate (ptr : Nat)

def Process.withClients (process : Process σ) (clients : List ClientNode) : Process σ :=
  { process with server := { process.server with clients := clients } }

def serverStep (application : Application σ) (process : Process σ) :
    ServerInput → Outcome (Process σ)
  | .loop env => warppipeServerLoop application process env
  | .disconnect condition => .ok (warppipeServerDisconnectClients process condition)
  | .registerAcceptCb acceptCb => .ok (warppipeServerRegisterAcceptCb process acceptCb)
  | .request ptr call => (callOn process.server.clients ptr call).map process.withClients
  | .network ptr sock =>
    .ok (process.withClients (Keyed.update ClientNode.ptr process.server.clients ptr fun node =>
      { node with sock := sock }))
  | .deactivate ptr =>
    .ok (process.withClients (Keyed.update ClientNode.ptr process.server.clients ptr fun node =>
      { node with client := { node.client with active := false } }))

def Admissible (process : Process σ) : ServerInput → Prop
  | .loop env => process.server.quit = false ∧ env.accept.Fresh process.books
  | _ => True

theorem books_withClients (process : Process σ) {clients : List ClientNode}
    (same : listing clients = listing process.server.clients) :
    (process.withClients clients).books = process.books := by
  simp only [Process.books, Process.withClients, same]

theorem Process.InOrder.withClients {process : Process σ} (order : process.InOrder)
    {clients : List ClientNode} (same : listing clients = listing process.server.clients) :
    (process.withClients clients).InOrder := by
  refine ⟨?_, order.closes⟩
  rw [books_withClients process same]
  exact order.books

theorem serverStep_inOrder {application : Application σ} {process next : Process σ}
    {input : ServerInput} (order : process.InOrder) (admissible : Admissible process input)
    (ok : serverStep application process input = .ok next) : next.InOrder := by
  cases input with
  | loop env => exact serverLoop_inOrder order admissible.1 admissible.2 ok
  | disconnect condition =>
      cases ok
      exact disconnect_inOrder order condition
  | registerAcceptCb acceptCb =>
      cases ok
      exact ⟨order.books, order.closes⟩
  | request ptr call =>
      simp only [serverStep] at ok
      cases called : callOn process.server.clients ptr call with
      | error fault => simp [called, Except.map] at ok
      | ok clients =>
          simp only [called, Except.map, Except.ok.injEq] at ok
          rw [← ok]
          exact order.withClients (callOn_listing order.books.ptrs called)
  | network ptr sock =>
      cases ok
      exact order.withClients (Keyed.map_update fun _ _ _ => rfl)
  | deactivate ptr =>
      cases ok
      exact order.withClients (Keyed.map_update fun _ _ _ => rfl)

/-! What is true of the books in every state of a run. -/

section

variable {application : Application σ} {process next : Process σ} {holds : Books → Prop}
  (drops : ∀ books entry, books.Sound → entry ∈ books.listed → holds books →
    holds (books.drop entry))

include drops

theorem disconnect_books (order : process.InOrder) (start : holds process.books)
    (condition : Option (ClientNode → Bool)) :
    holds (warppipeServerDisconnectClients process condition).books := by
  refine (disconnect_keeps (fun process => holds process.books) condition ?_ order start).2
  intro process node order member held
  rw [books_disconnectClient]
  exact drops _ _ order.books (mem_listing member) held

/-- What clients that go and `server_accept` keep of the books, every step keeps. -/
theorem serverStep_books {input : ServerInput} (order : process.InOrder)
    (admissible : Admissible process input)
    (accepts : ∀ env after, input = .loop env →
      process.server.fd ∈ env.select.apply (requestedFds process.server) →
      process.books.Accepts env.accept after → holds after)
    (start : holds process.books) (ok : serverStep application process input = .ok next) :
    holds next.books := by
  have same {clients : List ClientNode} (alike : listing clients = listing process.server.clients) :
      holds (process.withClients clients).books := by
    rw [books_withClients process alike]
    exact start
  cases input with
  | loop env =>
      obtain ⟨accepted, read, added, came, how, passed, rfl⟩ :=
        serverLoop_cases order admissible.1 admissible.2 ok
      have kept : holds accepted.books := by
        rcases how with rfl | ⟨ready, rc, accepting⟩
        · exact start
        · have entered : (process.selected env.select).books.Accepts env.accept accepted.books :=
            serverAccept_books order.books.ptrs admissible.2 accepting
          exact accepts env _ rfl ready entered
      refine disconnect_books drops (serverRead_inOrder came.order passed) ?_ _
      rw [(serverRead_ok came.order.books.ptrs passed).1]
      exact kept
  | disconnect condition =>
      cases ok
      exact disconnect_books drops order start condition
  | registerAcceptCb acceptCb =>
      cases ok
      exact start
  | request ptr call =>
      simp only [serverStep] at ok
      cases called : callOn process.server.clients ptr call with
      | error fault => simp [called, Except.map] at ok
      | ok clients =>
          simp only [called, Except.map, Except.ok.injEq] at ok
          rw [← ok]
          exact same (callOn_listing order.books.ptrs called)
  | network ptr sock =>
      cases ok
      exact same (Keyed.map_update fun _ _ _ => rfl)
  | deactivate ptr =>
      cases ok
      exact same (Keyed.map_update fun _ _ _ => rfl)

end

def Books.Fit (books : Books) : Prop := InFdSet books.fd ∧ ∀ entry ∈ books.listed, InFdSet entry.2

theorem Books.Fit.fdsFit {process : Process σ} (fit : process.books.Fit) :
    process.server.FdsFit := by
  intro fd asked
  rcases mem_requestedFds.mp asked with rfl | ⟨ptr, listed⟩
  · exact fit.1
  · exact fit.2 _ listed

theorem Books.Fit.drop {books : Books} (fit : books.Fit) (entry : Nat × Int) :
    (books.drop entry).Fit :=
  ⟨fit.1, fun other remains => fit.2 other (Keyed.mem_remove.mp remains).1⟩

theorem Books.Fit.add {books : Books} (fit : books.Fit) (ptr : Nat) {fd : Int}
    (small : InFdSet fd) :
    (books.add ptr fd).Fit := by
  refine ⟨fit.1, fun entry member => ?_⟩
  rcases List.mem_append.mp member with old | last
  · exact fit.2 entry old
  · rw [List.mem_singleton.mp last]
    exact small

def AcceptEnv.Fits (env : AcceptEnv) (listen : Bool) : Prop :=
  listen = true → env.fd = -1 ∨ InFdSet env.fd

theorem Books.Fit.accept {books after : Books} {env : AcceptEnv} (fit : books.Fit)
    (small : env.Fits books.listen) (accepts : books.Accepts env after) : after.Fit := by
  cases accepts with
  | same => exact fit
  | leaked => exact fit
  | accepted listens came ptr =>
      have opened : (books.withOpen env.fd).Fit := fit
      exact opened.add ptr ((small listens).resolve_left came)
  | connected connects ptr => exact fit.add ptr fit.1

structure Process.Bounded (process : Process σ) : Prop where
  order : process.InOrder
  fit : process.books.Fit

def FitStep (process : Process σ) (input : ServerInput) : Prop :=
  Admissible process input ∧ ∀ env, input = .loop env → env.accept.Fits process.server.listen

theorem serverStep_bounded {application : Application σ} {process next : Process σ}
    {input : ServerInput} (bounded : process.Bounded) (step : FitStep process input)
    (ok : serverStep application process input = .ok next) : next.Bounded := by
  refine ⟨serverStep_inOrder bounded.order step.1 ok, ?_⟩
  refine serverStep_books (fun books entry _ _ fit => Books.Fit.drop fit entry) bounded.order step.1
    ?_ bounded.fit ok
  intro env after loops _ accepts
  exact bounded.fit.accept (step.2 env loops) accepts

theorem serverCreate_fit {application : Application σ} {process start : Process σ}
    {addresses : Option (List AddrStep)} {env : AcceptEnv}
    (fresh : ∀ steps, addresses = some steps → FreshSteps process.openFds steps)
    (created : warppipeServerCreate application process addresses env = .ok (0, start))
    (small : InFdSet start.server.fd) : start.books.Fit := by
  obtain ⟨sfd, ready, server, -, -, -, mode⟩ := serverCreate_cases fresh created
  rcases mode with ⟨-, rfl⟩ | ⟨connects, new, rc, accepted⟩
  · exact ⟨small, List.forall_mem_nil _⟩
  · have accepts : (ready.serveOn sfd).books.Accepts env start.books :=
      serverAccept_books List.nodup_nil new accepted
    have own : InFdSet (ready.serveOn sfd).books.fd := accepts.fd ▸ small
    refine Books.Fit.accept ⟨own, List.forall_mem_nil _⟩ (fun listens => ?_) accepts
    have clash : process.server.listen = true := server ▸ listens
    rw [connects] at clash
    cases clash

def silentApplication : Application σ where
  accept := fun _ app _ => { app := app, calls := [] }
  read := fun _ app _ _ _ => { app := app, error := 0, data := [], calls := [] }
  write := fun _ app _ _ _ _ => { app := app, calls := [] }
  completion := fun _ app _ _ _ _ => { app := app, calls := [] }

def idleProcess (listen : Bool) : Process Unit where
  openFds := {0, 1, 2}
  server :=
    { fd := 0, listen := listen, quit := false, maxFd := 0, readFds := ∅
      clients := [], acceptCb := none }
  app := ()
  events := []

def acceptAt (fd : Int) (ptr : Nat) : AcceptEnv where
  fd := fd
  named := true
  client := some (ptr, (clientWith []).client)
  node := true
  sock := (clientWith []).sock

end WarpPipe
