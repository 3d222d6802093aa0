import WarpPipe.Library.Runs
import WarpPipe.Registrations
import WarpPipe.ServerCore

/-!
The books that a server keeps: which descriptors are open, which of them its clients own and how
high `select` has to look. Each call keeps them, whatever the kernel answers.
-/

namespace WarpPipe

open ByteLayout

variable {σ : Type}

theorem push_fd (world : World σ) (packet : Bytes) :
    (push world packet).2.client.fd = world.client.fd := by
  rw [push_client]
  split <;> rfl

theorem CallStep.fd {world next : World σ} (step : CallStep world next) :
    next.client.fd = world.client.fd := by
  cases step with
  | registered client same => exact same.fd
  | sentWrite tport block => exact push_fd _ _
  | sentRead tport cb block =>
      simp only [WarpPipe.sentRead]
      split <;> exact push_fd _ _

theorem CallSteps.fd {world final : World σ} (steps : CallSteps world final) :
    final.client.fd = world.client.fd := by
  induction steps with
  | refl => rfl
  | tail _ step ih => exact step.fd.trans ih

theorem Served.fd {world final : World σ} {pkt : Bytes}
    (served : Served world pkt final) : final.client.fd = world.client.fd := by
  cases served with
  | ignored => rfl
  | read cb addr length error data app middle calls =>
      have kept := CallSteps.fd calls
      exact (push_fd _ _).trans kept
  | write cb addr data length app final calls =>
      have kept := CallSteps.fd calls
      exact kept
  | completion tag cb data length app middle stored calls =>
      have kept := CallSteps.fd calls
      exact kept

theorem ReadStep.fd {cbs : Callbacks σ} {world final : World σ} (step : ReadStep cbs world final) :
    final.client.fd = world.client.fd := by
  cases step with
  | idle => rfl
  | dropped => rfl
  | dllp => rfl
  | corrupted => rfl
  | rejected => exact push_fd _ _
  | accepted incoming recvs buf packet final handled => exact handled.served.fd.trans (push_fd _ _)

structure Callbacks.Keep (cbs : Callbacks σ) (holds : σ → Prop) : Prop where
  read : ∀ cb app addr length, holds app → holds (cbs.read cb app addr length).app
  write : ∀ cb app addr data length, holds app → holds (cbs.write cb app addr data length).app
  completion : ∀ cb app errorCode data length,
    holds app → holds (cbs.completion cb app errorCode data length).app

theorem clientRead_app {cbs : Callbacks σ} {holds : σ → Prop} (keep : cbs.Keep holds)
    {world final : World σ} (start : holds world.app)
    (ok : warppipeClientRead cbs world = .ok final) :
    holds final.app := by
  rcases clientRead_reregistered ok with ⟨same, -⟩ | ⟨calls, invoked, -⟩
  · rwa [same]
  · generalize left : final.app = app at invoked
    cases invoked with
    | read cb addr length => exact keep.read _ _ _ _ start
    | write cb addr data length routed => exact keep.write _ _ _ _ _ start
    | completion cb data length => exact keep.completion _ _ _ _ _ start

/-! The books, and what the functions of the server do to them. -/

structure Books where
  openFds : Finset Int
  fd : Int
  listen : Bool
  quit : Bool
  maxFd : Int
  listed : List (Nat × Int)

def listing (clients : List ClientNode) : List (Nat × Int) :=
  clients.map fun node => (node.ptr, node.client.fd)

def Process.books (process : Process σ) : Books where
  openFds := process.openFds
  fd := process.server.fd
  listen := process.server.listen
  quit := process.server.quit
  maxFd := process.server.maxFd
  listed := listing process.server.clients

/-- The books are in order: the listed descriptors are distinct and open, `max_fd` reaches them all,
and the server's own descriptor is apart from its clients', or the one it shares with its client. -/
structure Books.Sound (books : Books) : Prop where
  ptrs : (books.listed.map Prod.fst).Nodup
  fds : (books.listed.map Prod.snd).Nodup
  opened : ∀ entry ∈ books.listed, entry.2 ∈ books.openFds
  highest : books.fd ≤ books.maxFd ∧ ∀ entry ∈ books.listed, entry.2 ≤ books.maxFd
  own : books.listen = true ∨ books.quit = false → books.fd ∈ books.openFds
  apart : books.listen = true → ∀ entry ∈ books.listed, entry.2 ≠ books.fd
  joined : books.listen = false → ∀ entry ∈ books.listed, entry.2 = books.fd

def Books.drop (books : Books) (entry : Nat × Int) : Books :=
  { books with
    openFds := books.openFds.erase entry.2
    listed := Keyed.remove Prod.fst books.listed entry.1
    quit := if books.listen then books.quit else true }

def Books.add (books : Books) (ptr : Nat) (fd : Int) : Books :=
  { books with
    listed := books.listed ++ [(ptr, fd)]
    maxFd := if books.maxFd < fd then fd else books.maxFd }

def Books.withOpen (books : Books) (fd : Int) : Books :=
  { books with openFds := insert fd books.openFds }

theorem Books.Sound.drop {books : Books} (sound : books.Sound) {entry : Nat × Int}
    (member : entry ∈ books.listed) : (books.drop entry).Sound := by
  have distinct : ∀ other ∈ Keyed.remove Prod.fst books.listed entry.1, other.2 ≠ entry.2 := by
    intro other remains same
    obtain ⟨inside, differs⟩ := Keyed.mem_remove.mp remains
    exact differs (congrArg Prod.fst (Keyed.eq_of_key sound.fds inside member same))
  refine ⟨Keyed.nodup_map_remove sound.ptrs, Keyed.nodup_map_remove sound.fds,
    fun other remains => ?_, ⟨sound.highest.1, fun other remains =>
      sound.highest.2 other (Keyed.mem_remove.mp remains).1⟩, ?_,
    fun listens other remains => sound.apart listens other (Keyed.mem_remove.mp remains).1,
    fun connects other remains => sound.joined connects other (Keyed.mem_remove.mp remains).1⟩
  · exact Finset.mem_erase.mpr ⟨distinct other remains,
      sound.opened other (Keyed.mem_remove.mp remains).1⟩
  · intro needed
    cases listens : books.listen with
    | true =>
        exact Finset.mem_erase.mpr ⟨(sound.apart listens entry member).symm,
          sound.own (.inl listens)⟩
    | false => simp [Books.drop, listens] at needed

theorem Books.Sound.withOpen {books : Books} (sound : books.Sound) (fd : Int) :
    (books.withOpen fd).Sound :=
  ⟨sound.ptrs, sound.fds, fun entry member => Finset.mem_insert_of_mem (sound.opened entry member),
    sound.highest, fun needed => Finset.mem_insert_of_mem (sound.own needed),
    sound.apart, sound.joined⟩

theorem Books.Sound.add {books : Books} (sound : books.Sound) {ptr : Nat} {fd : Int}
    (newPtr : ptr ∉ books.listed.map Prod.fst) (newFd : fd ∉ books.listed.map Prod.snd)
    (opened : fd ∈ books.openFds) (apart : books.listen = true → fd ≠ books.fd)
    (joined : books.listen = false → fd = books.fd) : (books.add ptr fd).Sound := by
  have reaches : books.maxFd ≤ (books.add ptr fd).maxFd ∧ fd ≤ (books.add ptr fd).maxFd := by
    simp only [Books.add]
    split <;> omega
  have either : ∀ {entry : Nat × Int}, entry ∈ (books.add ptr fd).listed →
      entry ∈ books.listed ∨ entry = (ptr, fd) := by
    intro entry member
    simpa [Books.add] using member
  refine ⟨?_, ?_, ?_, ⟨Int.le_trans sound.highest.1 reaches.1, ?_⟩, sound.own, ?_, ?_⟩
  · rw [Books.add, List.map_append]
    exact List.nodup_append_comm.mp (List.nodup_cons.mpr ⟨newPtr, sound.ptrs⟩)
  · rw [Books.add, List.map_append]
    exact List.nodup_append_comm.mp (List.nodup_cons.mpr ⟨newFd, sound.fds⟩)
  · intro entry member
    rcases either member with old | rfl
    · exact sound.opened entry old
    · exact opened
  · intro entry member
    rcases either member with old | rfl
    · exact Int.le_trans (sound.highest.2 entry old) reaches.1
    · exact reaches.2
  · intro listens entry member
    rcases either member with old | rfl
    · exact sound.apart listens entry old
    · exact apart listens
  · intro connects entry member
    rcases either member with old | rfl
    · exact sound.joined connects entry old
    · exact joined connects

theorem map_fst_listing (clients : List ClientNode) :
    (listing clients).map Prod.fst = clients.map ClientNode.ptr := by
  rw [listing, List.map_map]
  rfl

theorem findAt_updateAt {τ : Type} (clients : List ClientNode) (ptr other : Nat) (world : World τ) :
    findAt (updateAt clients ptr world) other =
      if other = ptr then (findAt clients ptr).map fun node => node.update world
      else findAt clients other := by
  have keeps (node : ClientNode) : (node.update world).ptr = node.ptr := rfl
  rw [findAt, updateAt, Keyed.find_update keeps]
  rfl

theorem listing_updateAt {τ : Type} {clients : List ClientNode} {world : World τ} {ptr : Nat}
    {fd : Int} (distinct : ((listing clients).map Prod.fst).Nodup)
    (member : (ptr, fd) ∈ listing clients) (kept : world.client.fd = fd) :
    listing (updateAt clients ptr world) = listing clients := by
  refine Keyed.map_update fun node inside same => ?_
  have one := Keyed.eq_of_key distinct (List.mem_map_of_mem inside) member same
  rw [← (Prod.mk.inj one).2] at kept
  exact congrArg (Prod.mk node.ptr) kept

theorem mem_listing {clients : List ClientNode} {node : ClientNode} (member : node ∈ clients) :
    (node.ptr, node.client.fd) ∈ listing clients :=
  List.mem_map_of_mem member

theorem callOn_listing {clients next : List ClientNode} {ptr : Nat} {call : Call}
    (distinct : ((listing clients).map Prod.fst).Nodup) (ok : callOn clients ptr call = .ok next) :
    listing next = listing clients := by
  simp only [callOn] at ok
  split at ok
  · cases ok
  · rename_i node found
    split at ok
    · rename_i rc world ran
      cases ok
      obtain ⟨member, rfl⟩ := Keyed.find_some found
      exact listing_updateAt distinct (mem_listing member) (Call.run_ok ran).fd
    · cases ok

theorem callsOn_listing {clients next : List ClientNode} {calls : List (Nat × Call)}
    (distinct : ((listing clients).map Prod.fst).Nodup) (ok : callsOn clients calls = .ok next) :
    listing next = listing clients := by
  induction calls generalizing clients with
  | nil =>
      cases ok
      rfl
  | cons call rest ih =>
      simp only [callsOn] at ok
      split at ok
      · rename_i middle called
        have same := callOn_listing distinct called
        rw [ih (by rwa [same]) ok, same]
      · cases ok

def Lists (listed : List (Nat × Int)) (shared : Shared σ) : Prop :=
  ∀ clients, shared.clients = .ok clients → listing clients = listed

theorem Lists.after {listed : List (Nat × Int)} {shared : Shared σ} (lists : Lists listed shared)
    (distinct : (listed.map Prod.fst).Nodup) (app : σ) (calls : List (Nat × Call)) :
    Lists listed (shared.after app calls) := by
  intro clients reached
  cases before : shared.clients with
  | error fault => simp [Shared.after, before, Except.bind] at reached
  | ok old =>
      simp only [Shared.after, before, Except.bind] at reached
      have same := lists old before
      rw [callsOn_listing (by rwa [same]) reached, same]

theorem callbacks_keep_lists (application : Application σ) {listed : List (Nat × Int)}
    (distinct : (listed.map Prod.fst).Nodup) : application.callbacks.Keep (Lists listed) :=
  ⟨fun _ _ _ _ lists => lists.after distinct _ _, fun _ _ _ _ _ lists => lists.after distinct _ _,
    fun _ _ _ _ _ lists => lists.after distinct _ _⟩

section

variable {application : Application σ} {process next : Process σ}

theorem clientReadAt_ok {node : ClientNode} (distinct : (process.books.listed.map Prod.fst).Nodup)
    (member : node ∈ process.server.clients)
    (ok : clientReadAt application process node = .ok next) :
    next.books = process.books ∧ next.server.readFds = process.server.readFds ∧
      next.events = process.events ++ [.clientRead node.ptr node.client.fd] := by
  simp only [clientReadAt, bind, Except.bind, pure, Except.pure] at ok
  split at ok
  · cases ok
  · rename_i world ran
    split at ok
    · cases ok
    · rename_i clients reached
      cases ok
      have start : Lists process.books.listed (process.shared node.ptr) := by
        intro clients same
        cases same
        rfl
      have lists := clientRead_app (callbacks_keep_lists application distinct) start ran
      have same := lists clients reached
      have inside : (node.ptr, node.client.fd) ∈ listing clients := by
        rw [same]
        exact mem_listing member
      have kept := listing_updateAt (by rwa [same]) inside (clientRead_ok ran).fd
      refine ⟨?_, rfl, rfl⟩
      simp only [Process.books, kept, same]

theorem serverRead_ok {ptrs : List Nat} (distinct : (process.books.listed.map Prod.fst).Nodup)
    (ok : serverRead application process ptrs = .ok next) :
    next.books = process.books ∧ ∃ reads, next.events = process.events ++ reads ∧
      ∀ event ∈ reads, ∃ ptr fd, event = .clientRead ptr fd ∧ (ptr, fd) ∈ process.books.listed ∧
        fd ∈ process.server.readFds := by
  induction ptrs generalizing process with
  | nil =>
      cases ok
      exact ⟨rfl, [], (List.append_nil _).symm, List.forall_mem_nil _⟩
  | cons ptr rest ih =>
      simp only [serverRead] at ok
      split at ok
      · exact ih distinct ok
      · rename_i node found
        split at ok
        · split at ok
          · rename_i ready
            split at ok
            · rename_i middle ran
              obtain ⟨member, -⟩ := Keyed.find_some found
              obtain ⟨same, fds, events⟩ := clientReadAt_ok distinct member ran
              obtain ⟨last, reads, later, each⟩ := ih (by rwa [same]) ok
              rw [same, fds] at each
              refine ⟨last.trans same, .clientRead node.ptr node.client.fd :: reads, ?_, ?_⟩
              · rw [later, events, List.append_assoc, List.singleton_append]
              · intro event inside
                rcases List.mem_cons.mp inside with rfl | old
                · exact ⟨node.ptr, node.client.fd, rfl, mem_listing member, ready⟩
                · exact each event old
            · cases ok
          · exact ih distinct ok
        · cases ok

end

def ClosesOpen (events : List ServerEvent) : Prop :=
  ∀ fd wasOpen, .close fd wasOpen ∈ events → wasOpen = true

structure Process.InOrder (process : Process σ) : Prop where
  books : process.books.Sound
  closes : ClosesOpen process.events

theorem ClosesOpen.closeFd {process : Process σ} (closes : ClosesOpen process.events) {fd : Int}
    (opened : fd ∈ process.openFds) : ClosesOpen (process.closeFd fd).events := by
  intro other wasOpen closed
  simp only [Process.closeFd, List.mem_append, List.mem_singleton] at closed
  rcases closed with old | now
  · exact closes other wasOpen old
  · cases now
    exact decide_eq_true opened

theorem listing_remove (clients : List ClientNode) (ptr : Nat) :
    listing (Keyed.remove ClientNode.ptr clients ptr) =
      Keyed.remove Prod.fst (listing clients) ptr := by
  rw [listing, listing, Keyed.remove, Keyed.remove, List.filter_map]
  rfl

theorem books_disconnectClient (process : Process σ) (node : ClientNode) :
    (disconnectClient process node).books = process.books.drop (node.ptr, node.client.fd) := by
  simp only [Process.books, disconnectClient, Process.closeFd, Books.drop, listing_remove]
  rfl

theorem Process.InOrder.disconnectClient {process : Process σ} (order : process.InOrder)
    {node : ClientNode} (member : node ∈ process.server.clients) :
    (disconnectClient process node).InOrder := by
  refine ⟨?_, order.closes.closeFd (order.books.opened _ (mem_listing member))⟩
  rw [books_disconnectClient]
  exact order.books.drop (mem_listing member)

/-- What each single client that goes leaves intact, the whole pass does. -/
theorem disconnect_keeps (holds : Process σ → Prop) (condition : Option (ClientNode → Bool))
    (keeps : ∀ (process : Process σ) (node : ClientNode), process.InOrder →
      node ∈ process.server.clients → holds process → holds (disconnectClient process node))
    {process : Process σ} (order : process.InOrder) (start : holds process) :
    (warppipeServerDisconnectClients process condition).InOrder ∧
      holds (warppipeServerDisconnectClients process condition) := by
  -- the clients still to be visited are listed, since only visited ones were removed
  have visit : ∀ (nodes : List ClientNode) (process : Process σ), process.InOrder → holds process →
      (nodes.map ClientNode.ptr).Nodup → (∀ node ∈ nodes, node ∈ process.server.clients) →
      (nodes.foldl (fun process node =>
        if meets condition node then disconnectClient process node else process) process).InOrder ∧
      holds (nodes.foldl (fun process node =>
        if meets condition node then disconnectClient process node else process) process) := by
    intro nodes
    induction nodes with
    | nil =>
        intro process order start _ _
        exact ⟨order, start⟩
    | cons node rest ih =>
        intro process order start distinct listed
        rw [List.map_cons, List.nodup_cons] at distinct
        rw [List.foldl_cons]
        have member := listed node List.mem_cons_self
        split
        · refine ih _ (order.disconnectClient member)
            (keeps process node order member start) distinct.2 ?_
          intro other later
          refine Keyed.mem_remove.mpr ⟨listed other (List.mem_cons_of_mem _ later), fun same => ?_⟩
          exact distinct.1 (by rw [← same]; exact List.mem_map_of_mem later)
        · exact ih _ order start distinct.2 fun other later =>
            listed other (List.mem_cons_of_mem _ later)
  refine visit _ process order start ?_ fun _ member => member
  rw [← map_fst_listing]
  exact order.books.ptrs

theorem disconnect_inOrder {process : Process σ} (order : process.InOrder)
    (condition : Option (ClientNode → Bool)) :
    (warppipeServerDisconnectClients process condition).InOrder :=
  (disconnect_keeps (fun _ => True) condition (fun _ _ _ _ _ => trivial) order trivial).1

theorem disconnect_clients {process : Process σ} (order : process.InOrder)
    (condition : Option (ClientNode → Bool)) :
    (warppipeServerDisconnectClients process condition).server.clients =
      process.server.clients.filter fun node => !meets condition node := by
  have distinct : (process.server.clients.map ClientNode.ptr).Nodup := by
    rw [← map_fst_listing]
    exact order.books.ptrs
  rw [← Keyed.foldl_remove _ distinct, warppipeServerDisconnectClients]
  refine (List.foldl_hom (fun process : Process σ => process.server.clients) fun process node =>
    ?_).symm
  split <;> rfl

def AcceptEnv.Fresh (env : AcceptEnv) (books : Books) : Prop :=
  (books.listen = true → env.fd = -1 ∨ env.fd ∉ books.openFds) ∧
    ∀ ptr memory, env.client = some (ptr, memory) → ptr ∉ books.listed.map Prod.fst

structure Accepted (process next : Process σ) (added : List (Nat × Int)) : Prop where
  order : next.InOrder
  readFds : next.server.readFds = process.server.readFds
  fd : next.server.fd = process.server.fd
  events : next.events = process.events
  listed : next.books.listed = process.books.listed ++ added
  apart : process.server.listen = true → ∀ entry ∈ added, entry.2 ∉ process.openFds
  joined : process.server.listen = false → ∀ entry ∈ added, entry.2 = process.server.fd

section

variable {application : Application σ} {process next : Process σ} {env : AcceptEnv}

theorem Accepted.none (order : next.InOrder)
    (readFds : next.server.readFds = process.server.readFds)
    (fd : next.server.fd = process.server.fd) (events : next.events = process.events)
    (listed : next.books.listed = process.books.listed) : Accepted process next [] :=
  ⟨order, readFds, fd, events, by rw [listed, List.append_nil], fun _ => List.forall_mem_nil _,
    fun _ => List.forall_mem_nil _⟩

theorem insertClient_ok {fd : Int} (distinct : (process.books.listed.map Prod.fst).Nodup)
    (newPtr : ∀ ptr memory, env.client = some (ptr, memory) →
      ptr ∉ process.books.listed.map Prod.fst)
    (ok : insertClient application process fd env = .ok (0, next)) :
    next.server.readFds = process.server.readFds ∧ next.events = process.events ∧
      ∃ ptr, ptr ∉ process.books.listed.map Prod.fst ∧ next.books = process.books.add ptr fd := by
  simp only [insertClient] at ok
  split at ok
  · cases ok
  · rename_i ptr memory block
    have absent := newPtr ptr memory block
    split at ok
    · have longer :
          ((listing
            (process.server.clients ++ [⟨ptr, warppipeClientCreate memory fd, env.sock⟩])).map
          Prod.fst).Nodup := by
        rw [listing, List.map_append, List.map_append]
        exact List.nodup_append_comm.mp (List.nodup_cons.mpr ⟨absent, distinct⟩)
      simp only [bind, Except.bind, pure, Except.pure] at ok
      split at ok
      · cases ok
        refine ⟨rfl, rfl, ptr, absent, ?_⟩
        simp only [Process.books, trackMaxFd, Books.add, listing, List.map_append]
        rfl
      · split at ok
        · cases ok
        · rename_i clients ran
          cases ok
          refine ⟨rfl, rfl, ptr, absent, ?_⟩
          simp only [Process.books, trackMaxFd, Books.add, callsOn_listing longer ran]
          simp only [listing, List.map_append]
          rfl
    · cases ok

def AcceptEnv.Allocated (env : AcceptEnv) : Prop := env.client.isSome = true ∧ env.node = true

instance (env : AcceptEnv) : Decidable env.Allocated := inferInstanceAs (Decidable (_ ∧ _))

theorem insertClient_code {fd rc : Int}
    (ok : insertClient application process fd env = .ok (rc, next)) :
    (rc = 0 ∧ env.Allocated) ∨ (rc = -1 ∧ ¬env.Allocated ∧ next = process) := by
  simp only [insertClient] at ok
  split at ok
  · rename_i missing
    cases ok
    exact .inr ⟨rfl, fun allocated => by simp [AcceptEnv.Allocated, missing] at allocated, rfl⟩
  · rename_i ptr memory block
    split at ok
    · rename_i node
      have allocated : env.Allocated := ⟨by rw [block]; rfl, node⟩
      simp only [bind, Except.bind, pure, Except.pure] at ok
      split at ok
      · cases ok
        exact .inl ⟨rfl, allocated⟩
      · split at ok
        · cases ok
        · cases ok
          exact .inl ⟨rfl, allocated⟩
    · rename_i missing
      cases ok
      exact .inr ⟨rfl, fun allocated => missing allocated.2, rfl⟩

inductive AcceptStep (application : Application σ) (process : Process σ) (env : AcceptEnv) :
    Int → Process σ → Prop where
  /-- No connection came, or a server that connects has its client or gets no memory for it. -/
  | unchanged (nothing : process.server.listen = true → env.fd = -1)
      (unable : process.server.listen = false → process.server.clients ≠ [] ∨ ¬env.Allocated) :
      AcceptStep application process env (-1) process
  /-- The connection stays open, and no client has it. -/
  | leaked (listens : process.server.listen = true) (came : env.fd ≠ -1)
      (failed : ¬(env.named = true ∧ env.Allocated)) :
      AcceptStep application process env (-1) (process.openFd env.fd)
  | accepted {next : Process σ} (listens : process.server.listen = true) (came : env.fd ≠ -1)
      (named : env.named = true) (allocated : env.Allocated)
      (inserted : insertClient application (process.openFd env.fd) env.fd env = .ok (0, next)) :
      AcceptStep application process env 0 next
  | connected {next : Process σ} (connects : process.server.listen = false)
      (empty : process.server.clients = []) (allocated : env.Allocated)
      (inserted : insertClient application process process.server.fd env = .ok (0, next)) :
      AcceptStep application process env 0 next

theorem serverAccept_step {rc : Int} (ok : serverAccept application process env = .ok (rc, next)) :
    AcceptStep application process env rc next := by
  simp only [serverAccept] at ok
  by_cases listens : process.server.listen = true
  · rw [if_pos listens] at ok
    by_cases nothing : env.fd = -1
    · rw [if_pos nothing] at ok
      cases ok
      exact .unchanged (fun _ => nothing) fun connects =>
        absurd (listens.symm.trans connects) (by decide)
    · rw [if_neg nothing] at ok
      by_cases named : env.named = true
      · rw [if_pos named] at ok
        rcases insertClient_code ok with ⟨rfl, allocated⟩ | ⟨rfl, missing, rfl⟩
        · exact .accepted listens nothing named allocated ok
        · exact .leaked listens nothing fun both => missing both.2
      · rw [if_neg named] at ok
        cases ok
        exact .leaked listens nothing fun both => named both.1
  · rw [if_neg listens] at ok
    have unheard : process.server.listen = true → env.fd = -1 := fun heard => absurd heard listens
    by_cases empty : process.server.clients.isEmpty = true
    · rw [if_pos empty] at ok
      rcases insertClient_code ok with ⟨rfl, allocated⟩ | ⟨rfl, missing, rfl⟩
      · exact .connected (Bool.eq_false_iff.mpr listens) (List.isEmpty_iff.mp empty) allocated ok
      · exact .unchanged unheard fun _ => .inr missing
    · rw [if_neg empty] at ok
      cases ok
      exact .unchanged unheard fun _ => .inl (mt List.isEmpty_iff.mpr empty)

theorem serverAccept_ok {rc : Int} (order : process.InOrder)
    (own : process.server.fd ∈ process.openFds) (fresh : env.Fresh process.books)
    (ok : serverAccept application process env = .ok (rc, next)) :
    ∃ added, Accepted process next added := by
  have opened : (process.openFd env.fd).InOrder := ⟨order.books.withOpen env.fd, order.closes⟩
  cases serverAccept_step ok with
  | unchanged nothing unable => exact ⟨[], .none order rfl rfl rfl rfl⟩
  | leaked listens came failed => exact ⟨[], .none opened rfl rfl rfl rfl⟩
  | accepted listens came named allocated inserted =>
      have new := (fresh.1 listens).resolve_left came
      obtain ⟨readFds, events, ptr, newPtr, books⟩ :=
        insertClient_ok opened.books.ptrs fresh.2 inserted
      refine ⟨[(ptr, env.fd)], ⟨?_, ?_⟩, readFds, congrArg Books.fd books, events,
        congrArg Books.listed books, fun _ entry member => ?_, fun connects => ?_⟩
      · rw [books]
        refine opened.books.add newPtr (fun inside => ?_) (Finset.mem_insert_self _ _)
          (fun _ same => new ?_) fun connects => ?_
        · obtain ⟨entry, member, same⟩ := List.mem_map.mp inside
          exact new (by rw [← same]; exact order.books.opened entry member)
        · rw [same]
          exact own
        · exact absurd listens (by rw [show process.server.listen = false from connects]; decide)
      · rw [events]
        exact order.closes
      · rw [List.mem_singleton.mp member]
        exact new
      · exact absurd listens (by rw [connects]; decide)
  | connected connects empty allocated inserted =>
      obtain ⟨readFds, events, ptr, newPtr, books⟩ :=
        insertClient_ok order.books.ptrs fresh.2 inserted
      refine ⟨[(ptr, process.server.fd)], ⟨?_, ?_⟩, readFds, congrArg Books.fd books, events,
        congrArg Books.listed books, fun listens => ?_, fun _ entry member => ?_⟩
      · rw [books]
        refine order.books.add newPtr ?_ own (fun listens => ?_) fun _ => rfl
        · simp [Process.books, listing, empty]
        · exact absurd listens (by rw [show process.books.listen = false from connects]; decide)
      · rw [events]
        exact order.closes
      · exact absurd listens (by rw [connects]; decide)
      · rw [List.mem_singleton.mp member]

inductive Books.Accepts (env : AcceptEnv) (books : Books) : Books → Prop where
  | same (nothing : books.listen = true → env.fd = -1)
      (unable : books.listen = false → books.listed ≠ [] ∨ ¬env.Allocated) : Accepts env books books
  | leaked (listens : books.listen = true) (came : env.fd ≠ -1)
      (failed : ¬(env.named = true ∧ env.Allocated)) : Accepts env books (books.withOpen env.fd)
  | accepted (listens : books.listen = true) (came : env.fd ≠ -1) (ptr : Nat) :
      Accepts env books ((books.withOpen env.fd).add ptr env.fd)
  | connected (connects : books.listen = false) (ptr : Nat) :
      Accepts env books (books.add ptr books.fd)

theorem Books.Accepts.fd {env : AcceptEnv} {books after : Books}
    (accepts : books.Accepts env after) :
    after.fd = books.fd := by
  cases accepts <;> rfl

theorem serverAccept_books {rc : Int} (distinct : (process.books.listed.map Prod.fst).Nodup)
    (fresh : env.Fresh process.books) (ok : serverAccept application process env = .ok (rc, next)) :
    process.books.Accepts env next.books := by
  cases serverAccept_step ok with
  | unchanged nothing unable =>
      refine .same nothing fun connects => (unable connects).imp_left fun some empty => some ?_
      exact List.map_eq_nil_iff.mp empty
  | leaked listens came failed => exact .leaked listens came failed
  | accepted listens came named allocated inserted =>
      have opened : ((process.openFd env.fd).books.listed.map Prod.fst).Nodup := distinct
      obtain ⟨-, -, ptr, -, books⟩ := insertClient_ok opened fresh.2 inserted
      rw [books]
      exact .accepted listens came ptr
  | connected connects empty allocated inserted =>
      obtain ⟨-, -, ptr, -, books⟩ := insertClient_ok distinct fresh.2 inserted
      rw [books]
      exact .connected connects ptr

/-- A call of the loop accepts a client or not, reads from those that `select` left in the set, and
drops those that are not active. -/
theorem serverLoop_phases {env : LoopEnv}
    (ok : warppipeServerLoop application process env = .ok next) :
    ∃ accepted read, (accepted = process.selected env.select ∨
        process.server.fd ∈ env.select.apply (requestedFds process.server) ∧
          ∃ rc, serverAccept application (process.selected env.select) env.accept =
            .ok (rc, accepted)) ∧
      serverRead application accepted (accepted.server.clients.map ClientNode.ptr) = .ok read ∧
      next = warppipeServerDisconnectClients read (some shouldDisconnectClient) := by
  rw [warppipeServerLoop] at ok
  split at ok
  · simp only [loopAfterSelect, bind, Except.bind, pure, Except.pure] at ok
    split at ok
    · rename_i ready
      cases came : serverAccept application (process.selected env.select) env.accept with
      | error fault => simp [came, Except.map] at ok
      | ok outcome =>
          simp only [came, Except.map] at ok
          split at ok
          · cases ok
          · rename_i read passed
            cases ok
            exact ⟨outcome.2, read, .inr ⟨ready, outcome.1, rfl⟩, passed, rfl⟩
    · split at ok
      · cases ok
      · rename_i read passed
        cases ok
        exact ⟨_, read, .inl rfl, passed, rfl⟩
  · cases ok

inductive CreateStep (application : Application σ) (process : Process σ) (env : AcceptEnv) :
    Option (List AddrStep) → Int → Process σ → Prop where
  | unresolved : CreateStep application process env none (-1) process
  | gaveUp {steps : List AddrStep} {ready : Process σ}
      (failed : setUpSocket process steps = (none, ready)) :
      CreateStep application process env (some steps) (-1) ready
  | listening {steps : List AddrStep} {ready : Process σ} {sfd : Int}
      (bound : setUpSocket process steps = (some sfd, ready))
      (listens : ready.server.listen = true) :
      CreateStep application process env (some steps) 0 (ready.serveOn sfd)
  | connecting {steps : List AddrStep} {ready next : Process σ} {sfd rc : Int}
      (bound : setUpSocket process steps = (some sfd, ready))
      (connects : ready.server.listen = false)
      (accepted : serverAccept application (ready.serveOn sfd) env = .ok (rc, next)) :
      CreateStep application process env (some steps) 0 next

theorem serverCreate_step {addresses : Option (List AddrStep)} {rc : Int}
    (ok : warppipeServerCreate application process addresses env = .ok (rc, next)) :
    CreateStep application process env addresses rc next := by
  cases addresses with
  | none =>
      cases ok
      exact .unresolved
  | some steps =>
      simp only [warppipeServerCreate, bind, Except.bind, pure, Except.pure] at ok
      split at ok
      · rename_i ready failed
        cases ok
        exact .gaveUp failed
      · rename_i sfd ready bound
        split at ok
        · rename_i listens
          cases ok
          exact .listening bound listens
        · rename_i connects
          cases accepted : serverAccept application (ready.serveOn sfd) env with
          | error fault => simp [accepted, Except.map] at ok
          | ok outcome =>
              simp only [accepted] at ok
              cases ok
              exact .connecting bound (Bool.eq_false_iff.mpr connects) accepted

end

end WarpPipe
