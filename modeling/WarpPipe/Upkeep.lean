import WarpPipe.Enumeration

/-!
Invariants of an application that serves its clients from one server. What every callback keeps of
the data of the application, and of the registrations that it makes, holds in every run, whatever
arrives on the connections.
-/

namespace WarpPipe

open ByteLayout

variable {σ : Type}

def Call.Keeps (call : Call) (fits : Registry → Prop) : Prop :=
  ∀ registry, fits registry → fits (registry.after call)

/-- `holds` is established by the accept callback, from data that are as they were at first too, and
kept by every other callback. `fits` holds of the registrations of a new client, and every request
keeps it. -/
structure Application.Upholds (application : Application σ) (acceptCb : FnPtr) (start : σ)
    (holds : σ → Prop) (fits : Registry → Prop) : Prop where
  created : ∀ memory fd, fits (warppipeClientCreate memory fd).registry
  accept : ∀ app ptr, app = start ∨ holds app → holds (application.accept acceptCb app ptr).app
  acceptCalls : ∀ app ptr, ∀ call ∈ (application.accept acceptCb app ptr).calls, call.2.Keeps fits
  read : ∀ cb app self addr length, holds app → holds (application.read cb app self addr length).app
  readCalls : ∀ cb app self addr length, ∀ call ∈ (application.read cb app self addr length).calls,
    call.2.Keeps fits
  write : ∀ cb app self addr data length, holds app →
  holds (application.write cb app self addr data length).app
  writeCalls : ∀ cb app self addr data length,
    ∀ call ∈ (application.write cb app self addr data length).calls, call.2.Keeps fits
  completion : ∀ cb app self errorCode data length, holds app →
    holds (application.completion cb app self errorCode data length).app
  completionCalls : ∀ cb app self errorCode data length,
    ∀ call ∈ (application.completion cb app self errorCode data length).calls, call.2.Keeps fits

/-- No client has come yet and the data are as they were at first, or they hold. -/
structure Process.Upheld (process : Process σ) (acceptCb : FnPtr) (start : σ) (holds : σ → Prop)
    (fits : Registry → Prop) : Prop where
  acceptCb : process.server.acceptCb = some acceptCb
  app : process.app = start ∧ process.server.clients = [] ∨ holds process.app
  fits : ∀ node ∈ process.server.clients, fits node.client.registry

section

variable {fits : Registry → Prop}

def AllFit (fits : Registry → Prop) (clients : List ClientNode) : Prop :=
  ∀ node ∈ clients, fits node.client.registry

theorem AllFit.updateAt {τ : Type} {clients : List ClientNode} (all : AllFit fits clients)
    (ptr : Nat) {world : World τ} (own : fits world.client.registry) :
    AllFit fits (updateAt clients ptr world) := by
  intro node member
  obtain ⟨before, inside, rfl⟩ := List.mem_map.mp member
  split
  · exact own
  · exact all before inside

theorem callOn_allFit {clients next : List ClientNode} {ptr : Nat} {call : Call}
    (all : AllFit fits clients) (keeps : call.Keeps fits)
    (ok : callOn clients ptr call = .ok next) : AllFit fits next := by
  simp only [callOn] at ok
  split at ok
  · cases ok
  · rename_i node found
    split at ok
    · rename_i rc world ran
      cases ok
      refine all.updateAt ptr ?_
      rw [Call.run_registry ran]
      exact keeps _ (all node (Keyed.find_some found).1)
    · cases ok

theorem callsOn_allFit {clients next : List ClientNode} {calls : List (Nat × Call)}
    (all : AllFit fits clients) (keep : ∀ call ∈ calls, call.2.Keeps fits)
    (ok : callsOn clients calls = .ok next) : AllFit fits next := by
  induction calls generalizing clients with
  | nil =>
      cases ok
      exact all
  | cons call rest ih =>
      simp only [callsOn] at ok
      split at ok
      · rename_i middle called
        exact ih (callOn_allFit all (keep call List.mem_cons_self) called)
          (fun other member => keep other (List.mem_cons_of_mem _ member)) ok
      · cases ok

theorem fits_foldl {registry : Registry} (own : fits registry) {calls : List Call}
    (keep : ∀ call ∈ calls, call.Keeps fits) : fits (calls.foldl Registry.after registry) := by
  induction calls generalizing registry with
  | nil => exact own
  | cons call rest ih =>
      exact ih (keep call List.mem_cons_self registry own) fun other member =>
        keep other (List.mem_cons_of_mem _ member)

theorem keeps_ownCalls {self : Nat} {calls : List (Nat × Call)}
    (keep : ∀ call ∈ calls, call.2.Keeps fits) :
    ∀ call ∈ ownCalls self calls, call.Keeps fits := by
  intro call member
  obtain ⟨request, inside, rfl⟩ := List.mem_map.mp member
  exact keep request (List.mem_filter.mp inside).1

end

section

variable {application : Application σ} {acceptCb : FnPtr} {start : σ} {holds : σ → Prop}
  {fits : Registry → Prop}

def SharedUpheld (holds : σ → Prop) (fits : Registry → Prop) (shared : Shared σ) : Prop :=
  holds shared.app ∧ ∀ clients, shared.clients = .ok clients → AllFit fits clients

theorem SharedUpheld.after {shared : Shared σ} (upheld : SharedUpheld holds fits shared) {app : σ}
    {calls : List (Nat × Call)} (kept : holds app) (keep : ∀ call ∈ calls, call.2.Keeps fits) :
    SharedUpheld holds fits (shared.after app calls) := by
  refine ⟨kept, fun next same => ?_⟩
  simp only [Shared.after] at same
  cases before : shared.clients with
  | error fault =>
      rw [before] at same
      cases same
  | ok clients =>
      rw [before] at same
      exact callsOn_allFit (upheld.2 clients before)
        (fun call member => keep call (List.mem_filter.mp member).1) same

variable (upholds : application.Upholds acceptCb start holds fits)

include upholds

theorem Application.Upholds.keep : application.callbacks.Keep (SharedUpheld holds fits) where
  read cb _ addr length upheld :=
    upheld.after (upholds.read cb _ _ addr length upheld.1) (upholds.readCalls cb _ _ addr length)
  write cb _ addr data length upheld :=
    upheld.after (upholds.write cb _ _ addr data length upheld.1)
      (upholds.writeCalls cb _ _ addr data length)
  completion cb _ errorCode data length upheld :=
    upheld.after (upholds.completion cb _ _ errorCode data length upheld.1)
      (upholds.completionCalls cb _ _ errorCode data length)

theorem clientRead_fits {node : ClientNode} {shared : Shared σ} (own : fits node.client.registry)
    {world : World (Shared σ)}
    (ran : warppipeClientRead application.callbacks (node.world shared) = .ok world) :
    fits world.client.registry := by
  rcases clientRead_reregistered ran with ⟨-, same⟩ | ⟨calls, invoked, registry⟩
  · rw [same]
    exact own
  · rw [registry]
    refine fits_foldl own ?_
    generalize world.app = app at invoked
    cases invoked with
    | read cb addr length => exact keeps_ownCalls (upholds.readCalls cb _ _ addr length)
    | write cb addr data length routed =>
        exact keeps_ownCalls (upholds.writeCalls cb _ _ addr data length)
    | completion cb data length =>
        exact keeps_ownCalls (upholds.completionCalls cb _ _ 0 data length)

theorem clientReadAt_upheld {process next : Process σ} {node : ClientNode}
    (upheld : process.Upheld acceptCb start holds fits) (member : node ∈ process.server.clients)
    (ok : clientReadAt application process node = .ok next) :
    next.Upheld acceptCb start holds fits := by
  have served : holds process.app := by
    rcases upheld.app with ⟨-, none⟩ | served
    · rw [none] at member
      cases member
    · exact served
  simp only [clientReadAt, bind, Except.bind, pure, Except.pure] at ok
  split at ok
  · cases ok
  · rename_i world ran
    split at ok
    · cases ok
    · rename_i clients reached
      cases ok
      have before : SharedUpheld holds fits (process.shared node.ptr) := by
        refine ⟨served, fun clients same => ?_⟩
        cases same
        exact upheld.fits
      obtain ⟨kept, others⟩ := clientRead_app upholds.keep before ran
      exact ⟨upheld.acceptCb, .inr kept,
        AllFit.updateAt (others clients reached) node.ptr
          (clientRead_fits upholds (upheld.fits node member) ran)⟩

theorem serverRead_upheld {process next : Process σ} {ptrs : List Nat}
    (upheld : process.Upheld acceptCb start holds fits)
    (ok : serverRead application process ptrs = .ok next) :
    next.Upheld acceptCb start holds fits := by
  induction ptrs generalizing process with
  | nil =>
      cases ok
      exact upheld
  | cons ptr rest ih =>
      simp only [serverRead] at ok
      split at ok
      · exact ih upheld ok
      · rename_i node found
        split at ok
        · split at ok
          · split at ok
            · rename_i middle ran
              exact ih (clientReadAt_upheld upholds upheld (Keyed.find_some found).1 ran) ok
            · cases ok
          · exact ih upheld ok
        · cases ok

omit upholds in
theorem insertClient_acceptCb {process next : Process σ} {fd rc : Int} {env : AcceptEnv}
    (ok : insertClient application process fd env = .ok (rc, next)) :
    next.server.acceptCb = process.server.acceptCb := by
  simp only [insertClient, bind, Except.bind, pure, Except.pure] at ok
  split at ok
  · cases ok
    rfl
  · split at ok
    · cases callback : process.server.acceptCb with
      | none =>
          simp only [callback] at ok
          cases ok
          rfl
      | some cb =>
          simp only [callback] at ok
          split at ok
          · cases ok
          · cases ok
            rfl
    · cases ok
      rfl

theorem insertClient_upheld {process next : Process σ} {fd : Int} {env : AcceptEnv}
    (upheld : process.Upheld acceptCb start holds fits)
    (ok : insertClient application process fd env = .ok (0, next)) :
    next.Upheld acceptCb start holds fits := by
  have registered := upheld.acceptCb
  obtain ⟨ptr, memory, -, ⟨unset, -⟩ | ⟨cb, set, app, called⟩⟩ := insertClient_created ok
  · rw [registered] at unset
    cases unset
  · rw [registered, Option.some.injEq] at set
    subst set
    have all : AllFit fits
        (process.server.clients ++ [⟨ptr, warppipeClientCreate memory fd, env.sock⟩]) := by
      intro node member
      rcases List.mem_append.mp member with old | new
      · exact upheld.fits node old
      · rw [List.mem_singleton.mp new]
        exact upholds.created memory fd
    refine ⟨(insertClient_acceptCb ok).trans registered, .inr ?_,
      callsOn_allFit all (upholds.acceptCalls _ _) called⟩
    rw [app]
    exact upholds.accept _ _ (upheld.app.imp_left And.left)

theorem serverAccept_upheld {process next : Process σ} {env : AcceptEnv} {rc : Int}
    (upheld : process.Upheld acceptCb start holds fits)
    (ok : serverAccept application process env = .ok (rc, next)) :
    next.Upheld acceptCb start holds fits := by
  have opened : (process.openFd env.fd).Upheld acceptCb start holds fits :=
    ⟨upheld.acceptCb, upheld.app, upheld.fits⟩
  cases serverAccept_step ok with
  | unchanged nothing unable => exact upheld
  | leaked listens came failed => exact opened
  | accepted listens came named allocated inserted =>
      exact insertClient_upheld upholds opened inserted
  | connected connects empty allocated inserted => exact insertClient_upheld upholds upheld inserted

omit upholds in
theorem disconnect_upheld {process : Process σ} (upheld : process.Upheld acceptCb start holds fits)
    (condition : Option (ClientNode → Bool)) :
    (warppipeServerDisconnectClients process condition).Upheld acceptCb start holds fits := by
  refine List.foldlRecOn (motive := fun current : Process σ =>
    current.Upheld acceptCb start holds fits)
    process.server.clients _ upheld fun current kept node _ => ?_
  split
  · refine ⟨kept.acceptCb, kept.app.imp_left fun first => ⟨first.1, ?_⟩, fun other member => ?_⟩
    · simp only [disconnectClient, Process.closeFd, first.2]
      rfl
    · exact kept.fits other (Keyed.mem_remove.mp member).1
  · exact kept

theorem serverLoop_upheld {process next : Process σ} {env : LoopEnv}
    (upheld : process.Upheld acceptCb start holds fits)
    (ok : warppipeServerLoop application process env = .ok next) :
    next.Upheld acceptCb start holds fits := by
  have selected : (process.selected env.select).Upheld acceptCb start holds fits :=
    ⟨upheld.acceptCb, upheld.app, upheld.fits⟩
  obtain ⟨accepted, read, how, passed, rfl⟩ := serverLoop_phases ok
  have kept : accepted.Upheld acceptCb start holds fits := by
    rcases how with rfl | ⟨-, rc, came⟩
    · exact selected
    · exact serverAccept_upheld upholds selected came
  exact disconnect_upheld (serverRead_upheld upholds kept passed) _

omit upholds in
theorem setUpSocket_kept (process : Process σ) (steps : List AddrStep) :
    (setUpSocket process steps).2.server = process.server ∧
    (setUpSocket process steps).2.app = process.app := by
  induction steps generalizing process with
  | nil => exact ⟨rfl, rfl⟩
  | cons step rest ih =>
      cases step with
      | noSocket => exact ih process
      | failed fd => exact ⟨rfl, rfl⟩
      | refused fd => exact ih ((process.openFd fd).closeFd fd)
      | bound fd => exact ⟨rfl, rfl⟩

theorem serverCreate_upheld {process next : Process σ} {addresses : Option (List AddrStep)}
    {env : AcceptEnv} {rc : Int} (upheld : process.Upheld acceptCb start holds fits)
    (ok : warppipeServerCreate application process addresses env = .ok (rc, next)) :
    next.Upheld acceptCb start holds fits := by
  have ready {socket : Option Int} {ready : Process σ} {steps : List AddrStep}
      (bound : setUpSocket process steps = (socket, ready)) :
        ready.Upheld acceptCb start holds fits := by
    obtain ⟨server, app⟩ := setUpSocket_kept process steps
    rw [bound] at server app
    refine ⟨?_, ?_, ?_⟩
    · rw [server]
      exact upheld.acceptCb
    · rw [server, app]
      exact upheld.app
    · rw [server]
      exact upheld.fits
  have serving {sfd : Int} {bound : Process σ} (upheld : bound.Upheld acceptCb start holds fits) :
      (bound.serveOn sfd).Upheld acceptCb start holds fits :=
    ⟨upheld.acceptCb, upheld.app.imp_left fun first => ⟨first.1, rfl⟩, List.forall_mem_nil _⟩
  cases serverCreate_step ok with
  | unresolved => exact upheld
  | gaveUp failed => exact ready failed
  | listening bound listens => exact serving (ready bound)
  | connecting bound connects accepted =>
      exact serverAccept_upheld upholds (serving (ready bound)) accepted

end

end WarpPipe
