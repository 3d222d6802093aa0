import Mathlib.Algebra.BigOperators.Ring.Finset
import Mathlib.Algebra.Order.BigOperators.Group.Finset
import WarpPipe.HubTurns

/-!
Hosts that share a device see one memory. Whatever turns the hosts and the device take, the device
goes through the states of direct access: a request takes effect when the device handles its packet,
and a host only runs ahead of the writes that it has posted.
-/

namespace WarpPipe

open ByteLayout

variable {σ α : Type} {τ : Side → Type} {n : Nat}

/-- `Leads station posts steps last`: by itself the host gets from `station` to `last`, and posts
those writes on the way. -/
inductive Leads : Station σ α → List Post → Nat → Station σ α → Prop where
  | here (station : Station σ α) : Leads station [] 0 station
  | silent {station next last : Station σ α} {posts : List Post} {steps : Nat}
      (moves : station.Moves none next) (rest : Leads next posts steps last) :
      Leads station posts (steps + 1) last
  | post {station next last : Station σ α} {post : Post} {posts : List Post} {steps : Nat}
      (moves : station.Moves (some post) next) (rest : Leads next posts steps last) :
      Leads station (post :: posts) (steps + 1) last

section

variable {station middle last : Station σ α} {posts : List Post} {steps : Nat}

theorem Leads.then_silent (leads : Leads station posts steps middle)
    (moves : middle.Moves none last) :
    Leads station posts (steps + 1) last := by
  induction leads with
  | here => exact .silent moves (.here _)
  | silent first rest ih => exact .silent first (ih moves)
  | post first rest ih => exact .post first (ih moves)

theorem Leads.then_post {post : Post} (leads : Leads station posts steps middle)
    (moves : middle.Moves (some post) last) : Leads station (posts ++ [post]) (steps + 1) last := by
  induction leads with
  | here => exact .post moves (.here _)
  | silent first rest ih => exact .silent first (ih moves)
  | post first rest ih => exact .post first (ih moves)

theorem Leads.first_post {post : Post} (leads : Leads station (post :: posts) steps last) :
    ∃ middle next before after, Leads station [] before middle ∧ middle.Moves (some post) next ∧
      Leads next posts after last ∧ steps = before + 1 + after := by
  generalize all : post :: posts = queue at leads
  induction leads with
  | here => cases all
  | silent first rest ih =>
      obtain ⟨middle, next, before, after, leads, moves, later, count⟩ := ih all
      exact ⟨middle, next, before + 1, after, .silent first leads, moves, later, by omega⟩
  | post first rest ih =>
      cases all
      exact ⟨_, _, 0, _, .here _, first, rest, by omega⟩

end

/-- `holds` is an invariant of direct access under which no host is stuck, and which bounds the
steps that each host has left. -/
structure Unstuck (cbs : Fin n → (side : Side) → Callbacks (τ side))
    (holds : Bench n τ α → (Fin n → Nat) → Prop) : Prop where
  acts : ∀ bench steps, holds bench steps → ∀ i, (bench.station i).Done ∨
    ∃ device station, Acts (cbs i) (bench.served i) (bench.station i) device station
  keeps : ∀ bench steps i device station, holds bench steps →
    Acts (cbs i) (bench.served i) (bench.station i) device station →
    ∃ fewer, steps i = fewer + 1 ∧
      holds (bench.acted i device station) (Function.update steps i fewer)

section

variable {bench : Bench n τ α} {i : Fin n}

@[simp] theorem acted_station (device : τ .right × Registry) (station : Station (τ .left) α) :
    (bench.acted i device station).station i = station := Function.update_self ..

@[simp] theorem acted_served (device : τ .right × Registry) (station : Station (τ .left) α) :
    (bench.acted i device station).served i = device := by
  simp only [Bench.served, Bench.acted, Function.update_self]

@[simp] theorem acted_acted (first second : τ .right × Registry)
    (before after : Station (τ .left) α) :
    (bench.acted i first before).acted i second after = bench.acted i second after := by
  simp only [Bench.acted, Function.update_idem]

theorem acted_same : bench.acted i (bench.served i) (bench.station i) = bench := by
  simp only [Bench.acted, Bench.served, Function.update_eq_self]

variable {cbs : Fin n → (side : Side) → Callbacks (τ side)}
  {holds : Bench n τ α → (Fin n → Nat) → Prop} {steps : Fin n → Nat} {last : Station (τ .left) α}
  {lead : Nat}

theorem Unstuck.leads (unstuck : Unstuck cbs holds) (held : holds bench steps) {posts : List Post}
    (leads : Leads (bench.station i) posts lead last) :
    ∃ device left, steps i = lead + left ∧ (posts = [] → device = bench.served i) ∧
      holds (bench.acted i device last) (Function.update steps i left) := by
  generalize from_ : bench.station i = station at leads
  induction leads generalizing bench steps with
  | here =>
      refine ⟨bench.served i, steps i, by omega, fun _ => rfl, ?_⟩
      rwa [← from_, acted_same, Function.update_eq_self]
  | silent moves rest ih =>
      rw [← from_] at moves
      obtain ⟨fewer, count, kept⟩ := unstuck.keeps _ _ i _ _ held (.silent moves)
      obtain ⟨device, left, more, same, ends⟩ := ih kept (acted_station ..)
      rw [Function.update_self] at more
      rw [acted_acted, Function.update_idem] at ends
      exact ⟨device, left, by omega, fun none => by rw [same none, acted_served], ends⟩
  | post moves rest ih =>
      rw [← from_] at moves
      obtain ⟨fewer, count, kept⟩ := unstuck.keeps _ _ i _ _ held (.post moves)
      obtain ⟨device, left, more, -, ends⟩ := ih kept (acted_station ..)
      rw [Function.update_self] at more
      rw [acted_acted, Function.update_idem] at ends
      exact ⟨device, left, by omega, nofun, ends⟩

theorem Unstuck.next (unstuck : Unstuck cbs holds) (held : holds bench steps) {posts : List Post}
    {left : Nat} (leads : Leads (bench.station i) posts lead last) (count : steps i = lead + left) :
    last.Done ∨ 0 < left ∧ ∃ device after station, Acts (cbs i) device last after station := by
  obtain ⟨device, rest, more, -, ends⟩ := unstuck.leads held leads
  rcases unstuck.acts _ _ ends i with done | ⟨after, station, acts⟩
  · rw [acted_station] at done
    exact .inl done
  · obtain ⟨fewer, fewest, -⟩ := unstuck.keeps _ _ i _ _ ends acts
    rw [Function.update_self] at fewest
    rw [acted_station, acted_served] at acts
    exact .inr ⟨by omega, device, after, station, acts⟩

theorem Unstuck.serve_post (unstuck : Unstuck cbs holds) (held : holds bench steps) {post : Post}
    {posts : List Post} (leads : Leads (bench.station i) (post :: posts) lead last) :
    ∃ next before after left, Leads next posts after last ∧ lead = before + 1 + after ∧
      steps i = before + 1 + left ∧
      holds (bench.acted i (serveWrite (cbs i .right) (bench.served i) post) next)
        (Function.update steps i left) := by
  obtain ⟨middle, next, before, after, silent, moves, rest, count⟩ := leads.first_post
  obtain ⟨device, left, more, same, kept⟩ := unstuck.leads held silent
  obtain rfl := same rfl
  obtain ⟨fewer, fewest, ends⟩ := unstuck.keeps _ _ i _ next kept (.post (by rwa [acted_station]))
  rw [Function.update_self] at fewest
  rw [acted_served, acted_acted, Function.update_idem] at ends
  exact ⟨next, before, after, fewer, rest, count, by omega, ends⟩

theorem Station.Asks.not_moves {space : Space} {addr : BitVec 64} {length : Nat} {cb : FnPtr}
    {met : σ → Bool} {leave : σ → σ} {resume : Bool → σ → Program σ α} {station after : Station σ α}
    {post : Option Post} (asks : station.Asks space addr length cb met leave resume) :
    ¬station.Moves post after := by
  obtain ⟨request, next, program, -, effect, -⟩ := asks.program
  intro moves
  cases moves with
  | change => cases program
  | silent app proper other =>
      cases program
      cases effect.symm.trans other
  | post app proper other =>
      cases program
      cases effect.symm.trans other

theorem Unstuck.serve_ask (unstuck : Unstuck cbs holds) (held : holds bench steps) {space : Space}
    {addr : BitVec 64} {length : Nat} {cb : FnPtr} {met : τ .left → Bool}
    {leave : τ .left → τ .left} {resume : Bool → τ .left → Program (τ .left) α}
    (leads : Leads (bench.station i) [] lead last)
    (asks : last.Asks space addr length cb met leave resume) :
    ∃ data rest left, serveRead (cbs i .right) (bench.served i) space addr length =
        some (data, rest) ∧
      met ((cbs i .left).completion cb last.app 0 data data.length).app = true ∧
      steps i = lead + left + 1 ∧
      holds (bench.acted i (rest, bench.registry i)
        (last.resumed leave resume ((cbs i .left).completion cb last.app 0 data data.length).app))
        (Function.update steps i left) := by
  obtain ⟨device, left, more, same, kept⟩ := unstuck.leads held leads
  obtain rfl := same rfl
  rcases unstuck.acts _ _ kept i with ⟨value, done⟩ | ⟨after, station, acts⟩
  · obtain ⟨request, next, program, -⟩ := asks.program
    rw [acted_station, program] at done
    cases done
  · obtain ⟨fewer, fewest, ends⟩ := unstuck.keeps _ _ i _ _ kept acts
    rw [Function.update_self] at fewest
    rw [acted_station, acted_served] at acts
    rw [acted_acted, Function.update_idem] at ends
    cases acts with
    | silent moves => exact absurd moves asks.not_moves
    | post moves => exact absurd moves asks.not_moves
    | ask other answer met =>
        obtain ⟨request, next, program, -, effect, waits⟩ := asks.program
        obtain ⟨_, _, program', -, effect', waits'⟩ := other.program
        cases program.symm.trans program'
        cases effect.symm.trans effect'
        cases waits.symm.trans waits'
        exact ⟨_, _, fewer, answer, met, by omega, ends⟩

end

def Station.ready (station : Station σ α) : Bool :=
  match station.program with
  | .done _ => false
  | .wait met _ _ => met station.app
  | _ => true

theorem Station.Moves.unique {station first second : Station σ α} {post other : Option Post}
    (left : station.Moves post first) (right : station.Moves other second) :
    post = other ∧ first = second := by
  cases left with
  | change =>
      cases right
      exact ⟨rfl, rfl⟩
  | silent app proper effect =>
      cases right with
      | silent _ _ same =>
          cases effect.symm.trans same
          exact ⟨rfl, rfl⟩
      | post _ _ same => cases effect.symm.trans same
  | post app proper effect =>
      cases right with
      | silent _ _ same => cases effect.symm.trans same
      | post _ _ same =>
          cases effect.symm.trans same
          exact ⟨rfl, rfl⟩

theorem Acts.ready {cbs : (side : Side) → Callbacks (τ side)} {device after : τ .right × Registry}
    {station next : Station (τ .left) α} (acts : Acts cbs device station after next) :
    station.ready = true := by
  have moved {post : Option Post} {next : Station (τ .left) α} (moves : station.Moves post next) :
      station.ready = true := by
    cases moves <;> rfl
  cases acts with
  | silent moves => exact moved moves
  | post moves => exact moved moves
  | ask asks =>
      obtain ⟨request, next, program, -⟩ := asks.program
      rw [Station.ready, program]

theorem Acts.unique {cbs : (side : Side) → Callbacks (τ side)}
    {device first second : τ .right × Registry} {station left right : Station (τ .left) α}
    (one : Acts cbs device station first left) (two : Acts cbs device station second right) :
    first = second ∧ left = right := by
  cases one with
  | silent moves =>
      cases two with
      | silent others => exact ⟨rfl, (moves.unique others).2⟩
      | post others => cases (moves.unique others).1
      | ask asks => exact absurd moves asks.not_moves
  | post moves =>
      cases two with
      | silent others => cases (moves.unique others).1
      | post others =>
          obtain ⟨same, alike⟩ := moves.unique others
          cases same
          exact ⟨rfl, alike⟩
      | ask asks => exact absurd moves asks.not_moves
  | ask asks answer ends =>
      cases two with
      | silent moves => exact absurd moves asks.not_moves
      | post moves => exact absurd moves asks.not_moves
      | ask others other met =>
          obtain ⟨request, next, program, -, effect, waits⟩ := asks.program
          obtain ⟨_, _, program', -, effect', waits'⟩ := others.program
          cases program.symm.trans program'
          cases effect.symm.trans effect'
          cases waits.symm.trans waits'
          cases answer.symm.trans other
          exact ⟨rfl, rfl⟩

theorem Unstuck.of_step {cbs : Fin n → (side : Side) → Callbacks (τ side)}
    {holds : Bench n τ α → (Fin n → Nat) → Prop}
    (step : ∀ bench steps i, holds bench steps → (bench.station i).Done ∨
      ∃ device station fewer, Acts (cbs i) (bench.served i) (bench.station i) device station ∧
        steps i = fewer + 1 ∧
        holds (bench.acted i device station) (Function.update steps i fewer)) :
    Unstuck cbs holds := by
  refine ⟨fun bench steps held i => ?_, fun bench steps i device station held acts => ?_⟩
  · rcases step bench steps i held with done | ⟨device, station, fewer, acts, -⟩
    · exact .inl done
    · exact .inr ⟨device, station, acts⟩
  · rcases step bench steps i held with ⟨value, done⟩ | ⟨other, next, fewer, others, count, kept⟩
    · have ready := acts.ready
      rw [Station.ready, done] at ready
      cases ready
    · obtain ⟨rfl, rfl⟩ := acts.unique others
      exact ⟨fewer, count, kept⟩

/-- What every step of direct access keeps is an invariant beside `holds`. -/
theorem Unstuck.and {cbs : Fin n → (side : Side) → Callbacks (τ side)}
    {holds : Bench n τ α → (Fin n → Nat) → Prop} {kept : Bench n τ α → Prop}
    (unstuck : Unstuck cbs holds)
    (keeps : ∀ bench steps i device station, holds bench steps → kept bench →
      Acts (cbs i) (bench.served i) (bench.station i) device station →
        kept (bench.acted i device station)) :
    Unstuck cbs fun bench steps => holds bench steps ∧ kept bench := by
  refine ⟨fun bench steps held => unstuck.acts bench steps held.1,
    fun bench steps i device station held acts => ?_⟩
  obtain ⟨fewer, count, next⟩ := unstuck.keeps bench steps i device station held.1 acts
  exact ⟨fewer, count, next, keeps bench steps i device station held.1 held.2 acts⟩

/-! What is under way on one connection. -/

def Seat.station (seat : Seat τ α) : Station (τ .left) α :=
  ⟨seat.program, seat.host.app, seat.host.client.registry⟩

def Station.ended (station : Station σ α) : Bool :=
  match station.program with
  | .done _ => true
  | _ => false

def Station.waiting (asker : Station σ α) (met : σ → Bool) (leave : σ → σ)
    (resume : Bool → σ → Program σ α) :
    Station σ α :=
  ⟨.wait met leave resume, asker.app, asker.registry⟩

/-- How the host `actual` stands to the host `direct` of direct access, which has `steps` left: its
own steps that remain, and the messages on the way to the device and to the host. A read counts as
two steps. -/
inductive Transit (cbs : Callbacks σ) (direct : Station σ α) (steps : Nat)
    (slots : Fin 32 → Option FnPtr) :
    Station σ α → Nat → List Message → List Message → Prop where
  | posted {actual : Station σ α} {posts : List Post} {lead left : Nat}
      (leads : Leads direct posts lead actual) (count : steps = lead + left) :
      Transit cbs direct steps slots actual (2 * left) (posts.map Post.message) []
  | asked {asker : Station σ α} {posts : List Post} {lead left : Nat} {space : Space}
      {addr : BitVec 64} {length : Nat} {tag : Fin 32} {cb : FnPtr} {met : σ → Bool} {leave : σ → σ}
      {resume : Bool → σ → Program σ α} (leads : Leads direct posts lead asker)
      (asks : asker.Asks space addr length cb met leave resume) (held : slots tag = some cb)
      (count : steps = lead + left + 1) :
      Transit cbs direct steps slots (asker.waiting met leave resume) (2 * left + 1)
        (posts.map Post.message ++ [.read space addr length tag]) []
  | answered {asker : Station σ α} {space : Space} {addr : BitVec 64} {length : Nat} {tag : Fin 32}
      {cb : FnPtr} {met : σ → Bool} {leave : σ → σ} {resume : Bool → σ → Program σ α} {data : Bytes}
      (asks : asker.Asks space addr length cb met leave resume) (held : slots tag = some cb)
      (ends : met (cbs.completion cb asker.app 0 data data.length).app = true)
      (same : direct = asker.resumed leave resume
        (cbs.completion cb asker.app 0 data data.length).app) :
      Transit cbs direct steps slots (asker.waiting met leave resume) (2 * steps + 1) []
        [.completion tag data]
  | finished {asker : Station σ α} {met : σ → Bool} {leave : σ → σ}
      {resume : Bool → σ → Program σ α} {app : σ} (ends : met app = true)
      (same : direct = asker.resumed leave resume app) :
      Transit cbs direct steps slots ⟨.wait met leave resume, app, asker.registry⟩
        (2 * steps + 1) [] []

section

variable {cbs : Callbacks σ} {direct actual : Station σ α} {steps todo : Nat}
  {slots : Fin 32 → Option FnPtr} {toDevice toHost : List Message} {message : Message}

theorem Transit.of_ready (transit : Transit cbs direct steps slots actual todo toDevice toHost)
    (ready : actual.ready = true) :
    (∃ posts lead left, Leads direct posts lead actual ∧ steps = lead + left ∧ todo = 2 * left ∧
      toDevice = posts.map Post.message ∧ toHost = []) ∨
    ∃ met leave resume, actual.program = .wait met leave resume ∧ met actual.app = true ∧
      direct = actual.resumed leave resume actual.app ∧ todo = 2 * steps + 1 ∧ toDevice = [] ∧
      toHost = [] := by
  cases transit with
  | posted leads count => exact .inl ⟨_, _, _, leads, count, rfl, rfl, rfl⟩
  | asked leads asks => cases asks.unfinished.symm.trans ready
  | answered asks => cases asks.unfinished.symm.trans ready
  | finished ends same => exact .inr ⟨_, _, _, rfl, ends, same, rfl, rfl, rfl⟩

theorem Transit.finish
    (transit : Transit cbs direct steps slots actual todo toDevice (message :: toHost)) :
    ∃ tag cb data, message = .completion tag data ∧ slots tag = some cb ∧ toHost = [] ∧
      Transit cbs direct steps (Function.update slots tag none)
        ⟨actual.program, (cbs.completion cb actual.app 0 data data.length).app, actual.registry⟩
          todo toDevice [] := by
  generalize queue : message :: toHost = all at transit
  cases transit with
  | posted => cases queue
  | asked => cases queue
  | answered asks held ends same =>
      cases queue
      exact ⟨_, _, _, rfl, held, rfl, .finished ends same⟩
  | finished => cases queue

theorem Transit.serve
    (transit : Transit cbs direct steps slots actual todo (message :: toDevice) toHost) :
    (∃ post posts lead last, message = post.message ∧ Leads direct (post :: posts) lead last ∧
      ∀ next before after left, Leads next posts after last → lead = before + 1 + after →
        steps = before + 1 + left → Transit cbs next left slots actual todo toDevice toHost) ∨
    ∃ space addr length tag cb met leave resume asker lead left,
      message = .read space addr length tag ∧
      Leads direct [] lead asker ∧ asker.Asks space addr length cb met leave resume ∧
      slots tag = some cb ∧ actual = asker.waiting met leave resume ∧ steps = lead + left + 1 ∧
      todo = 2 * left + 1 ∧ toDevice = [] ∧ toHost = [] := by
  generalize queue : message :: toDevice = all at transit
  cases transit with
  | @posted _ posts lead left leads count =>
      cases posts with
      | nil => cases queue
      | cons post posts =>
          cases queue
          exact .inl ⟨post, posts, lead, _, rfl, leads,
              fun next before after left rest split more =>
            .posted rest (by omega)⟩
  | @asked asker posts lead left space addr length tag cb met leave resume leads asks held count =>
      cases posts with
      | nil =>
          cases queue
          exact .inr ⟨space, addr, length, tag, cb, met, leave, resume, asker, lead, left, rfl,
            leads, asks, held, rfl, count, rfl, rfl, rfl⟩
      | cons post posts =>
          cases queue
          exact .inl ⟨post, posts, lead, asker, rfl, leads,
              fun next before after left rest split more =>
            .asked rest asks held (by omega)⟩
  | answered => cases queue
  | finished => cases queue

end

structure Seated (cbs : Callbacks (τ .left)) (seat : Seat τ α) (queues : Queues)
    (registry : Registry) (direct : Station (τ .left) α) (steps todo : Nat) : Prop where
  linked : Linked seat.system queues
  running : seat.quit = false
  active : ∀ side, (seat.system side).client.active = true
  registry : (seat.system .right).client.registry = registry
  transit : Transit cbs direct steps seat.host.client.completionCb seat.station todo
    (messages (queues .right)) (messages (queues .left))

section

variable {cbs : (side : Side) → Callbacks (τ side)} {seat : Seat τ α} {queues : Queues}
  {registry : Registry} {direct : Station (τ .left) α} {steps todo : Nat}
  (seated : Seated (cbs .left) seat queues registry direct steps todo)

include seated

theorem Seated.host_turn {after : World (τ .left)} {popped rest pushed : List Parcel}
    {program : Program (τ .left) α} {left : Nat} {other : Station (τ .left) α} {fewer : Nat}
    (relayed : Relayed (seat.system .left) after popped pushed)
    (taken : queues .left = popped ++ rest) (active : after.standing.active = true)
    (transit : Transit (cbs .left) other fewer after.standing.slots
      ⟨program, after.standing.app, after.standing.registry⟩ left
        (messages (queues .right) ++ messages pushed)
      (messages rest)) :
    Seated (cbs .left) { seat with system := seat.system.moved .left after, program := program }
      (queues.moved .left rest pushed) registry other fewer left := by
  have peer : seat.system.moved .left after .right =
      (seat.system .right).arrive (transferred (seat.system .left) after) :=
    moved_peer seat.system .left after
  have own : seat.system.moved .left after .left = after := moved_self seat.system .left after
  refine ⟨seated.linked.relay relayed taken, seated.running, fun side => ?_, ?_, ?_⟩
  · cases side with
    | left =>
        simp only [own]
        exact active
    | right =>
        simp only [peer]
        exact seated.active .right
  · simp only [peer]
    exact seated.registry
  · rw [Queues.moved_self, show queues.moved .left rest pushed .right =
        _ from queues.moved_peer .left rest pushed,
      messages_append]
    simp only [Seat.station, Seat.host, own]
    exact transit

theorem Seated.silent_turn {after : World (τ .left)} {program : Program (τ .left) α} {left : Nat}
    {other : Station (τ .left) α} {fewer : Nat} (log : after.log = seat.host.log)
    (sock : after.sock = seat.host.sock) (active : after.standing.active = true)
    (transit : Transit (cbs .left) other fewer after.standing.slots
      ⟨program, after.standing.app, after.standing.registry⟩ left (messages (queues .right))
        (messages (queues .left))) :
    Seated (cbs .left) { seat with system := seat.system.moved .left after, program := program }
      queues registry other fewer left := by
  have relayed : Relayed (seat.system .left) after [] [] := by
    refine ⟨?_, by rw [sock]; rfl, by rw [sock]; exact seated.linked.recvs .left,
      by rw [sock]; exact seated.linked.sends .left⟩
    have same : after.log = (seat.system .left).log ++ [] := log.trans (List.append_nil _).symm
    rw [transferred, fresh_eq same]
    rfl
  rw [← queues.moved_idle .left]
  refine seated.host_turn relayed (List.nil_append _).symm active ?_
  rw [messages_nil, List.append_nil]
  exact transit

omit seated in
theorem Seat.withHost_eq (seat : Seat τ α) (app : τ .left) :
    seat.withHost app = seat.system.moved .left { seat.host with app := app } := by
  have nothing : transferred seat.host { seat.host with app := app } = [] := by
    have log : ({ seat.host with app := app } : World (τ .left)).log = seat.host.log ++ [] :=
      (List.append_nil _).symm
    rw [transferred, fresh_eq log]
    rfl
  rw [Seat.withHost, System.moved]
  change _ = Function.update (Function.update seat.system .right
    ((seat.system .right).arrive (transferred seat.host { seat.host with app := app }))) .left _
  rw [nothing, World.arrive, List.append_nil]
  exact congrArg (Function.update · _ _) (Function.update_eq_self _ _).symm

theorem Seated.loop
    (quiet : ∀ cb app code data length,
      ((cbs .left).completion cb app code data length).calls = []) :
    ∃ next later, seat.loop cbs = .ok next ∧ next.program = seat.program ∧
      Seated (cbs .left) next later registry direct steps todo ∧
      (queues .left ≠ [] → later.work < queues.work) ∧
      (queues .left = [] → later = queues ∧ next.station = seat.station) := by
  have stepped {after : World (τ .left)}
      (read : warppipeClientRead (cbs .left) (seat.system .left) = .ok after)
      (active : after.standing.active = true) :
      seat.loop cbs = .ok { seat with system := seat.system.moved .left after } := by
    have still : (seat.system.moved .left after .left).client.active = true := by
      rw [moved_self]
      exact active
    rw [Seat.loop, process_ok read]
    simp only [Except.map, still, Bool.not_true, Bool.or_false]
  have sends := seated.linked.sends .left
  have transit := seated.transit
  cases waiting : queues .left with
  | nil =>
      have stream := seated.linked.incoming .left
      rw [waiting] at stream transit
      obtain ⟨after, read, relayed, standing⟩ :=
        empty_relays sends (seated.linked.recvs .left) (cbs .left) stream
      have active : after.standing.active = true := by
        rw [standing]
        exact seated.active .left
      refine ⟨_, _, stepped read active, rfl, seated.host_turn relayed waiting active ?_,
        fun busy => absurd rfl busy, fun _ => ⟨?_, ?_⟩⟩
      · rw [standing, messages_nil, List.append_nil]
        exact transit
      · have idle := queues.moved_idle .left
        rwa [waiting] at idle
      · have same : (seat.system.moved .left after .left).standing = seat.host.standing :=
          (standing_moved_self seat.system .left after).trans standing
        exact congrArg (fun standing : Standing (τ .left) =>
          (⟨seat.program, standing.app, standing.registry⟩ : Station (τ .left) α)) same
  | cons parcel rest =>
      have next := seated.linked.next waiting
      cases content : parcel.content with
      | ack =>
          obtain ⟨after, read, relayed, standing⟩ :=
            @ack_relays _ (cbs .left) _ _ _ sends next content
          have active : after.standing.active = true := by
            rw [standing]
            exact seated.active .left
          rw [waiting, messages_ack rest content] at transit
          refine ⟨_, _, stepped read active, rfl, seated.host_turn relayed waiting active ?_,
            fun _ => work_pop waiting ?_, nofun⟩
          · rw [standing, messages_nil, List.append_nil]
            exact transit
          · rw [content]
            decide
      | message message =>
          rw [waiting, messages_message rest content] at transit
          obtain ⟨tag, cb, data, rfl, held, last, later⟩ := transit.finish
          obtain ⟨after, read, relayed, standing⟩ :=
            completion_relays sends next content held (quiet cb)
          have active : after.standing.active = true := by
            rw [standing]
            exact seated.active .left
          refine ⟨_, _, stepped read active, rfl, seated.host_turn relayed waiting active ?_,
            fun _ => work_pop waiting ?_, nofun⟩
          · rw [standing, last, messages_ack [] rfl, messages_nil, List.append_nil]
            exact later
          · rw [content]
            exact Nat.one_lt_two

theorem Seated.hostStep_blocked (blocked : seat.station.ready = false) :
    seat.hostStep cbs = seat.loop cbs := by
  have running := seated.running
  cases same : seat.program with
  | done value => simp [Seat.hostStep, same, running]
  | change update next => simp [Station.ready, Seat.station, same] at blocked
  | call request next => simp [Station.ready, Seat.station, same] at blocked
  | wait met leave next =>
      have pending : met seat.host.app = false := by
        simpa only [Station.ready, Seat.station, same] using blocked
      simp [Seat.hostStep, same, pending, running]

theorem Seated.moves {post : Option Post} {after : Station (τ .left) α}
    (moves : seat.station.Moves post after) {posts : List Post} {lead left : Nat}
    (leads : Leads direct posts lead seat.station) (count : steps = lead + (left + 1))
    (toDevice : messages (queues .right) = posts.map Post.message)
    (toHost : messages (queues .left) = []) :
    ∃ next later, seat.hostStep cbs = .ok next ∧
      Seated (cbs .left) next later registry direct steps (2 * left) ∧
      later.work ≤ queues.work + 2 := by
  have running := seated.running
  have active := seated.active .left
  have slots : seat.host.standing.slots = seat.host.client.completionCb := rfl
  have now : steps = lead + 1 + left := by omega
  generalize from_ : seat.station = station at moves leads
  cases moves with
  | @change update resume app registry =>
      obtain ⟨program, rfl, rfl⟩ := Station.mk.inj from_
      refine ⟨_, queues, by rw [Seat.hostStep, program], ?_, by omega⟩
      simp only [Seat.withHost_eq]
      refine seated.silent_turn rfl rfl active ?_
      rw [toDevice, toHost]
      exact .posted (leads.then_silent (.change _ _)) now
  | @silent request resume code registry after app proper effect =>
      obtain ⟨program, rfl, rfl⟩ := Station.mk.inj from_
      obtain ⟨world, ran, log, sock, standing⟩ := call_silent effect
      refine ⟨{ seat with system := seat.system.moved .left world, program := resume code }, queues,
        by simp only [Seat.hostStep, program, running, ran]; rfl,
        seated.silent_turn log sock (by rw [standing]; exact active) ?_, by omega⟩
      rw [standing, toDevice, toHost]
      exact .posted (leads.then_silent (.silent _ proper effect)) now
  | @post request resume registry post app proper effect =>
      obtain ⟨program, rfl, rfl⟩ := Station.mk.inj from_
      obtain ⟨world, parcel, ran, content, relayed, standing⟩ :=
        call_post (seated.linked.sends .left) (seated.linked.recvs .left) (cbs .left) proper effect
      refine ⟨{ seat with system := seat.system.moved .left world, program := resume 0 }, _,
        by simp only [Seat.hostStep, program, running, Seat.host, ran]; rfl,
        seated.host_turn relayed (List.nil_append _).symm (by rw [standing]; exact active) ?_, ?_⟩
      · rw [standing, toDevice, toHost, messages_message [] content, messages_nil]
        have more : posts.map Post.message ++ [post.message] =
            (posts ++ [post]).map Post.message := by
          rw [List.map_append, List.map_singleton]
        rw [more]
        exact .posted (leads.then_post (.post _ proper effect)) now
      · rw [queues.work_moved, queues.work_eq .left,
          show parcelWork [parcel] = parcel.content.work from rfl, content]
        exact Nat.le_refl _

theorem Seated.asks {space : Space} {addr : BitVec 64} {length : Nat} {cb : FnPtr}
    {met : τ .left → Bool} {leave : τ .left → τ .left}
    {resume : Bool → τ .left → Program (τ .left) α}
    (asks : seat.station.Asks space addr length cb met leave resume) {posts : List Post}
    {lead left : Nat} (leads : Leads direct posts lead seat.station)
    (count : steps = lead + (left + 1))
    (toDevice : messages (queues .right) = posts.map Post.message)
    (toHost : messages (queues .left) = []) :
    ∃ next later, seat.hostStep cbs = .ok next ∧
      Seated (cbs .left) next later registry direct steps (2 * left + 1) ∧
      later.work ≤ queues.work + 4 := by
  have running := seated.running
  have active := seated.active .left
  obtain ⟨request, next, program, proper, effect, waits⟩ := asks.program
  have program : seat.program = .call request next := program
  obtain ⟨world, parcel, ran, content, relayed, standing⟩ :=
    call_ask (seated.linked.sends .left) (seated.linked.recvs .left) proper effect
  refine ⟨{ seat with system := seat.system.moved .left world, program := next 0 }, _,
    by simp only [Seat.hostStep, program, running, Seat.host, ran]; rfl,
    seated.host_turn relayed (List.nil_append _).symm (by rw [standing]; exact active) ?_, ?_⟩
  · rw [standing, toDevice, toHost, messages_message [] content, messages_nil, waits]
    exact .asked leads asks (Function.update_self ..) count
  · rw [queues.work_moved, queues.work_eq .left,
      show parcelWork [parcel] = parcel.content.work from rfl, content]
    exact Nat.le_refl _

theorem Seated.resumes {met : τ .left → Bool} {leave : τ .left → τ .left}
    {resume : Bool → τ .left → Program (τ .left) α}
    (program : seat.program = .wait met leave resume) (ends : met seat.host.app = true)
    (same : direct = seat.station.resumed leave resume seat.host.app)
    (toDevice : messages (queues .right) = []) (toHost : messages (queues .left) = []) :
    ∃ next, seat.hostStep cbs = .ok next ∧
      Seated (cbs .left) next queues registry direct steps (2 * steps) := by
  have running := seated.running
  refine ⟨{ seat with
      system := seat.system.moved .left { seat.host with app := leave seat.host.app }
      program := resume false seat.host.app },
    by simp only [Seat.hostStep, program, ends, true_or, if_true, Seat.withHost_eq, running],
    seated.silent_turn rfl rfl (seated.active .left) ?_⟩
  rw [toDevice, toHost]
  rw [same]
  exact .posted (.here _) (Nat.zero_add _).symm

theorem Seated.advance
    (free : ∀ posts lead left, Leads direct posts lead seat.station → steps = lead + left →
      seat.station.Done ∨ 0 < left ∧ ∃ device after station, Acts cbs device seat.station
        after station)
    (ready : seat.station.ready = true) :
    ∃ next later fewer, seat.hostStep cbs = .ok next ∧
      Seated (cbs .left) next later registry direct steps fewer ∧
      5 * fewer + later.work < 5 * todo + queues.work := by
  rcases seated.transit.of_ready ready with
    ⟨posts, lead, left, leads, count, rfl, toDevice, toHost⟩ |
    ⟨met, leave, resume, program, ends, same, rfl, toDevice, toHost⟩
  · rcases free posts lead left leads count with ⟨value, done⟩ |
      ⟨some, device, after, station, acts⟩
    · have done : seat.program = .done value := done
      simp [Station.ready, Seat.station, done] at ready
    · obtain ⟨fewer, rfl⟩ := Nat.exists_eq_add_of_lt some
      rw [Nat.zero_add] at count
      have moved {post : Option Post} {after : Station (τ .left) α}
          (moves : seat.station.Moves post after) := by
        exact seated.moves moves leads count toDevice toHost
      cases acts with
      | silent moves =>
          obtain ⟨next, later, stepped, still, bound⟩ := moved moves
          exact ⟨next, later, _, stepped, still, by omega⟩
      | post moves =>
          obtain ⟨next, later, stepped, still, bound⟩ := moved moves
          exact ⟨next, later, _, stepped, still, by omega⟩
      | ask asks =>
          obtain ⟨next, later, stepped, still, bound⟩ :=
            seated.asks asks leads count toDevice toHost
          exact ⟨next, later, _, stepped, still, by omega⟩
  · obtain ⟨next, stepped, still⟩ := seated.resumes program ends same toDevice toHost
    exact ⟨next, queues, _, stepped, still, by omega⟩

section

variable {device : τ .right} {parcel : Parcel} {rest : List Parcel}

theorem Seated.device_turn (served : τ .right × Registry) {after : World (τ .right)}
    {popped pushed : List Parcel} {left : Nat} {other : Station (τ .left) α} {fewer : Nat}
    (read : warppipeClientRead (cbs .right) { seat.system .right with app := device } = .ok after)
    (relayed : Relayed { seat.system .right with app := device } after popped pushed)
    (taken : queues .right = popped ++ rest)
    (standing : after.standing =
      { (seat.system .right).standing with app := served.1, registry := served.2 })
    (transit : Transit (cbs .left) other fewer seat.host.client.completionCb seat.station left
      (messages rest) (messages (queues .left) ++ messages pushed)) :
    ∃ next, seat.deviceStep cbs device = .ok (served.1, next) ∧ next.station = seat.station ∧
      Seated (cbs .left) next (queues.moved .right rest pushed) served.2 other fewer left := by
  have peer : seat.system.moved .right after .left =
      (seat.system .left).arrive (transferred (seat.system .right) after) :=
    moved_peer seat.system .right after
  have own : seat.system.moved .right after .right = after := moved_self seat.system .right after
  have relay : Relayed (seat.system .right) after popped pushed :=
    ⟨relayed.transferred, relayed.incoming, relayed.recvs, relayed.sends⟩
  refine ⟨{ seat with system := seat.system.moved .right after }, ?_, ?_,
    seated.linked.relay relay taken, seated.running, fun side => ?_, ?_, ?_⟩
  · have app : after.app = served.1 := congrArg Standing.app standing
    rw [Seat.deviceStep, if_pos (seated.active .right), read, ← app]
    rfl
  · simp only [Seat.station, Seat.host, peer]
    rfl
  · cases side with
    | left =>
        simp only [peer]
        exact seated.active .left
    | right =>
        simp only [own]
        exact (congrArg Standing.active standing).trans (seated.active .right)
  · simp only [own]
    exact congrArg Standing.registry standing
  · rw [Queues.moved_self, show queues.moved .right rest pushed .left = _ from
      queues.moved_peer .right rest pushed, messages_append]
    simp only [Seat.station, Seat.host, peer]
    exact transit

theorem Seated.device_unchanged {after : World (τ .right)}
    (standing : after.standing = ({ seat.system .right with app := device } : World _).standing) :
    after.standing =
      { (seat.system .right).standing with app := device, registry := registry } := by
  rw [standing, ← seated.registry]
  rfl

theorem Seated.device_idle (empty : queues .right = []) :
    ∃ next, seat.deviceStep cbs device = .ok (device, next) ∧ next.station = seat.station ∧
      Seated (cbs .left) next queues registry direct steps todo := by
  have stream := seated.linked.incoming .right
  have transit := seated.transit
  rw [empty] at stream transit
  have sends : ({ seat.system .right with app := device } : World (τ .right)).sock.SendsAll :=
    seated.linked.sends .right
  obtain ⟨after, read, relayed, standing⟩ :=
    empty_relays sends (seated.linked.recvs .right) (cbs .right) stream
  have turned := seated.device_turn (device, registry) read relayed empty
    (seated.device_unchanged standing) (by
      rw [messages_nil, List.append_nil]
      exact transit)
  have idle := queues.moved_idle .right
  rw [empty] at idle
  rwa [idle] at turned

section

variable (waiting : queues .right = parcel :: rest)

include waiting

theorem Seated.device_ack (content : parcel.content = .ack) :
    ∃ next, seat.deviceStep cbs device = .ok (device, next) ∧ next.station = seat.station ∧
      Seated (cbs .left) next (queues.moved .right rest []) registry direct steps todo := by
  have transit := seated.transit
  rw [waiting, messages_ack rest content] at transit
  have sends : ({ seat.system .right with app := device } : World (τ .right)).sock.SendsAll :=
    seated.linked.sends .right
  obtain ⟨after, read, relayed, standing⟩ :=
    @ack_relays _ (cbs .right) _ _ _ sends (seated.linked.next waiting) content
  refine seated.device_turn (device, registry) read relayed waiting
    (seated.device_unchanged standing) ?_
  rw [messages_nil, List.append_nil]
  exact transit

theorem Seated.device_post (mild : (cbs .right).Mild) {post : Post} {other : Station (τ .left) α}
    {fewer : Nat} (content : parcel.content = .message post.message)
    (later : Transit (cbs .left) other fewer seat.host.client.completionCb seat.station todo
      (messages rest) (messages (queues .left))) :
    ∃ next, seat.deviceStep cbs device =
        .ok ((serveWrite (cbs .right) (device, registry) post).1, next) ∧
      next.station = seat.station ∧
      Seated (cbs .left) next (queues.moved .right rest [ackParcel parcel.bytes])
        (serveWrite (cbs .right) (device, registry) post).2 other fewer todo := by
  have sends : ({ seat.system .right with app := device } : World (τ .right)).sock.SendsAll :=
    seated.linked.sends .right
  obtain ⟨after, read, relayed, standing⟩ :=
    post_relays mild sends (seated.linked.next waiting) content
  simp only [seated.registry] at standing
  refine seated.device_turn _ read relayed waiting standing ?_
  rw [messages_ack [] rfl, messages_nil, List.append_nil]
  exact later

theorem Seated.device_ask (mild : (cbs .right).Mild) {space : Space} {addr : BitVec 64}
    {length : Nat} {tag : Fin 32} {data : Bytes} {answered : τ .right} {other : Station (τ .left) α}
    {fewer : Nat} (content : parcel.content = .message (.read space addr length tag))
    (answer : serveRead (cbs .right) (device, registry) space addr length = some (data, answered))
    (later : Transit (cbs .left) other fewer seat.host.client.completionCb seat.station todo
      (messages rest) (messages (queues .left) ++ [.completion tag data])) :
    ∃ next reply, seat.deviceStep cbs device = .ok (answered, next) ∧ next.station = seat.station ∧
      reply.content = .message (.completion tag data) ∧
      Seated (cbs .left) next (queues.moved .right rest [ackParcel parcel.bytes, reply]) registry
        other fewer todo := by
  have sends : ({ seat.system .right with app := device } : World (τ .right)).sock.SendsAll :=
    seated.linked.sends .right
  rw [← seated.registry] at answer
  obtain ⟨after, reply, read, relayed, said, standing⟩ :=
    ask_relays mild sends (seated.linked.next waiting) content answer
  have served : after.standing =
      { (seat.system .right).standing with app := answered, registry := registry } := by
    rw [standing, ← seated.registry]
    rfl
  obtain ⟨next, step, station, ends⟩ :=
    seated.device_turn (answered, registry) read relayed waiting served (by
    rw [messages_ack _ rfl, messages_message [] said, messages_nil]
    exact later)
  exact ⟨next, reply, step, station, said, ends⟩

end

end

end

/-- What is left to do: for each host the steps that remain, where it stands, and the packets under
way. -/
structure Prospect (n : Nat) (σ α : Type) where
  todo : Fin n → Nat
  station : Fin n → Station σ α
  queues : Fin n → Queues

/-- A step can send a read, which costs four packets in all. -/
def Station.load (station : Station σ α) (todo : Nat) : Nat := if station.ended then 0 else 5 * todo

def Prospect.work (prospect : Prospect n σ α) : Nat :=
  ∑ i, ((prospect.station i).load (prospect.todo i) + (prospect.queues i).work)

def Prospect.waits (prospect : Prospect n σ α) : Fin n × Side → Prop
  | (i, .left) => (prospect.station i).ready = true ∨ prospect.queues i .left ≠ []
  | (i, .right) => prospect.queues i .right ≠ []

def Prospect.moved (prospect : Prospect n σ α) (i : Fin n) (todo : Nat) (station : Station σ α)
    (queues : Queues) :
    Prospect n σ α where
  todo := Function.update prospect.todo i todo
  station := Function.update prospect.station i station
  queues := Function.update prospect.queues i queues

theorem Prospect.work_moved {prospect : Prospect n σ α} {i : Fin n} {todo : Nat}
    {station : Station σ α} {queues : Queues}
    (less : station.load todo + queues.work < (prospect.station i).load (prospect.todo i) +
      (prospect.queues i).work) :
    (prospect.moved i todo station queues).work < prospect.work := by
  refine Finset.sum_lt_sum (fun j _ => ?_) ⟨i, Finset.mem_univ i, ?_⟩
  · by_cases same : j = i
    · subst same
      simp only [moved, Function.update_self]
      exact Nat.le_of_lt less
    · simp only [moved, Function.update_of_ne same]
      exact Nat.le_refl _
  · simpa only [moved, Function.update_self] using less

theorem Prospect.moved_same (prospect : Prospect n σ α) (i : Fin n) :
    prospect.moved i (prospect.todo i) (prospect.station i) (prospect.queues i) = prospect := by
  simp only [moved, Function.update_eq_self]

theorem Station.load_le (station : Station σ α) (todo : Nat) : station.load todo ≤ 5 * todo := by
  simp only [load]
  split <;> omega

theorem Station.load_ready {station : Station σ α} (ready : station.ready = true) (todo : Nat) :
    station.load todo = 5 * todo := by
  have going : station.ended = false := by
    cases same : station.program <;> simp_all [Station.ready, Station.ended]
  rw [load, going]
  rfl

theorem Station.load_congr {before after : Station σ α} (same : after.program = before.program)
    (todo : Nat) :
    after.load todo = before.load todo := by
  rw [load, load, ended, ended, same]

structure OnCourse (cbs : Fin n → (side : Side) → Callbacks (τ side))
    (holds : Bench n τ α → (Fin n → Nat) → Prop) (hub : Hub n τ α)
    (prospect : Prospect n (τ .left) α) : Prop where
  stands : ∀ i, prospect.station i = (hub.seat i).station
  direct : ∃ bench steps, holds bench steps ∧ bench.device = hub.device ∧
    ∀ i, Seated (cbs i .left) (hub.seat i) (prospect.queues i) (bench.registry i)
      (bench.station i) (steps i) (prospect.todo i)

section

variable {cbs : Fin n → (side : Side) → Callbacks (τ side)}
  {holds : Bench n τ α → (Fin n → Nat) → Prop} {hub : Hub n τ α} {prospect : Prospect n (τ .left) α}
  {i : Fin n}

theorem OnCourse.moved {bench : Bench n τ α} {steps : Fin n → Nat}
    (stands : ∀ j, prospect.station j = (hub.seat j).station)
    (seated : ∀ j, Seated (cbs j .left) (hub.seat j) (prospect.queues j) (bench.registry j)
      (bench.station j) (steps j)
      (prospect.todo j))
    {device : τ .right × Registry} {seat : Seat τ α} {station : Station (τ .left) α}
    {fewer todo : Nat} {queues : Queues}
    (held : holds (bench.acted i device station) (Function.update steps i fewer))
    (own : Seated (cbs i .left) seat queues device.2 station fewer todo) :
    OnCourse cbs holds (hub.withSeat i device.1 seat)
      (prospect.moved i todo seat.station queues) := by
  refine ⟨fun j => ?_, bench.acted i device station, _, held, rfl, fun j => ?_⟩
  · by_cases same : j = i
    · subst same
      simp only [Prospect.moved, Hub.withSeat, Function.update_self]
    · simp only [Prospect.moved, Hub.withSeat, Function.update_of_ne same]
      exact stands j
  · by_cases same : j = i
    · subst same
      simpa only [Prospect.moved, Hub.withSeat, Bench.acted, Function.update_self] using own
    · simpa only [Prospect.moved, Hub.withSeat, Bench.acted, Function.update_of_ne same]
        using seated j

theorem OnCourse.hostStep (unstuck : Unstuck cbs holds)
    (quiet : ∀ i cb app code data length,
      ((cbs i .left).completion cb app code data length).calls = [])
    (course : OnCourse cbs holds hub prospect) (i : Fin n) :
    ∃ next later, hubStep cbs hub (i, .left) = .ok next ∧ OnCourse cbs holds next later ∧
      (prospect.waits (i, .left) → later.work < prospect.work) ∧
      (¬prospect.waits (i, .left) → later = prospect) := by
  obtain ⟨bench, steps, held, device, seated⟩ := course.direct
  have own := seated i
  have still : holds (bench.acted i (bench.served i) (bench.station i))
      (Function.update steps i (steps i)) := by
    rwa [acted_same, Function.update_eq_self]
  have stepped {seat : Seat τ α} (step : (hub.seat i).hostStep (cbs i) = .ok seat) :
      hubStep cbs hub (i, .left) = .ok (hub.withSeat i (bench.served i).1 seat) := by
    rw [hubStep, step, ← device]
    rfl
  cases ready : (hub.seat i).station.ready with
  | true =>
      obtain ⟨seat, queues, todo, step, ends, less⟩ := own.advance
        (fun posts lead left leads count => unstuck.next held leads count) ready
      refine ⟨_, _, stepped step, OnCourse.moved course.stands seated still ends,
        fun _ => Prospect.work_moved ?_, fun idle => ?_⟩
      · have most := seat.station.load_le todo
        rw [course.stands i, Station.load_ready ready]
        omega
      · exact absurd (.inl (by rw [course.stands i, ready])) idle
  | false =>
      obtain ⟨seat, queues, step, program, ends, less, same⟩ := own.loop (quiet i)
      refine ⟨_, _, stepped ((own.hostStep_blocked ready).trans step),
        OnCourse.moved course.stands seated still ends,
        fun busy => Prospect.work_moved ?_, fun idle => ?_⟩
      · have fewer := less (busy.resolve_left (by rw [course.stands i, ready]; decide))
        rw [course.stands i, show seat.station.load _ =
          (hub.seat i).station.load _ from Station.load_congr program _]
        omega
      · obtain ⟨rfl, alike⟩ := same (not_not.mp fun busy => idle (.inr busy))
        rw [alike, ← course.stands i, Prospect.moved_same]

theorem OnCourse.served {bench : Bench n τ α} {steps : Fin n → Nat}
    (stands : ∀ j, prospect.station j = (hub.seat j).station)
    (seated : ∀ j, Seated (cbs j .left) (hub.seat j) (prospect.queues j) (bench.registry j)
      (bench.station j) (steps j) (prospect.todo j))
    {device : τ .right × Registry} {seat : Seat τ α} {station : Station (τ .left) α} {fewer : Nat}
    {queues : Queues}
    (held : holds (bench.acted i device station) (Function.update steps i fewer))
    (step : (hub.seat i).deviceStep (cbs i) hub.device = .ok (device.1, seat))
    (same : seat.station = (hub.seat i).station)
    (own : Seated (cbs i .left) seat queues device.2 station fewer (prospect.todo i)) :
    ∃ next, hubStep cbs hub (i, .right) = .ok next ∧ OnCourse cbs holds next
      (prospect.moved i (prospect.todo i) (prospect.station i) queues) := by
  have course := OnCourse.moved stands seated held own
  rw [same, ← stands i] at course
  refine ⟨_, ?_, course⟩
  rw [hubStep, step]
  rfl

theorem Prospect.work_served {rest pushed : List Parcel} {parcel : Parcel}
    (waiting : prospect.queues i .right = parcel :: rest)
    (less : parcelWork pushed < parcel.content.work) :
    (prospect.moved i (prospect.todo i) (prospect.station i)
      ((prospect.queues i).moved .right rest pushed)).work < prospect.work := by
  have popped := work_pop waiting less
  exact Prospect.work_moved (by omega)

theorem OnCourse.deviceStep (unstuck : Unstuck cbs holds) (mild : ∀ i, (cbs i .right).Mild)
    (course : OnCourse cbs holds hub prospect) (i : Fin n) :
    ∃ next later, hubStep cbs hub (i, .right) = .ok next ∧ OnCourse cbs holds next later ∧
      (prospect.waits (i, .right) → later.work < prospect.work) ∧
      (¬prospect.waits (i, .right) → later = prospect) := by
  obtain ⟨bench, steps, held, device, seated⟩ := course.direct
  have own := seated i
  have still : holds (bench.acted i (bench.served i) (bench.station i))
      (Function.update steps i (steps i)) := by
    rwa [acted_same, Function.update_eq_self]
  rw [Bench.served, device] at still
  cases waiting : prospect.queues i .right with
  | nil =>
      obtain ⟨seat, step, same, ends⟩ := own.device_idle waiting
      obtain ⟨next, stepped, later⟩ := OnCourse.served course.stands seated still step same ends
      exact ⟨next, _, stepped, later, fun busy => absurd waiting busy,
        fun _ => Prospect.moved_same prospect i⟩
  | cons parcel rest =>
      have busy {later : Prospect n (τ .left) α} (idle : ¬prospect.waits (i, .right)) :
          later = prospect :=
        absurd (show prospect.waits (i, .right) from fun empty =>
          by cases waiting.symm.trans empty) idle
      have transit := own.transit
      cases content : parcel.content with
      | ack =>
          obtain ⟨seat, step, same, ends⟩ := own.device_ack waiting content
          obtain ⟨next, stepped, later⟩ := OnCourse.served course.stands seated still step same ends
          refine ⟨next, _, stepped, later, fun _ => Prospect.work_served waiting ?_, busy⟩
          rw [content]
          decide
      | message message =>
          rw [waiting, messages_message rest content] at transit
          rcases transit.serve with ⟨post, posts, lead, last, rfl, leads, later⟩ |
            ⟨space, addr, length, tag, cb, met, leave, resume, asker, lead, left, rfl,
              leads, asks, slot, actual, count, todo, toDevice, toHost⟩
          · obtain ⟨station, before, after, left, ahead, split, more, kept⟩ :=
              unstuck.serve_post held leads
            rw [Bench.served, device] at kept
            obtain ⟨seat, step, same, ends⟩ := own.device_post waiting (mild i) content
              (later station before after left ahead split more)
            obtain ⟨next, stepped, later⟩ :=
              OnCourse.served course.stands seated kept step same ends
            refine ⟨next, _, stepped, later, fun _ => Prospect.work_served waiting ?_, busy⟩
            rw [content]
            exact Nat.one_lt_two
          · obtain ⟨data, answered, fewest, answer, ends, more, kept⟩ :=
              unstuck.serve_ask held leads asks
            rw [Bench.served, device] at answer
            obtain ⟨seat, reply, step, same, said, ends⟩ :=
              own.device_ask waiting (mild i) content answer (by
              rw [toDevice, toHost, actual, todo, show left = fewest by omega]
              exact .answered asks slot ends rfl)
            obtain ⟨next, stepped, later⟩ :=
              OnCourse.served course.stands seated kept step same ends
            refine ⟨next, _, stepped, later, fun _ => Prospect.work_served waiting ?_, busy⟩
            rw [content]
            simp [parcelWork, said, ackParcel, Content.work]

section

variable (unstuck : Unstuck cbs holds)
  (quiet : ∀ i cb app code data length,
    ((cbs i .left).completion cb app code data length).calls = []) (mild : ∀ i, (cbs i .right).Mild)

include unstuck quiet mild

theorem OnCourse.step (hub : Hub n τ α) (prospect : Prospect n (τ .left) α) (mover : Fin n × Side)
    (course : OnCourse cbs holds hub prospect) :
    ∃ next later, hubStep cbs hub mover = .ok next ∧ OnCourse cbs holds next later ∧
      (prospect.waits mover → later.work < prospect.work) ∧
      (¬prospect.waits mover → later = prospect) := by
  obtain ⟨i, side⟩ := mover
  cases side with
  | left => exact course.hostStep unstuck quiet i
  | right => exact course.deviceStep unstuck mild i

theorem OnCourse.runs (course : OnCourse cbs holds hub prospect) (schedule : List (Fin n × Side)) :
    ∃ last later, Runs.run (hubStep cbs) hub schedule = .ok last ∧
      OnCourse cbs holds last later := by
  obtain ⟨last, later, ran, still, -⟩ := Runs.run_round
    (OnCourse.step unstuck quiet mild) course schedule
  exact ⟨last, later, ran, still⟩

end

theorem Transit.rests {cbs : Callbacks σ} {direct actual : Station σ α} {steps todo : Nat}
    {slots : Fin 32 → Option FnPtr} {toDevice toHost : List Message}
    (transit : Transit cbs direct steps slots actual todo toDevice toHost)
    (blocked : actual.ready = false) (served : toDevice = []) (heard : toHost = []) :
    ∃ lead left, Leads direct [] lead actual ∧ steps = lead + left := by
  cases transit with
  | @posted _ posts lead left leads count =>
      cases List.map_eq_nil_iff.mp served
      exact ⟨lead, left, leads, count⟩
  | asked => simp at served
  | answered => cases heard
  | finished ends => cases blocked.symm.trans ends

theorem Seated.rests {cbs : Callbacks (τ .left)} {seat : Seat τ α} {queues : Queues}
    {registry : Registry} {direct : Station (τ .left) α} {steps todo : Nat}
    (seated : Seated cbs seat queues registry direct steps todo)
    (blocked : seat.station.ready = false) (drained : ∀ side, queues side = []) :
    ∃ lead left, Leads direct [] lead seat.station ∧ steps = lead + left := by
  refine seated.transit.rests blocked ?_ ?_
  · rw [drained, messages_nil]
  · rw [drained, messages_nil]

theorem OnCourse.rests (unstuck : Unstuck cbs holds) (course : OnCourse cbs holds hub prospect)
    (idle : ∀ mover, ¬prospect.waits mover) (i : Fin n) :
    (hub.seat i).station.Done ∧ ∀ side, prospect.queues i side = [] := by
  obtain ⟨bench, steps, held, -, seated⟩ := course.direct
  have drained : ∀ side, prospect.queues i side = [] := by
    intro side
    cases side with
    | left => exact not_not.mp fun busy => idle (i, .left) (.inr busy)
    | right => exact not_not.mp (idle (i, .right))
  have blocked : (hub.seat i).station.ready = false := by
    rw [← course.stands i]
    exact Bool.eq_false_iff.mpr fun ready => idle (i, .left) (.inl ready)
  obtain ⟨lead, left, leads, count⟩ := (seated i).rests blocked drained
  refine ⟨(unstuck.next held leads count).resolve_right ?_, drained⟩
  rintro ⟨-, device, after, station, acts⟩
  rw [acts.ready] at blocked
  cases blocked

theorem OnCourse.work_zero (unstuck : Unstuck cbs holds) (course : OnCourse cbs holds hub prospect)
    (idle : ∀ mover, ¬prospect.waits mover) : prospect.work = 0 := by
  refine Finset.sum_eq_zero fun i _ => ?_
  obtain ⟨⟨value, done⟩, drained⟩ := course.rests unstuck idle i
  have ended : (prospect.station i).ended = true := by
    rw [course.stands i, Station.ended, done]
  rw [Station.load, ended, Queues.work, drained, drained]
  rfl

theorem Unstuck.catch_up (unstuck : Unstuck cbs holds) {bench : Bench n τ α} {steps : Fin n → Nat}
    (held : holds bench steps) (actual : Fin n → Station (τ .left) α)
    (leads : ∀ i, ∃ lead, Leads (bench.station i) [] lead (actual i)) :
    ∃ steps, holds { bench with station := actual } steps := by
  have visited (l : List (Fin n)) : ∃ steps, holds { bench with
      station := fun i => if i ∈ l then actual i else bench.station i } steps := by
    induction l with
    | nil => exact ⟨steps, by simpa using held⟩
    | cons i rest ih =>
        obtain ⟨fewer, kept⟩ := ih
        by_cases seen : i ∈ rest
        · refine ⟨fewer, ?_⟩
          have same (j : Fin n) : (j ∈ i :: rest) ↔ j ∈ rest :=
            ⟨fun member => (List.mem_cons.mp member).elim (fun equal => equal ▸ seen) id,
              List.mem_cons_of_mem _⟩
          simpa only [same] using kept
        · obtain ⟨lead, silent⟩ := leads i
          obtain ⟨device, left, -, unchanged, next⟩ := unstuck.leads kept
            (show Leads (if i ∈ rest then actual i else bench.station i) [] lead (actual i) by
              simpa only [if_neg seen] using silent)
          obtain rfl := unchanged rfl
          refine ⟨_, cast (congrArg (fun bench => holds bench _) ?_) next⟩
          simp only [Bench.acted, Bench.served, Function.update_eq_self, Bench.mk.injEq, true_and]
          funext j
          by_cases same : j = i
          · subst same
            simp
          · simp [same]
  obtain ⟨fewer, kept⟩ := visited (List.finRange n)
  exact ⟨fewer, by simpa only [List.mem_finRange, if_true] using kept⟩

structure Seat.Idle (seat : Seat τ α) : Prop where
  linked : Linked seat.system fun _ => []
  running : seat.quit = false
  active : ∀ side, (seat.system side).client.active = true

def Hub.bench (hub : Hub n τ α) : Bench n τ α where
  device := hub.device
  registry := fun i => ((hub.seat i).system .right).client.registry
  station := fun i => (hub.seat i).station

def Hub.outset (hub : Hub n τ α) (steps : Fin n → Nat) : Prospect n (τ .left) α where
  todo := fun i => 2 * steps i
  station := hub.bench.station
  queues := fun _ _ => []

theorem OnCourse.start (idle : ∀ i, (hub.seat i).Idle) {steps : Fin n → Nat}
    (held : holds hub.bench steps) :
    OnCourse cbs holds hub (hub.outset steps) := by
  refine ⟨fun i => rfl, hub.bench, steps, held, rfl, fun i =>
    ⟨(idle i).linked, (idle i).running, (idle i).active, rfl, ?_⟩⟩
  exact .posted (.here _) (Nat.zero_add _).symm

theorem Hub.outset_work (hub : Hub n τ α) (steps : Fin n → Nat) :
    (hub.outset steps).work ≤ 10 * ∑ i, steps i := by
  rw [Prospect.work, Finset.mul_sum]
  refine Finset.sum_le_sum fun i _ => ?_
  have most := (hub.bench.station i).load_le (2 * steps i)
  have none : Queues.work (fun _ => []) = 0 := rfl
  simp only [outset, none]
  omega

/-- How the host of a running hub stands to its place on the bench: it has run ahead of the writes
that it posted, or it waits for a read. -/
inductive Station.Trails (direct : Station σ α) : Station σ α → Prop where
  | ahead {actual : Station σ α} {posts : List Post} {lead : Nat}
      (leads : Leads direct posts lead actual) :
      Trails direct actual
  | waiting {actual : Station σ α} {met : σ → Bool} {leave : σ → σ}
      {resume : Bool → σ → Program σ α} (program : actual.program = .wait met leave resume) :
      Trails direct actual

theorem Transit.trails {cbs : Callbacks σ} {direct actual : Station σ α} {steps todo : Nat}
    {slots : Fin 32 → Option FnPtr} {toDevice toHost : List Message}
    (transit : Transit cbs direct steps slots actual todo toDevice toHost) :
    direct.Trails actual := by
  cases transit with
  | posted leads => exact .ahead leads
  | asked => exact .waiting rfl
  | answered => exact .waiting rfl
  | finished => exact .waiting rfl

section

variable (unstuck : Unstuck cbs holds)
  (quiet : ∀ i cb app code data length,
    ((cbs i .left).completion cb app code data length).calls = []) (mild : ∀ i, (cbs i .right).Mild)
  (idle : ∀ i, (hub.seat i).Idle) {steps : Fin n → Nat} (held : holds hub.bench steps)

include unstuck quiet mild idle held

/-- Whatever turns the hosts and the device take, no step fails, the device is where direct access
could have brought it, and each host is at most ahead of the writes that it posted. -/
theorem hub_consistent (schedule : List (Fin n × Side)) :
    ∃ last bench fewer, Runs.run (hubStep cbs) hub schedule = .ok last ∧ holds bench fewer ∧
      bench.device = last.device ∧ ∀ i, (bench.station i).Trails (last.seat i).station := by
  obtain ⟨last, later, ran, course⟩ :=
    OnCourse.runs unstuck quiet mild (OnCourse.start idle held) schedule
  obtain ⟨bench, fewer, kept, device, seated⟩ := course.direct
  exact ⟨last, bench, fewer, ran, kept, device, fun i => (seated i).transit.trails⟩

/-- Once every host and the device had enough turns at every connection, all programs have returned,
nothing is under way, and the hub is as direct access leaves it. -/
theorem hub_returns {rounds : List (List (Fin n × Side))}
    (fair : ∀ round ∈ rounds, ∀ mover, mover ∈ round) (enough : 10 * ∑ i, steps i ≤ rounds.length) :
    ∃ last fewer, Runs.run (hubStep cbs) hub rounds.flatten = .ok last ∧ holds last.bench fewer ∧
      ∀ i, (last.seat i).Idle ∧ (last.seat i).station.Done := by
  have work := hub.outset_work steps
  obtain ⟨last, later, ran, course, rest⟩ := Runs.run_rounds (OnCourse.step unstuck quiet mild)
    (fun _ _ => OnCourse.work_zero unstuck) (OnCourse.start idle held) fair (by omega)
  obtain ⟨bench, left, kept, device, seated⟩ := course.direct
  have rests := course.rests unstuck rest
  obtain ⟨fewer, ends⟩ := unstuck.catch_up kept (fun i => (last.seat i).station) fun i => by
    obtain ⟨lead, left, leads, -⟩ := (seated i).rests (by
      rw [← course.stands i]
      exact Bool.eq_false_iff.mpr fun ready => rest (i, .left) (.inl ready)) (rests i).2
    exact ⟨lead, leads⟩
  refine ⟨last, fewer, ran, ?_, fun i => ⟨⟨?_, (seated i).running, (seated i).active⟩, (rests i).1⟩⟩
  · have registry : bench.registry = fun i => ((last.seat i).system .right).client.registry :=
      funext fun i => (seated i).registry.symm
    rw [registry, device] at ends
    exact ends
  · have linked := (seated i).linked
    rwa [show later.queues i = fun _ => [] from funext (rests i).2] at linked

end

end

end WarpPipe
