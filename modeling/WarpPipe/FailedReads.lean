import WarpPipe.ReadRuns
import WarpPipe.Slots

/-!
Reads that the peer fails. It answers them with a completion without data, which `handle_tlp`
passes over: the callback never hears of it and its slot stays taken.
-/

namespace WarpPipe

open ByteLayout SlotTable

variable {σ τ : Type}

/-- The callback of the read was invoked once, with an error if there was one, and its slot is
free. -/
structure Reported (before after : World σ) (tag : Fin 32) (cb : FnPtr) (error : Int) : Prop where
  invoked : ∃ code data length, invocations before after = [.completion tag cb code data length] ∧
    (error ≠ 0 → code ≠ 0)
  freed : after.client.completionCb tag = none

theorem clientRead_failure (cbs : Callbacks σ) {world : World σ} {packet rest : Bytes}
    {later : List RecvStep} {tag : Fin 32} (carries : Carries packet (.failure tag))
    (next : Next world.sock packet rest later) :
    warppipeClientRead cbs world = .ok (world.acked packet rest later) := by
  obtain ⟨pkt, -, read⟩ := clientRead_serve cbs (carries.arrives next) carries
  exact read

theorem answer_reported_iff {cbs : Callbacks σ} {world final : World σ} {packet rest : Bytes}
    {later : List RecvStep} {tag : Fin 32} {cb : FnPtr} {error : Int} {data : Bytes}
    (stored : world.client.completionCb tag = some cb)
    (carries : Carries packet (answerOf tag error data)) (next : Next world.sock packet rest later)
    (ok : warppipeClientRead cbs world = .ok final) :
    Reported world final tag cb error ↔ error = 0 := by
  constructor
  · intro reported
    by_contra failed
    rw [answerOf, if_neg failed] at carries
    rw [clientRead_failure cbs carries next] at ok
    cases ok
    have freed := reported.freed
    rw [(issues_acked world packet rest later).slots] at freed
    exact Option.some_ne_none cb (stored.symm.trans freed)
  · rintro rfl
    rw [answerOf, if_pos rfl] at carries
    obtain ⟨middle, reads, -, -, -, slots, -, -, -, invoked, -⟩ := completion_issues carries next ok
    rw [stored] at invoked
    refine ⟨⟨0, data, data.length, invoked, fun nonzero => absurd rfl nonzero⟩, ?_⟩
    rw [slots, Function.update_self]

/-- A read request with the given tag comes next, and the callback it reaches returns `error`. A
read of 4096 bytes is left out where it succeeds: its byte count is 0. -/
inductive Asks (peer : Callbacks τ) (completer : World τ) (tag : Fin 32) : Int → Prop where
  | read {request rest : Bytes} {later : List RecvStep} {space : Space} {addr target : BitVec 64}
      {length : Nat} {cb : FnPtr} (carries : Carries request (.read space addr length tag))
      (next : Next completer.sock request rest later)
      (route : completer.client.readRoute space (addr &&& ~~~3) = (some cb, target))
      (short : (peer.read cb completer.app (target + misalignment addr) length).error = 0 →
        length ≤ 4095) :
      Asks peer completer tag (peer.read cb completer.app (target + misalignment addr) length).error

theorem Asks.answered {peer : Callbacks τ} (valid : peer.Valid) {completer : World τ} {tag : Fin 32}
    {error : Int} (sends : completer.sock.SendsAll) (asks : Asks peer completer tag error) :
    ∃ final answer data, warppipeClientRead peer completer = .ok final ∧
      (sentPackets completer final).getLast? = some answer ∧
      Carries answer (answerOf tag error data) := by
  cases asks with
  | read carries next route short =>
      obtain ⟨final, nested, answer, read, -, -, -, sent, answers, -⟩ :=
        read_served valid sends carries next route short
      refine ⟨final, answer, _, read, ?_, answers⟩
      rw [sent, ← List.cons_append, List.getLast?_append]
      rfl

def occupiedSlots (client : Client) : List (Fin 32) :=
  (List.finRange 32).filter fun tag => (client.completionCb tag).isSome

theorem mem_occupiedSlots {client : Client} {tag : Fin 32} :
    tag ∈ occupiedSlots client ↔ client.completionCb tag ≠ none := by
  simp [occupiedSlots, Option.isSome_iff_ne_none]

structure Freed (state : Requester σ) : Prop where
  waiting : Waiting state.world
  counted : state.answered ≤ (issuedReads state.world.log).length
  slots : ∀ tag, state.world.client.completionCb tag ≠ none → tag ∈ state.outstanding.map Prod.fst

theorem Freed.stored {before : Requester σ} {world : World σ} {reads : List (Fin 32 × Option FnPtr)}
    (freed : Freed before) (issues : Issues before.world world reads) (tag : Fin 32)
    (taken : world.client.completionCb tag ≠ none) :
    tag ∈ (before.outstanding ++ reads).map Prod.fst := by
  rw [List.map_append, List.mem_append]
  by_cases new : tag ∈ reads.map Prod.fst
  · exact Or.inr new
  · rw [issues.slots, storeAll_of_notMem new] at taken
    exact Or.inl (freed.slots tag taken)

theorem Freed.step {cbs : Callbacks σ} {state next : Requester σ} {move : ReadMove}
    (freed : Freed state) (succeeds : Succeeds state move)
    (ok : requesterStep cbs state move = .ok next) : Freed next := by
  obtain ⟨waiting, reads, advance⟩ := succeeds.advance freed.waiting ok
  have counted := advance.counted freed.counted
  have outstanding := advance.outstanding freed.counted
  refine ⟨waiting, ?_, ?_⟩
  · rw [advance.log, List.length_append]
    omega
  · intro tag taken
    cases advance with
    | issued same issues =>
        rw [outstanding, same, Nat.sub_self]
        exact freed.stored issues tag taken
    | completed own cb rest middle head more issues slots =>
        rw [slots] at taken
        by_cases cleared : tag = own
        · rw [cleared, Function.update_self] at taken
          exact absurd rfl taken
        · rw [Function.update_of_ne cleared] at taken
          have member := freed.stored issues tag taken
          rw [head, List.cons_append, List.map_cons, List.mem_cons] at member
          rw [outstanding, more, Nat.add_sub_cancel_left, head]
          exact member.resolve_left cleared

/-- A read is reported to its callback exactly if it succeeds. In every run in which no read fails,
only reads without an answer occupy slots. -/
theorem failures_reported_iff {peer : Callbacks τ} (valid : peer.Valid) (cbs : Callbacks σ) :
    (∀ (completer : World τ) (requester : World σ) (tag : Fin 32) (cb : FnPtr) (error : Int),
      completer.sock.SendsAll → Asks peer completer tag error →
      requester.client.completionCb tag = some cb →
      ∃ answered answer, warppipeClientRead peer completer = .ok answered ∧
        (sentPackets completer answered).getLast? = some answer ∧
        ∀ rest later final, Next requester.sock answer rest later →
          warppipeClientRead cbs requester = .ok final →
          (Reported requester final tag cb error ↔ error = 0)) ∧
    ∀ (world : World σ) (moves : List ReadMove) (final : Requester σ), Waiting world →
      world.log = [] → (∀ tag, world.client.completionCb tag = none) →
      Runs.Along (requesterStep cbs) Succeeds ⟨world, 0⟩ moves →
      Runs.run (requesterStep cbs) ⟨world, 0⟩ moves = .ok final →
      ∀ tag ∈ occupiedSlots final.world.client, tag ∈ final.outstanding.map Prod.fst := by
  refine ⟨fun completer requester tag cb error sends asks stored => ?_,
    fun world moves final waiting log empty along ok tag occupied => ?_⟩
  · obtain ⟨answered, answer, data, read, sent, carries⟩ := asks.answered valid sends
    exact ⟨answered, answer, read, sent, fun rest later final next done =>
      answer_reported_iff stored carries next done⟩
  · have start : Freed ⟨world, 0⟩ :=
      ⟨waiting, Nat.zero_le _, fun tag taken => absurd (empty tag) taken⟩
    have freed :=
      Runs.run_invariant (fun _ _ _ holds allowed stepped => Freed.step holds allowed stepped)
      start along ok
    exact freed.slots tag (mem_occupiedSlots.mp occupied)

def askedCompleter : World Unit :=
  let world := clientWith (sealTlp 1 (readBlock 0 .cr0 0 4))
  { world with client := { world.client with cfg0ReadCb := some 5 } }

def askingRequester : World Unit :=
  let world := clientWith []
  { world with client :=
    { world.client with completionCb := Function.update (fun _ => none) 0 (some 7) } }

theorem answered_read_reported :
    ∃ answered answer, warppipeClientRead silentCallbacks askedCompleter = .ok answered ∧
      (sentPackets askedCompleter answered).getLast? = some answer ∧
      ∀ rest later final, Next askingRequester.sock answer rest later →
        warppipeClientRead silentCallbacks askingRequester = .ok final →
        (Reported askingRequester final 0 7 0 ↔ (0 : Int) = 0) := by
  have carries :=
    carries_read .config0 1 0 (show Encodable 0 4 from ⟨by decide, by decide, by decide⟩)
  have next : Next askedCompleter.sock (sealTlp 1 (readBlock 0 .cr0 0 4)) [] [] :=
    ⟨(List.append_nil _).symm, rfl⟩
  have asks : Asks silentCallbacks askedCompleter 0 0 :=
    .read carries next (show _ = (some 5, 0) from rfl) fun _ => by decide
  exact (failures_reported_iff silent_valid silentCallbacks).1 askedCompleter askingRequester 0 7 0
    (List.forall_mem_nil _) asks rfl

def failedAnswer (tag : Fin 32) : Bytes :=
  sealTlp 1 (completionPacket ((readBlock tag .cr0 0 1).drop Transport.tTlp) 1 [0])

def failedRun (count : Nat) : Outcome (Requester Unit) :=
  Runs.run (requesterStep silentCallbacks) ⟨clientWith [], 0⟩
      ((List.range count).flatMap fun index =>
    [.call (.config0Read 0 1 (some 7)), .answer (failedAnswer (Fin.ofNat 32 index))])

def requesterUse : Outcome (Requester σ) →
    Option (List (Fin 32 × Option FnPtr) × List (Fin 32) × List Event)
  | .ok state => some (state.outstanding, occupiedSlots state.world.client,
      state.world.log.filter Event.isInvocation)
  | .error _ => none

theorem carries_failedAnswer (tag : Fin 32) : Carries (failedAnswer tag) (.failure tag) := by
  have asked : IsRead ((readBlock tag .cr0 0 1).drop Transport.tTlp) Space.config0.readType 0
      ([0] : Bytes).length tag :=
    isRead_readBlock (Or.inr rfl) tag 0 1 (by decide) (by decide) (by decide)
  exact carries_failure 1 asked (by decide) _

/-- Three reads, each answered with a failure: no callback was invoked, and no slot was freed. -/
theorem failures_fill_slots :
    Carries (failedAnswer 0) (answerOf 0 1 [0]) ∧
    requesterUse (failedRun 3) = some ([], [0, 1, 2], []) :=
  ⟨carries_failedAnswer 0, by decide +kernel⟩

end WarpPipe
