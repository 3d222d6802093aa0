import WarpPipe.ReadTags

/-!
Runs of a client whose reads are answered in the order of their requests. Between the answers the
application makes requests, and requests and DLLPs of the peer arrive.
-/

namespace WarpPipe

open ByteLayout SlotTable

variable {σ : Type}

structure Requester (σ : Type) where
  world : World σ
  answered : Nat

inductive ReadMove where
  | call (call : Call)
  | other (packet : Bytes)
  | answer (packet : Bytes)

def ReadMove.action : ReadMove → Action
  | .call request => .call request
  | .other packet | .answer packet => .receive packet

def ReadMove.answers : ReadMove → Nat
  | .call _ | .other _ => 0
  | .answer _ => 1

def requesterStep (cbs : Callbacks σ) (state : Requester σ) (move : ReadMove) :
    Outcome (Requester σ) :=
  (clientStep cbs state.world move.action).map fun world => ⟨world, state.answered + move.answers⟩

def Requester.outstanding (state : Requester σ) : List (Fin 32 × Option FnPtr) :=
  (issuedReads state.world.log).drop state.answered

def Message.isRequest : Message → Bool
  | .read .. | .write .. => true
  | .completion .. | .failure _ => false

def Unrelated (packet : Bytes) : Prop :=
  CompleteDllp packet ∨ ∃ message, Carries packet message ∧ message.isRequest = true

def Succeeds (state : Requester σ) : ReadMove → Prop
  | .call _ => True
  | .other packet => Unrelated packet
  | .answer packet => ∃ tag cb rest data,
      state.outstanding = (tag, cb) :: rest ∧ Carries packet (.completion tag data)

theorem requesterStep_ok {cbs : Callbacks σ} {state next : Requester σ} {move : ReadMove}
    (ok : requesterStep cbs state move = .ok next) :
    clientStep cbs state.world move.action = .ok next.world ∧
      next.answered = state.answered + move.answers := by
  rw [requesterStep] at ok
  cases stepped : clientStep cbs state.world move.action with
  | error fault =>
      rw [stepped] at ok
      cases ok
  | ok world =>
      rw [stepped] at ok
      cases ok
      exact ⟨rfl, rfl⟩

theorem issues_emit (world : World σ) (app : σ) {event : Event} (silent : event.issued? = none) :
    Issues world ({ world with app := app }.emit event) [] := by
  have log : ({ world with app := app }.emit event).log = world.log ++ [event] := rfl
  exact .none log (by simpa using silent) rfl rfl id

theorem issues_acked (world : World σ) (packet rest : Bytes) (later : List RecvStep) :
    Issues world (world.acked packet rest later) [] := by
  have log : (world.received packet rest later).log = world.log ++ [.packet packet] := rfl
  have received : Issues world (world.received packet rest later) [] :=
    .none log (by simp [Event.issued?]) rfl rfl id
  exact received.trans (issues_push _ _)

theorem Issues.of_arrive {world after : World σ} {packet : Bytes}
    {reads : List (Fin 32 × Option FnPtr)} (issues : Issues (world.arrive packet) after reads) :
    Issues world after reads :=
  ⟨issues.log, issues.slots, issues.sends, issues.tags, issues.readTag⟩

theorem Waiting.emit {world : World σ} (waiting : Waiting world) (app : σ) (event : Event) :
    Waiting ({ world with app := app }.emit event) :=
  ⟨waiting.incoming, waiting.recvs⟩

section

variable {cbs : Callbacks σ} {world final : World σ}

theorem invokeWrite_issues {cb : FnPtr} {addr : BitVec 64} {data : Bytes} {length : Int}
    (ok : invokeWrite cbs world cb addr data length = .ok final) :
    (∃ reads, Issues world final reads) ∧
      Undisturbed ({ world with app := (cbs.write cb world.app addr data length).app }.emit
        (.writeCb cb addr data length)) final := by
  obtain ⟨reads, issues, -⟩ := runCalls_issues ok
  exact ⟨⟨_, (issues_emit world _ rfl).trans issues⟩, CallSteps.undisturbed (runCalls_ok ok)⟩

theorem invokeRead_issues {cb : FnPtr} {addr : BitVec 64} {length error : Int} {data : Bytes}
    (ok : invokeRead cbs world cb addr length = .ok (error, data, final)) :
    (∃ reads, Issues world final reads) ∧ ∃ app event,
      Undisturbed ({ world with app := app }.emit event) final := by
  simp only [invokeRead, bind, Except.bind, pure, Except.pure] at ok
  split at ok
  · cases ok
  · rename_i middle ran
    cases ok
    obtain ⟨reads, issues, -⟩ := runCalls_issues ran
    exact ⟨⟨_, (issues_emit world _ rfl).trans issues⟩, _, _,
      CallSteps.undisturbed (runCalls_ok ran)⟩

theorem serve_request_issues {pkt : Bytes} {message : Message} (request : message.isRequest = true)
    (waiting : Waiting world) (ok : serve cbs world pkt message = .ok final) :
    (∃ reads, Issues world final reads) ∧ Waiting final := by
  have unchanged : (∃ reads, Issues world world reads) ∧ Waiting world :=
    ⟨⟨[], .refl world⟩, waiting⟩
  cases message with
  | read space addr length tag =>
      simp only [serve] at ok
      split at ok
      · cases ok
        exact unchanged
      · simp only [bind, Except.bind, pure, Except.pure] at ok
        split at ok
        · cases ok
        · rename_i result invoked
          obtain ⟨error, data, middle⟩ := result
          cases ok
          obtain ⟨⟨reads, issues⟩, app, event, undisturbed⟩ := invokeRead_issues invoked
          have asked := (waiting.emit app event).undisturbed undisturbed
          have after : Waiting (bumpSeqno middle) := ⟨asked.incoming, asked.recvs⟩
          exact ⟨⟨_, issues.trans (issues_sentTlp middle _)⟩,
            after.undisturbed (undisturbed_push _ _)⟩
  | write space addr data =>
      simp only [serve] at ok
      split at ok
      · cases ok
        exact unchanged
      · obtain ⟨issues, undisturbed⟩ := invokeWrite_issues ok
        exact ⟨issues, (waiting.emit _ _).undisturbed undisturbed⟩
  | completion tag data => cases request
  | failure tag => cases request

theorem dllp_issues {packet : Bytes} (waiting : Waiting world) (dllp : CompleteDllp packet)
    (ok : clientStep cbs world (.receive packet) = .ok final) :
    Issues world final [] ∧ Waiting final := by
  obtain ⟨after, notes, read, log, kinds, client, sock, -⟩ :=
    clientRead_ack cbs dllp (waiting.next packet)
  rw [clientStep, read] at ok
  cases ok
  refine ⟨.none log ?_ (by rw [client]; rfl) (by rw [client]; rfl) ?_, by rw [sock], by rw [sock]⟩
  · intro event member
    rcases List.mem_cons.mp member with rfl | note
    · rfl
    · obtain ⟨_, rfl⟩ := kinds event note
      rfl
  · intro sends
    rw [sock]
    exact sends

theorem unrelated_issues {packet : Bytes} (waiting : Waiting world) (unrelated : Unrelated packet)
    (ok : clientStep cbs world (.receive packet) = .ok final) :
    (∃ reads, Issues world final reads) ∧ Waiting final := by
  have next := waiting.next packet
  rcases unrelated with dllp | ⟨message, carries, request⟩
  · obtain ⟨issues, after⟩ := dllp_issues waiting dllp ok
    exact ⟨⟨[], issues⟩, after⟩
  · obtain ⟨pkt, -, read⟩ := clientRead_serve cbs (carries.arrives next) carries
    rw [clientStep, read] at ok
    obtain ⟨⟨reads, issues⟩, after⟩ := serve_request_issues request (waiting_acked _ packet) ok
    exact ⟨⟨_, ((issues_acked _ packet [] []).trans issues).of_arrive⟩, after⟩

/-- A completion clears its slot after its callback ran and issued whatever reads it wanted. If the
slot is empty nothing happens. -/
theorem completion_issues {packet rest : Bytes} {later : List RecvStep} {tag : Fin 32}
    {data : Bytes} (carries : Carries packet (.completion tag data))
    (next : Next world.sock packet rest later) (ok : warppipeClientRead cbs world = .ok final) :
    ∃ middle reads, Issues world middle reads ∧ middle.sock.incoming = rest ∧
      middle.sock.recvs = later ∧ final.client.completionCb =
        Function.update middle.client.completionCb tag none ∧
      final.client.readTag = middle.client.readTag ∧ final.log = middle.log ∧
      final.sock = middle.sock ∧
      (invocations world final = match world.client.completionCb tag with
        | none => []
        | some cb => [.completion tag cb 0 data data.length]) ∧
      ((∀ cb app, ∀ call ∈ (cbs.completion cb app 0 data data.length).calls, call.isRead = false) →
        reads = []) := by
  obtain ⟨pkt, -, read⟩ := clientRead_serve cbs (carries.arrives next) carries
  rw [read, serve] at ok
  have issued := issues_acked world packet rest later
  have acked := undisturbed_push (world.received packet rest later) (ackOf packet)
  have log : (world.acked packet rest later).log =
      world.log ++ [.packet packet, .sent (ackOf packet) (_ : Int)] :=
    (push_log _ _).trans (List.append_assoc _ _ _)
  have slots : (world.acked packet rest later).client.completionCb = world.client.completionCb :=
    issued.slots
  rw [slots] at ok
  cases held : world.client.completionCb tag with
  | none =>
      simp only [held] at ok
      cases ok
      refine ⟨_, [], issued, acked.incoming, acked.recvs, ?_, rfl, rfl, rfl, ?_, fun _ => rfl⟩
      · rw [slots, Function.update_eq_self_iff.mpr held.symm]
      · rw [invocations, fresh_eq log]
        rfl
  | some cb =>
      simp only [held, invokeCompletion, bind, Except.bind, pure, Except.pure] at ok
      split at ok
      · cases ok
      · rename_i middle ran
        cases ok
        obtain ⟨reads, issues, readless⟩ := runCalls_issues ran
        have undisturbed := CallSteps.undisturbed (runCalls_ok ran)
        refine ⟨middle, reads, issued.trans ((issues_emit _ _ rfl).trans issues),
          undisturbed.incoming.trans acked.incoming, undisturbed.recvs.trans acked.recvs, rfl,
          rfl, rfl, rfl, ?_, fun none => readless (none _ _)⟩
        exact invocations_undisturbed (by simp only [World.emit, log, List.append_assoc]; rfl)
          undisturbed

end

/-- What a move does. It issues reads; an answer takes the oldest read off and clears its slot
after those reads were stored. -/
inductive Advance (before after : Requester σ) (reads : List (Fin 32 × Option FnPtr)) : Prop where
  | issued (same : after.answered = before.answered)
      (issues : Issues before.world after.world reads)
  | completed (tag : Fin 32) (cb : Option FnPtr) (rest : List (Fin 32 × Option FnPtr))
      (middle : World σ) (head : before.outstanding = (tag, cb) :: rest)
      (counted : after.answered = before.answered + 1) (issues : Issues before.world middle reads)
      (slots : after.world.client.completionCb =
        Function.update middle.client.completionCb tag none)
      (readTag : after.world.client.readTag = middle.client.readTag)
      (log : after.world.log = middle.log) (sock : after.world.sock = middle.sock)

theorem Succeeds.advance {cbs : Callbacks σ} {state next : Requester σ} {move : ReadMove}
    (waiting : Waiting state.world) (succeeds : Succeeds state move)
    (ok : requesterStep cbs state move = .ok next) :
    Waiting next.world ∧ ∃ reads, Advance state next reads := by
  obtain ⟨stepped, counted⟩ := requesterStep_ok ok
  cases move with
  | call call =>
      have step := clientStep_call stepped
      obtain ⟨reads, issues⟩ := step.issues
      exact ⟨waiting.undisturbed step.undisturbed, reads, .issued counted issues⟩
  | other packet =>
      obtain ⟨⟨reads, issues⟩, after⟩ := unrelated_issues waiting succeeds stepped
      exact ⟨after, reads, .issued counted issues⟩
  | answer packet =>
      obtain ⟨tag, cb, rest, data, head, carries⟩ := succeeds
      obtain ⟨middle, reads, issues, incoming, recvs, slots, readTag, log, sock, -, -⟩ :=
        completion_issues carries (waiting.next packet) stepped
      exact ⟨⟨by rw [sock, incoming], by rw [sock, recvs]⟩, reads,
        .completed tag cb rest middle head counted issues.of_arrive slots readTag log sock⟩

section

variable {before after : Requester σ} {reads : List (Fin 32 × Option FnPtr)}

theorem Advance.log (advance : Advance before after reads) :
    issuedReads after.world.log = issuedReads before.world.log ++ reads := by
  cases advance with
  | issued _ issues => exact issues.log
  | completed tag cb rest middle _ _ issues _ _ log => rw [log, issues.log]

theorem Advance.counted (advance : Advance before after reads)
    (counted : before.answered ≤ (issuedReads before.world.log).length) :
    after.answered ≤ (issuedReads before.world.log).length := by
  cases advance with
  | issued same => omega
  | completed tag cb rest middle head more =>
      have nonempty := congrArg List.length head
      rw [Requester.outstanding, List.length_drop, List.length_cons] at nonempty
      omega

theorem Advance.outstanding (advance : Advance before after reads)
    (counted : before.answered ≤ (issuedReads before.world.log).length) :
    after.outstanding = before.outstanding.drop (after.answered - before.answered) ++ reads := by
  have log := advance.log
  have inside := advance.counted counted
  rw [Requester.outstanding, log, List.drop_append_of_le_length inside, Requester.outstanding,
    List.drop_drop]
  congr 2
  cases advance with
  | issued same => omega
  | completed tag cb rest middle head more => omega

end

end WarpPipe
