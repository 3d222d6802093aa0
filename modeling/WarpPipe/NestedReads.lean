import WarpPipe.ReadRuns
import WarpPipe.Registrations
import WarpPipe.Slots

/-!
Reads issued while a completion callback runs. The slot of the callback's own read is cleared only
when the callback returned, so that read still counts: as long as no more than 32 reads are in
flight together with it, every read keeps its callback until its completion comes.
-/

namespace WarpPipe

open ByteLayout SlotTable

variable {σ : Type}

/-- The tags of the reads go round the ring from `first` on, and each slot of a read without an
answer holds its callback. -/
structure Kept (first : Fin 32) (state : Requester σ) : Prop where
  waiting : Waiting state.world
  sends : state.world.sock.SendsAll
  counted : state.answered ≤ (issuedReads state.world.log).length
  few : (issuedReads state.world.log).length ≤ state.answered + 32
  tags : (issuedReads state.world.log).map Prod.fst =
    tagsFrom first (issuedReads state.world.log).length
  readTag : state.world.client.readTag = tagAt first (issuedReads state.world.log).length
  slots : ∀ read ∈ state.outstanding, state.world.client.completionCb read.1 = read.2

def Call.asks (registry : Registry) : Call → Bool
  | .read barIdx _ _ _ => registry.bar barIdx ≠ 0
  | .config0Read .. => true
  | _ => false

def readsMade (registry : Registry) : List Call → Nat
  | [] => 0
  | call :: rest => (call.asks registry).toNat + readsMade (registry.after call) rest

def Message.requests (cbs : Callbacks σ) (world : World σ) : Message → List Call
  | .read space addr length _ =>
    match world.client.readRoute space (addr &&& ~~~3) with
    | (none, _) => []
    | (some cb, target) => (cbs.read cb world.app (target + misalignment addr) length).calls
  | .write space addr data =>
    match world.client.writeRoute space (addr &&& ~~~3) with
    | (none, _) => []
    | (some cb, target) =>
        (cbs.write cb world.app (target + misalignment addr) data data.length).calls
  | .completion tag data =>
    match world.client.completionCb tag with
    | none => []
    | some cb => (cbs.completion cb world.app 0 data data.length).calls
  | .failure _ => []

def Requester.InRing (state : Requester σ) (calls : List Call) : Prop :=
  state.outstanding.length + readsMade state.world.client.registry calls ≤ 32

/-- The reads without an answer, the one that the move answers among them, and the reads that the
move issues, itself or through the callback of its packet, are at most 32. -/
def WithinRing (cbs : Callbacks σ) (state : Requester σ) : ReadMove → Prop
  | .call request => state.InRing [request]
  | .other packet | .answer packet =>
    ∀ message, Carries packet message → state.InRing (message.requests cbs state.world)

section

variable {world final : World σ}

theorem Call.run_count {call : Call} {rc : Int} (sends : world.sock.SendsAll)
    (ok : call.run world = .ok (rc, final)) :
    (issuedReads final.log).length =
      (issuedReads world.log).length + (call.asks world.client.registry).toNat := by
  have asked {type : PcieTlpType} (isRead : ReadType type) {addr : BitVec 64} {length : Int}
      {cb : Option FnPtr} (sent : warppipeReadImp world addr length cb type = .ok (rc, final)) :
      (issuedReads final.log).length = (issuedReads world.log).length + 1 := by
    have pushed := issues_push (bumpSeqno (bumpTag world)) (readPacketOf world type addr length)
    have complete :
        (push (bumpSeqno (bumpTag world)) (readPacketOf world type addr length)).1 ≠ -1 := by
      rw [ne_eq, push_failed_iff, not_not]
      exact (Socket.SendsAll.send sends _).1
    rw [warppipeReadImp_eq world isRead, afterRead, if_neg complete, Except.ok.injEq, Prod.mk.injEq]
      at sent
    obtain ⟨-, rfl⟩ := sent
    rw [issues_storeSlot, List.length_append, pushed.log, List.append_nil]
    rfl
  have silent (readless : call.isRead = false) : (issuedReads final.log).length =
      (issuedReads world.log).length := by
    rw [(Call.run_readless readless ok).log, List.append_nil]
  cases call with
  | read barIdx addr length cb =>
      simp only [Call.run, warppipeRead] at ok
      split at ok
      · rename_i unset
        cases ok
        simp [Call.asks, Client.registry, unset]
      · rename_i set
        rw [asked (.inl rfl) ok, Call.asks,
          decide_eq_true (show world.client.registry.bar barIdx ≠ 0 from set)]
        rfl
  | config0Read addr length cb => exact asked (.inr rfl) ok
  | registerBar bar barSize barIdx readCb writeCb => exact silent rfl
  | registerConfig0ReadCb readCb => exact silent rfl
  | registerConfig0WriteCb writeCb => exact silent rfl
  | write junk barIdx addr data length => exact silent rfl
  | config0Write junk addr data length => exact silent rfl

theorem runCalls_count {calls : List Call} (sends : world.sock.SendsAll)
    (ok : runCalls world calls = .ok final) :
    (issuedReads final.log).length =
      (issuedReads world.log).length + readsMade world.client.registry calls := by
  induction calls generalizing world with
  | nil =>
      cases ok
      rfl
  | cons call rest ih =>
      simp only [runCalls, bind, Except.bind] at ok
      split at ok
      · cases ok
      · rename_i result ran
        obtain ⟨reads, issues⟩ := (Call.run_ok ran).issues
        rw [ih (issues.sends sends) ok, Call.run_count sends ran, Call.run_registry ran, readsMade]
        omega

variable {cbs : Callbacks σ} {message : Message}

theorem serve_count {pkt : Bytes} (sends : world.sock.SendsAll)
    (ok : serve cbs world pkt message = .ok final) :
    (issuedReads final.log).length =
      (issuedReads world.log).length + readsMade world.client.registry
        (message.requests cbs world) := by
  -- the callback's event is none of a read, so what counts is the requests that follow it
  have made {app : σ} {event : Event} {calls : List Call} {after : World σ}
      (silent : event.issued? = none)
      (ran : runCalls ({ world with app := app }.emit event) calls = .ok after) :
      (issuedReads after.log).length =
        (issuedReads world.log).length + readsMade world.client.registry calls := by
    have count :=
      runCalls_count (show ({ world with app := app }.emit event).sock.SendsAll from sends) ran
    rw [(issues_emit world app silent).log, List.append_nil] at count
    exact count
  cases message with
  | read space addr length tag =>
      simp only [serve, Message.requests] at ok ⊢
      generalize world.client.readRoute space (addr &&& ~~~3) = route at ok ⊢
      obtain ⟨_ | cb, target⟩ := route
      · cases ok
        rfl
      · simp only [invokeRead, bind, Except.bind, pure, Except.pure] at ok ⊢
        split at ok
        · cases ok
        · rename_i result invoked
          split at invoked
          · cases invoked
          · rename_i middle ran
            cases invoked
            cases ok
            rw [(issues_sentTlp middle _).log, List.append_nil]
            exact made rfl ran
  | write space addr data =>
      simp only [serve, Message.requests] at ok ⊢
      generalize world.client.writeRoute space (addr &&& ~~~3) = route at ok ⊢
      obtain ⟨_ | cb, target⟩ := route
      · cases ok
        rfl
      · exact made (show (Event.writeCb cb _ data data.length).issued? = none from rfl) ok
  | completion tag data =>
      simp only [serve, Message.requests] at ok ⊢
      generalize world.client.completionCb tag = slot at ok ⊢
      obtain _ | cb := slot
      · cases ok
        rfl
      · simp only [invokeCompletion, bind, Except.bind, pure, Except.pure] at ok ⊢
        split at ok
        · cases ok
        · rename_i middle ran
          cases ok
          change (issuedReads middle.log).length = _
          exact made rfl ran
  | failure tag =>
      cases ok
      rfl

theorem requests_acked (cbs : Callbacks σ) (world : World σ) (packet rest : Bytes)
    (later : List RecvStep) (message : Message) :
    message.requests cbs (world.acked packet rest later) = message.requests cbs world := by
  have app : (world.acked packet rest later).app = world.app := push_app _ _
  have reads (space : Space) (addr : BitVec 64) :
      (world.acked packet rest later).client.readRoute space addr =
        world.client.readRoute space addr := by
    rw [World.acked, push_client]
    split <;> rfl
  have writes (space : Space) (addr : BitVec 64) :
      (world.acked packet rest later).client.writeRoute space addr =
        world.client.writeRoute space addr := by
    rw [World.acked, push_client]
    split <;> rfl
  have slots : (world.acked packet rest later).client.completionCb = world.client.completionCb :=
    (issues_acked world packet rest later).slots
  cases message <;> simp only [Message.requests, app, reads, writes, slots]

theorem receive_count {packet : Bytes} (waiting : Waiting world) (sends : world.sock.SendsAll)
    (carries : Carries packet message) (ok : clientStep cbs world (.receive packet) = .ok final) :
    (issuedReads final.log).length =
      (issuedReads world.log).length + readsMade world.client.registry
        (message.requests cbs world) := by
  obtain ⟨pkt, -, read⟩ := clientRead_serve cbs (carries.arrives (waiting.next packet)) carries
  have acked := issues_acked (world.arrive packet) packet [] []
  rw [clientStep, read] at ok
  have count := serve_count (acked.sends sends) ok
  rw [acked.log, List.append_nil, requests_acked, World.acked, registry_push] at count
  exact count

end

theorem WithinRing.bound {cbs : Callbacks σ} {state next : Requester σ} {move : ReadMove}
    (waiting : Waiting state.world) (sends : state.world.sock.SendsAll)
    (few : (issuedReads state.world.log).length ≤ state.answered + 32)
    (succeeds : Succeeds state move) (within : WithinRing cbs state move)
    (ok : requesterStep cbs state move = .ok next) :
    (issuedReads next.world.log).length ≤ state.answered + 32 := by
  obtain ⟨stepped, -⟩ := requesterStep_ok ok
  have inRing {calls : List Call} (small : state.InRing calls)
      (count : (issuedReads next.world.log).length =
        (issuedReads state.world.log).length + readsMade state.world.client.registry calls) :
      (issuedReads next.world.log).length ≤ state.answered + 32 := by
    rw [Requester.InRing, Requester.outstanding, List.length_drop] at small
    omega
  cases move with
  | call request =>
      obtain ⟨rc, ran⟩ := clientStep_call_run stepped
      exact inRing within (Call.run_count sends ran)
  | other packet =>
      rcases succeeds with dllp | ⟨message, carries, -⟩
      · rw [(dllp_issues waiting dllp stepped).1.log, List.append_nil]
        exact few
      · exact inRing (within message carries) (receive_count waiting sends carries stepped)
  | answer packet =>
      obtain ⟨tag, cb, rest, data, -, carries⟩ := succeeds
      exact inRing (within _ carries) (receive_count waiting sends carries stepped)

theorem Kept.start {world : World σ} (waiting : Waiting world) (sends : world.sock.SendsAll)
    (log : issuedReads world.log = []) : Kept world.client.readTag ⟨world, 0⟩ where
  waiting := waiting
  sends := sends
  counted := Nat.zero_le _
  few := by
    rw [log]
    exact Nat.zero_le _
  tags := by
    rw [log]
    rfl
  readTag := by
    rw [log]
    exact (tagAt_zero _).symm
  slots := by
    rw [Requester.outstanding, log]
    exact List.forall_mem_nil _

section

variable {first : Fin 32} {before after : Requester σ} {reads : List (Fin 32 × Option FnPtr)}

theorem Kept.tags_grown {world : World σ} (kept : Kept first before)
    (issues : Issues before.world world reads) :
    (issuedReads before.world.log ++ reads).map Prod.fst =
      tagsFrom first ((issuedReads before.world.log).length + reads.length) := by
  rw [List.map_append, kept.tags, issues.tags kept.sends, kept.readTag, tagsFrom_add]

theorem Kept.distinct {world : World σ} (kept : Kept first before)
    (issues : Issues before.world world reads)
    (within : (issuedReads before.world.log).length + reads.length ≤ before.answered + 32) :
    ((before.outstanding ++ reads).map Prod.fst).Nodup := by
  rw [Requester.outstanding, ← List.drop_append_of_le_length kept.counted, List.map_drop,
    kept.tags_grown issues, tagsFrom_drop]
  exact tagsFrom_nodup _ (by omega)

theorem Kept.stored {world : World σ} (kept : Kept first before)
    (issues : Issues before.world world reads)
    (distinct : ((before.outstanding ++ reads).map Prod.fst).Nodup) :
    ∀ read ∈ before.outstanding ++ reads, world.client.completionCb read.1 = read.2 := by
  intro read member
  rw [List.map_append, List.nodup_append] at distinct
  obtain ⟨-, newDistinct, apart⟩ := distinct
  rw [issues.slots]
  rcases List.mem_append.mp member with old | new
  · rw [storeAll_of_notMem, kept.slots read old]
    intro inNew
    exact apart _ (List.mem_map_of_mem old) _ inNew rfl
  · exact storeAll_of_mem newDistinct new

theorem Kept.advance (kept : Kept first before) (waiting : Waiting after.world)
    (advance : Advance before after reads)
    (within : (issuedReads after.world.log).length ≤ before.answered + 32) : Kept first after := by
  have log := advance.log
  have counted := advance.counted kept.counted
  have outstanding := advance.outstanding kept.counted
  rw [log, List.length_append] at within
  have total : after.answered ≤ (issuedReads after.world.log).length := by
    rw [log, List.length_append]
    omega
  have few : (issuedReads after.world.log).length ≤ before.answered + 32 := by
    rw [log, List.length_append]
    exact within
  cases advance with
  | issued same issues =>
      have distinct := kept.distinct issues within
      refine ⟨waiting, issues.sends kept.sends, total, by omega, ?_, ?_, ?_⟩
      · rw [log, kept.tags_grown issues, List.length_append]
      · rw [issues.readTag kept.sends, kept.readTag, tagAt_tagAt, log, List.length_append]
      · rw [outstanding, same, Nat.sub_self, List.drop_zero]
        exact kept.stored issues distinct
  | completed tag cb rest middle head more issues slots readTag middleLog sock =>
      have distinct := kept.distinct issues within
      refine ⟨waiting, by rw [sock]; exact issues.sends kept.sends, total, by omega, ?_, ?_, ?_⟩
      · rw [log, kept.tags_grown issues, List.length_append]
      · rw [readTag, issues.readTag kept.sends, kept.readTag, tagAt_tagAt, log, List.length_append]
      · have still := kept.stored issues distinct
        rw [outstanding, more, Nat.add_sub_cancel_left, head]
        rw [head] at still distinct
        rw [List.cons_append, List.map_cons, List.nodup_cons] at distinct
        intro read member
        have other : read.1 ≠ tag := fun same => distinct.1 (List.mem_map.mpr ⟨read, member, same⟩)
        rw [slots, Function.update_of_ne other]
        exact still read (List.mem_cons_of_mem _ member)

end

theorem Kept.step {cbs : Callbacks σ} {first : Fin 32} {state next : Requester σ} {move : ReadMove}
    (kept : Kept first state) (allowed : Succeeds state move ∧ WithinRing cbs state move)
    (ok : requesterStep cbs state move = .ok next) : Kept first next := by
  obtain ⟨waiting, reads, advance⟩ := allowed.1.advance kept.waiting ok
  exact kept.advance waiting advance
    (WithinRing.bound kept.waiting kept.sends kept.few allowed.1 allowed.2 ok)

/-- In every run on a socket that sends everything, with answers in the order of the requests and
never more than 32 reads in flight together with the one whose callback runs, each read without an
answer has its callback in the slot of its tag, and its completion invokes that callback. -/
theorem nested_reads_kept {cbs : Callbacks σ} {world : World σ} (waiting : Waiting world)
    (sends : world.sock.SendsAll) (log : world.log = []) {moves : List ReadMove}
    {final : Requester σ} (along : Runs.Along (requesterStep cbs)
      (fun state move => Succeeds state move ∧ WithinRing cbs state move) ⟨world, 0⟩ moves)
    (ok : Runs.run (requesterStep cbs) ⟨world, 0⟩ moves = .ok final) :
    (∀ read ∈ final.outstanding, final.world.client.completionCb read.1 = read.2) ∧
      ∀ tag cb rest data packet next, final.outstanding = (tag, some cb) :: rest →
        Carries packet (.completion tag data) →
        requesterStep cbs final (.answer packet) = .ok next →
        invocations final.world next.world = [.completion tag cb 0 data data.length] := by
  have start : Kept world.client.readTag ⟨world, 0⟩ := .start waiting sends (by rw [log]; rfl)
  have kept :=
    Runs.run_invariant (fun _ _ _ holds allowed stepped => Kept.step holds allowed stepped)
    start along ok
  refine ⟨kept.slots, fun tag cb rest data packet next head carries answered => ?_⟩
  obtain ⟨middle, reads, -, -, -, -, -, -, -, invoked, -⟩ :=
    completion_issues carries (kept.waiting.next packet) (requesterStep_ok answered).1
  have held : final.world.client.completionCb tag = some cb :=
    kept.slots (tag, some cb) (by rw [head]; simp)
  refine invoked.trans ?_
  rw [show (final.world.arrive packet).client.completionCb tag = some cb from held]

def rereadCallbacks : Callbacks Unit :=
  { silentCallbacks with completion := fun _ app _ _ _ => ⟨app, [.config0Read 0 4 (some 8)]⟩ }

def rereadMoves (count : Nat) : List ReadMove :=
  List.replicate count (.call (.config0Read 0 4 (some 7))) ++ [.answer (unsolicited 0)]

def rereadRun (count : Nat) : Outcome (Requester Unit) :=
  Runs.run (requesterStep rereadCallbacks) ⟨clientWith [], 0⟩ (rereadMoves count)

def requesterSlot (tag : Fin 32) :
    Outcome (Requester σ) → Option (List (Fin 32 × Option FnPtr) × Option FnPtr)
  | .ok state => some (state.outstanding, state.world.client.completionCb tag)
  | .error _ => none

def tagsWastedRun : Outcome (Requester Unit) :=
  Runs.run (requesterStep silentCallbacks)
    ⟨{ clientWith [] with sock := ⟨[], [], .all :: List.replicate 31 .failed⟩ }, 0⟩
    (List.replicate 32 (.call (.config0Read 0 4 (some 7))) ++ [.call (.config0Read 0 4 (some 8))])

/-- With 32 reads in flight, the callback of the first gets its own tag for the read it issues, and
when it returns its slot is cleared: the new read is in flight without a callback. Failed sends
waste tags, so that two reads in flight can share one. -/
theorem nested_read_lost :
    requesterSlot 0 (rereadRun 32) =
        some ((List.range 31).map (fun index => (Fin.ofNat 32 (index + 1), some 7)) ++
          [(0, some 8)], none) ∧
      requesterSlot 0 tagsWastedRun = some ([(0, some 7), (0, some 8)], some 8) := by
  decide +kernel

theorem requesterSlot_some {tag : Fin 32} {result : Outcome (Requester σ)}
    {reads : List (Fin 32 × Option FnPtr)} {slot : Option FnPtr}
    (found : requesterSlot tag result = some (reads, slot)) :
    ∃ state, result = .ok state ∧ state.outstanding = reads := by
  cases result with
  | error fault => cases found
  | ok state => exact ⟨state, rfl, (Prod.mk.inj (Option.some.inj found)).1⟩

theorem readsMade_reread (message : Message) (world : World Unit) :
    readsMade world.client.registry (message.requests rereadCallbacks world) ≤ 1 := by
  cases message with
  | read space addr length tag =>
      simp only [Message.requests]
      split <;> exact Nat.zero_le 1
  | write space addr data =>
      simp only [Message.requests]
      split <;> exact Nat.zero_le 1
  | completion tag data =>
      simp only [Message.requests]
      split
      · exact Nat.zero_le 1
      · exact Nat.le_refl 1
  | failure tag => exact Nat.zero_le 1

theorem reread_kept :
    ∃ final, rereadRun 1 = .ok final ∧ final.outstanding = [(1, some 8)] ∧
      final.world.client.completionCb 1 = some 8 := by
  have issued : requesterStep rereadCallbacks ⟨clientWith [], 0⟩
      (.call (.config0Read 0 4 (some 7))) =
      .ok ⟨(afterRead (clientWith []) .cr0 0 4 (some 7)).2, 0⟩ := by
    rw [requesterStep, ReadMove.action, clientStep, Call.run, warppipeConfig0Read,
      warppipeReadImp_eq _ (Or.inr rfl)]
    rfl
  have along : Runs.Along (requesterStep rereadCallbacks)
      (fun state move => Succeeds state move ∧ WithinRing rereadCallbacks state move)
      ⟨clientWith [], 0⟩ (rereadMoves 1) := by
    refine Runs.along_cons ⟨trivial, by unfold WithinRing Requester.InRing; decide +kernel⟩ issued
      ?_
    refine ⟨⟨⟨0, some 7, [], [0], by decide +kernel, carries_unsolicited 0⟩, fun message _ => ?_⟩,
      fun _ _ => trivial⟩
    have single : (⟨(afterRead (clientWith []) .cr0 0 4 (some 7)).2, 0⟩ :
        Requester Unit).outstanding.length = 1 := by
      decide +kernel
    have most := readsMade_reread message (afterRead (clientWith []) .cr0 0 4 (some 7)).2
    rw [Requester.InRing, single]
    exact Nat.add_le_add_left (most.trans (show 1 ≤ 31 by decide)) 1
  have sends : (clientWith []).sock.SendsAll := List.forall_mem_nil _
  obtain ⟨final, ran, outstanding⟩ := requesterSlot_some
    (show requesterSlot 1 (rereadRun 1) = some ([(1, some 8)], some 8) by decide +kernel)
  have kept := (nested_reads_kept ⟨rfl, rfl⟩ sends rfl along ran).1
  exact ⟨final, ran, outstanding, kept (1, some 8) (by rw [outstanding]; simp)⟩

end WarpPipe
