import WarpPipe.ClientRuns

/-!
The completion slots. A completion that arrives calls what its slot holds; the slots hold what
reads stored and completions did not take out since, provided they were empty when the client was
created. `warppipe_client_create` does not empty them.
-/

namespace WarpPipe

open ByteLayout

variable {σ : Type}

def pendingStep (tag : Fin 32) (slot : Option FnPtr) : Event → Option FnPtr
  | .stored other cb => if other = tag then cb else slot
  | .completion other _ _ _ _ => if other = tag then none else slot
  | _ => slot

/-- The callback that a read stored for `tag` and that was not invoked since. -/
def pending (log : List Event) (tag : Fin 32) : Option FnPtr := log.foldl (pendingStep tag) none

def Justified (log : List Event) : Prop :=
  ∀ before tag cb errorCode data length after,
    log = before ++ .completion tag cb errorCode data length :: after → pending before tag = some cb

theorem pending_concat (log : List Event) (event : Event) (tag : Fin 32) :
    pending (log ++ [event]) tag = pendingStep tag (pending log tag) event := by
  rw [pending, List.foldl_append]
  rfl

theorem justified_nil : Justified [] := by
  intro before tag cb errorCode data length after split
  simp at split

theorem justified_concat {log : List Event} {event : Event} (justified : Justified log)
    (last : ∀ tag cb errorCode data length, event = .completion tag cb errorCode data length →
      pending log tag = some cb) : Justified (log ++ [event]) := by
  intro before tag cb errorCode data length after split
  rcases List.eq_nil_or_concat after with rfl | ⟨tail, final, rfl⟩
  · obtain ⟨rfl, same⟩ := List.append_inj' split rfl
    exact last _ _ _ _ _ (List.head_eq_of_cons_eq same)
  · rw [List.concat_eq_append, ← List.cons_append, ← List.append_assoc] at split
    exact justified _ _ _ _ _ _ _ (List.append_inj' split rfl).1

/-- The slots, except possibly one whose callback is running, hold pending callbacks or nothing. -/
structure Tracked (running : Option (Fin 32)) (world : World σ) : Prop where
  slots : ∀ tag, running ≠ some tag →
    world.client.completionCb tag = none ∨ world.client.completionCb tag = pending world.log tag
  log : Justified world.log

theorem Tracked.quiet {running : Option (Fin 32)} {world next : World σ}
    (tracked : Tracked running world) {event : Event}
    (slots : next.client.completionCb = world.client.completionCb)
    (log : next.log = world.log ++ [event]) (other : ∀ tag slot, pendingStep tag slot event = slot)
    (notCompletion : ∀ tag cb errorCode data length,
      event ≠ .completion tag cb errorCode data length) :
    Tracked running next where
  slots tag idle := by
    rw [slots, log, pending_concat, other]
    exact tracked.slots tag idle
  log := by
    rw [log]
    exact justified_concat tracked.log fun _ _ _ _ _ same => absurd same (notCompletion _ _ _ _ _)

theorem Tracked.same {running : Option (Fin 32)} {world next : World σ}
    (tracked : Tracked running world) (slots : next.client.completionCb = world.client.completionCb)
    (log : next.log = world.log) :
    Tracked running next := by
  refine ⟨fun tag idle => ?_, ?_⟩
  · rw [slots, log]
    exact tracked.slots tag idle
  · rw [log]
    exact tracked.log

section

variable {running : Option (Fin 32)} {world : World σ} (tracked : Tracked running world)

include tracked

theorem Tracked.push (packet : Bytes) : Tracked running (push world packet).2 := by
  refine tracked.quiet ?_ (push_log world packet) (fun _ _ => rfl) nofun
  rw [push_client]
  split <;> rfl

theorem Tracked.storeSlot (tag : Fin 32) (cb : Option FnPtr) :
    Tracked running (storeSlot world tag cb) where
  slots other idle := by
    simp only [WarpPipe.storeSlot, World.emit, pending_concat, pendingStep]
    by_cases same : tag = other
    · subst same
      exact Or.inr (by simp)
    · rw [Function.update_of_ne (Ne.symm same), if_neg same]
      exact tracked.slots other idle
  log := justified_concat tracked.log nofun

theorem Tracked.call {next : World σ} (step : CallStep world next) : Tracked running next := by
  cases step with
  | registered client same => exact tracked.same same.completionCb rfl
  | sentWrite tport block =>
      have counted : Tracked running (bumpSeqno world) := tracked.same rfl rfl
      exact counted.push _
  | sentRead tport cb block =>
      have counted : Tracked running (bumpSeqno (bumpTag world)) := tracked.same rfl rfl
      simp only [WarpPipe.sentRead]
      split
      · exact counted.push _
      · exact (counted.push _).storeSlot _ _

theorem Tracked.calls {final : World σ} (steps : CallSteps world final) :
    Tracked running final := by
  induction steps with
  | refl => exact tracked
  | tail _ step ih => exact ih.call step

end

theorem Tracked.served {world final : World σ} {pkt : Bytes}
    (tracked : Tracked none world) (served : Served world pkt final) : Tracked none final := by
  cases served with
  | ignored => exact tracked
  | read cb addr length error data app middle calls =>
      have asked :
          Tracked none ({ world with app := app }.emit (.readCb cb addr length error data)) :=
        tracked.quiet rfl rfl (fun _ _ => rfl) nofun
      have counted : Tracked none (bumpSeqno middle) := (asked.calls calls).same rfl rfl
      exact counted.push _
  | write cb addr data length app final calls =>
      have asked : Tracked none ({ world with app := app }.emit (.writeCb cb addr data length)) :=
        tracked.quiet rfl rfl (fun _ _ => rfl) nofun
      exact asked.calls calls
  | completion tag cb data length app middle stored calls =>
      have due : pending world.log tag = some cb := by
        rcases tracked.slots tag nofun with empty | held
        · rw [stored] at empty
          cases empty
        · rw [← held, stored]
      -- while the callback runs its slot still holds it, and what it stores there is cleared later
      have invoked : Tracked (some tag)
          ({ world with app := app }.emit (.completion tag cb 0 data length)) := by
        refine ⟨fun other idle => ?_, justified_concat tracked.log ?_⟩
        · have different : tag ≠ other := fun same => idle (by rw [same])
          simp only [World.emit, pending_concat, pendingStep, if_neg different]
          exact tracked.slots other nofun
        · intro _ _ _ _ _ same
          cases same
          exact due
      have after := invoked.calls calls
      refine ⟨fun other _ => ?_, after.log⟩
      by_cases same : other = tag
      · subst same
        exact Or.inl (by simp [clearSlot])
      · simp only [clearSlot, Function.update_of_ne same]
        exact after.slots other fun running => same (Option.some.inj running).symm

theorem Tracked.read {cbs : Callbacks σ} {world final : World σ} (tracked : Tracked none world)
    (step : ReadStep cbs world final) : Tracked none final := by
  have refilled (incoming : Bytes) (recvs : List RecvStep) (buf : RecvBuffer) :
      Tracked none (world.refill incoming recvs buf) := tracked.same rfl rfl
  have noted (incoming : Bytes) (recvs : List RecvStep) (buf : RecvBuffer) (packet : Bytes) :
      Tracked none ((world.refill incoming recvs buf).emit (.packet packet)) :=
    (refilled incoming recvs buf).quiet rfl rfl (fun _ _ => rfl) nofun
  cases step with
  | idle => exact refilled ..
  | dropped incoming recvs buf => exact (refilled incoming recvs buf).same rfl rfl
  | dllp incoming recvs buf packet note =>
      exact (noted incoming recvs buf packet).quiet rfl rfl (fun _ _ => rfl) nofun
  | corrupted => exact noted ..
  | rejected incoming recvs buf packet => exact (noted incoming recvs buf packet).push _
  | accepted incoming recvs buf packet final handled =>
      exact ((noted incoming recvs buf packet).push _).served handled.served

theorem Tracked.step {cbs : Callbacks σ} {world final : World σ} {action : Action}
    (tracked : Tracked none world) (ok : clientStep cbs world action = .ok final) :
    Tracked none final := by
  cases action with
  | call call => exact tracked.call (clientStep_call ok)
  | receive arrived =>
      have arrivedTracked : Tracked none (world.arrive arrived) := tracked.same rfl rfl
      exact arrivedTracked.read (clientRead_ok ok)

def unsolicited (tag : Fin 32) : Bytes :=
  sealTlp 1 (completionPacket ((readBlock tag .cr0 0 1).drop Transport.tTlp) 0 [0])

theorem carries_unsolicited (tag : Fin 32) : Carries (unsolicited tag) (.completion tag [0]) := by
  have asked : IsRead ((readBlock tag .cr0 0 1).drop Transport.tTlp) Space.config0.readType 0
      ([0] : Bytes).length tag :=
    isRead_readBlock (Or.inr rfl) tag 0 1 (by decide) (by decide) (by decide)
  exact carries_completion 1 asked (by decide)

theorem unsolicited_invokes (memory : Client) (fd : Int) (app : σ) {tag : Fin 32} {cb : FnPtr}
    (leftover : memory.completionCb tag = some cb) :
    ∃ final, Runs.run (clientStep silentCallbacks) (createdWorld memory fd ⟨[], [], []⟩ app)
        [.receive (unsolicited tag)] = .ok final ∧
      invocations (createdWorld memory fd ⟨[], [], []⟩ app) final = [.completion tag cb 0 [0] 1] ∧
      ¬Justified final.log := by
  have carries := carries_unsolicited tag
  have next : Next ((createdWorld memory fd ⟨[], [], []⟩ app).arrive (unsolicited tag)).sock
      (unsolicited tag) [] [] := ⟨(List.append_nil _).symm, rfl⟩
  have sends : ((createdWorld memory fd ⟨[], [], []⟩ app).arrive (unsolicited tag)).sock.SendsAll :=
    nofun
  obtain ⟨sock, -, -, -, acked⟩ := acked_all sends (unsolicited tag) [] []
  have read := clientRead_completion silentCallbacks carries next
    (show _ = some cb by rw [acked]; exact leftover)
  rw [acked] at read
  refine ⟨_, by rw [Runs.run_cons read]; rfl, rfl, fun justified => ?_⟩
  have due := justified [.packet (unsolicited tag), .sent (ackOf (unsolicited tag))
    (ackOf (unsolicited tag)).length] tag cb 0 [0] 1 [] rfl
  cases due

def leftoverMemory : Client := { (clientWith []).client with completionCb := fun _ => some 42 }

theorem leftover_callback_invoked :
    ∃ final, Runs.run (clientStep silentCallbacks) (createdWorld leftoverMemory 3 ⟨[], [], []⟩ ())
        [.receive (unsolicited 0)] = .ok final ∧
      invocations (createdWorld leftoverMemory 3 ⟨[], [], []⟩ ()) final =
        [.completion 0 42 0 [0] 1] ∧
      ¬Justified final.log :=
  unsolicited_invokes leftoverMemory 3 () rfl

theorem run_justified {memory : Client} (cleared : ∀ tag, memory.completionCb tag = none) {fd : Int}
    {app : σ} {cbs : Callbacks σ} {sock : Socket} {actions : List Action} {final : World σ}
    (ok : Runs.run (clientStep cbs) (createdWorld memory fd sock app) actions = .ok final) :
    Justified final.log := by
  have start : Tracked none (createdWorld memory fd sock app) :=
    ⟨fun tag _ => Or.inl (cleared tag), justified_nil⟩
  have always : Runs.Along (clientStep cbs) (fun _ _ => True)
      (createdWorld memory fd sock app) actions :=
    Runs.along_of_forall _ fun _ _ => trivial
  exact (Runs.run_invariant (fun _ _ _ tracked _ stepped =>
    Tracked.step tracked stepped) start always ok).log

/-- Exactly on a block of memory whose completion slots are all NULL does a created client only
ever invoke completion callbacks that a read stored and that were not invoked since. -/
theorem completions_justified_iff (memory : Client) (fd : Int) (app : σ) :
    (∀ (cbs : Callbacks σ) (sock : Socket) (actions : List Action) (final : World σ),
      Runs.run (clientStep cbs) (createdWorld memory fd sock app) actions = .ok final →
        Justified final.log) ↔
      ∀ tag, memory.completionCb tag = none := by
  constructor
  · intro holds tag
    cases leftover : memory.completionCb tag with
    | none => rfl
    | some cb =>
        obtain ⟨final, ran, -, unjustified⟩ := unsolicited_invokes memory fd app leftover
        exact absurd (holds _ _ _ final ran) unjustified
  · intro cleared cbs sock actions final ok
    exact run_justified cleared ok

end WarpPipe
