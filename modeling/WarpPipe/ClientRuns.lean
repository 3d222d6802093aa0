import WarpPipe.Library.Runs
import WarpPipe.Transactions

/-!
Runs of one client: the application makes requests, bytes arrive and `warppipe_client_read` is
called, in any order.
-/

namespace WarpPipe

open ByteLayout

variable {σ : Type}

inductive Action where
  | call (call : Call)
  /-- `arrived` joins the stream, then `warppipe_client_read` is called. -/
  | receive (arrived : Bytes)

def World.arrive (world : World σ) (arrived : Bytes) : World σ :=
  { world with sock := { world.sock with incoming := world.sock.incoming ++ arrived } }

def clientStep (cbs : Callbacks σ) (world : World σ) : Action → Outcome (World σ)
  | .call call => (call.run world).map Prod.snd
  | .receive arrived => warppipeClientRead cbs (world.arrive arrived)

def createdWorld (memory : Client) (fd : Int) (sock : Socket) (app : σ) : World σ where
  client := warppipeClientCreate memory fd
  sock := sock
  app := app
  log := []

theorem clientStep_call_run {cbs : Callbacks σ} {world final : World σ} {call : Call}
    (ok : clientStep cbs world (.call call) = .ok final) :
    ∃ rc, call.run world = .ok (rc, final) := by
  cases result : call.run world with
  | error fault => simp [clientStep, result, Except.map] at ok
  | ok outcome =>
      obtain ⟨rc, next⟩ := outcome
      simp only [clientStep, result, Except.map, Except.ok.injEq] at ok
      exact ⟨rc, by rw [ok]⟩

theorem clientStep_call {cbs : Callbacks σ} {world final : World σ} {call : Call}
    (ok : clientStep cbs world (.call call) = .ok final) : CallStep world final := by
  obtain ⟨rc, ran⟩ := clientStep_call_run ok
  exact Call.run_ok ran

structure Waiting (world : World σ) : Prop where
  incoming : world.sock.incoming = []
  recvs : world.sock.recvs = []

theorem Waiting.next {world : World σ} (waiting : Waiting world) (packet : Bytes) :
    Next (world.arrive packet).sock packet [] [] := by
  refine ⟨?_, ?_⟩
  · simp [World.arrive, waiting.incoming]
  · simp only [World.arrive, waiting.recvs]
    rfl

theorem Waiting.undisturbed {before after : World σ} (waiting : Waiting before)
    (calls : Undisturbed before after) : Waiting after :=
  ⟨calls.incoming.trans waiting.incoming, calls.recvs.trans waiting.recvs⟩

theorem waiting_acked (world : World σ) (packet : Bytes) : Waiting (world.acked packet [] []) :=
  ⟨(undisturbed_push _ _).incoming, (undisturbed_push _ _).recvs⟩

end WarpPipe
