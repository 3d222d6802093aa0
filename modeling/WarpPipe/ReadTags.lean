import WarpPipe.ClientRuns
import WarpPipe.Library.SlotTable

/-!
Which reads a step issues. A read that was sent writes its callback to the slot of its tag; tags are
taken from a counter that wraps after 32, whether or not the slot is free.
-/

namespace WarpPipe

open ByteLayout SlotTable

variable {σ : Type}

def Event.issued? : Event → Option (Fin 32 × Option FnPtr)
  | .stored tag cb => some (tag, cb)
  | _ => none

def issuedReads (log : List Event) : List (Fin 32 × Option FnPtr) := log.filterMap Event.issued?

/-- `reads` were issued between two worlds, and nothing else was done to the slots. When every send
is complete, a tag is taken for each of them and for nothing else. -/
structure Issues (before after : World σ) (reads : List (Fin 32 × Option FnPtr)) : Prop where
  log : issuedReads after.log = issuedReads before.log ++ reads
  slots : after.client.completionCb = storeAll before.client.completionCb reads
  sends : before.sock.SendsAll → after.sock.SendsAll
  tags : before.sock.SendsAll → reads.map Prod.fst = tagsFrom before.client.readTag reads.length
  readTag : before.sock.SendsAll → after.client.readTag = tagAt before.client.readTag reads.length

theorem Issues.none {before after : World σ} {events : List Event}
    (log : after.log = before.log ++ events) (silent : ∀ event ∈ events, event.issued? = none)
    (slots : after.client.completionCb = before.client.completionCb)
    (readTag : after.client.readTag = before.client.readTag)
    (sends : before.sock.SendsAll → after.sock.SendsAll) : Issues before after [] where
  log := by
    rw [log, issuedReads, List.filterMap_append, List.filterMap_eq_nil_iff.mpr silent]
    rfl
  slots := slots
  sends := sends
  tags _ := rfl
  readTag _ := by rw [readTag, List.length_nil, tagAt_zero]

theorem Issues.trans {first second third : World σ} {early late : List (Fin 32 × Option FnPtr)}
    (left : Issues first second early) (right : Issues second third late) :
    Issues first third (early ++ late) where
  log := by rw [right.log, left.log, List.append_assoc]
  slots := by rw [right.slots, left.slots, storeAll_append]
  sends sends := right.sends (left.sends sends)
  tags sends := by
    rw [List.map_append, left.tags sends, right.tags (left.sends sends), left.readTag sends,
      List.length_append, tagsFrom_add]
  readTag sends := by
    rw [right.readTag (left.sends sends), left.readTag sends, tagAt_tagAt, List.length_append]

theorem issues_push (world : World σ) (packet : Bytes) : Issues world (push world packet).2 [] := by
  refine .none (push_log world packet) (by simp [Event.issued?]) ?_ ?_ fun sends => ?_
  · rw [push_client]
    split <;> rfl
  · rw [push_client]
    split <;> rfl
  · rw [push_sock]
    exact (sends.send packet).2

theorem issues_storeSlot (world : World σ) (tag : Fin 32) (cb : Option FnPtr) :
    issuedReads (storeSlot world tag cb).log = issuedReads world.log ++ [(tag, cb)] := by
  rw [storeSlot, issuedReads, World.emit, List.filterMap_append]
  rfl

theorem issues_sentRead (world : World σ) (tport : Bytes) (cb : Option FnPtr) :
    ∃ reads, Issues world (sentRead world tport cb) reads := by
  have sent := issues_push (bumpSeqno (bumpTag world)) (sealTlp (world.client.seqno + 1) tport)
  by_cases failed :
    (push (bumpSeqno (bumpTag world)) (sealTlp (world.client.seqno + 1) tport)).1 = -1
  · have contradiction : ¬world.sock.SendsAll := fun sends => by
      rw [push_failed_iff] at failed
      exact failed (Socket.SendsAll.send sends _).1
    rw [sentRead, if_pos failed]
    exact ⟨[], sent.log, sent.slots, sent.sends, fun sends => absurd sends contradiction,
      fun sends => absurd sends contradiction⟩
  · rw [sentRead, if_neg failed]
    refine ⟨[(world.client.readTag, cb)], ?_, ?_, sent.sends, fun _ => ?_, fun sends => ?_⟩
    · rw [issues_storeSlot, sent.log]
      simp [bumpSeqno, bumpTag]
    · simp only [storeSlot, World.emit, sent.slots]
      rfl
    · rw [tagsFrom]
      simp [tagAt_zero]
    · have same : (storeSlot (push (bumpSeqno (bumpTag world))
          (sealTlp (world.client.seqno + 1) tport)).2 world.client.readTag cb).client.readTag =
          (push (bumpSeqno (bumpTag world))
            (sealTlp (world.client.seqno + 1) tport)).2.client.readTag := rfl
      rw [same, sent.readTag sends]
      apply Fin.ext
      simp [bumpSeqno, bumpTag, tagAt, Fin.val_add]

theorem Issues.refl (world : World σ) : Issues world world [] :=
  .none (List.append_nil _).symm (List.forall_mem_nil _) rfl rfl id

theorem issues_registered {world : World σ} {client : Client}
    (same : SameLink client world.client) :
    Issues world { world with client := client } [] :=
  .none (List.append_nil _).symm (List.forall_mem_nil _) same.completionCb same.readTag id

theorem issues_sentTlp (world : World σ) (packet : Bytes) :
    Issues world (push (bumpSeqno world) packet).2 [] := by
  have counted : Issues world (bumpSeqno world) [] :=
    .none (List.append_nil _).symm (List.forall_mem_nil _) rfl rfl id
  exact counted.trans (issues_push _ _)

theorem CallStep.issues {world next : World σ} (step : CallStep world next) :
    ∃ reads, Issues world next reads := by
  cases step with
  | registered client same => exact ⟨[], issues_registered same⟩
  | sentWrite tport block => exact ⟨[], issues_sentTlp world _⟩
  | sentRead tport cb block => exact issues_sentRead world tport cb

def Call.isRead : Call → Bool
  | .read .. | .config0Read .. => true
  | _ => false

theorem Call.run_readless {world next : World σ} {call : Call} {rc : Int}
    (readless : call.isRead = false) (ok : call.run world = .ok (rc, next)) :
    Issues world next [] := by
  have written {junk : Nat → Byte} {type : PcieTlpType} (isWrite : WriteType type)
      {addr : BitVec 64} {data : Bytes} {length : Int}
      (sent : warppipeWriteImp world junk addr data length type = .ok (rc, next)) :
        Issues world next [] := by
    obtain ⟨tport, -, rfl⟩ := writeImp_pushes isWrite sent
    exact issues_sentTlp world _
  cases call with
  | registerBar bar barSize barIdx readCb writeCb =>
      cases ok
      exact issues_registered (sameLink_registerBar ..)
  | registerConfig0ReadCb readCb =>
      cases ok
      exact issues_registered ⟨rfl, rfl, rfl, rfl, rfl, rfl⟩
  | registerConfig0WriteCb writeCb =>
      cases ok
      exact issues_registered ⟨rfl, rfl, rfl, rfl, rfl, rfl⟩
  | read barIdx addr length cb => cases readless
  | config0Read addr length cb => cases readless
  | write junk barIdx addr data length =>
      simp only [Call.run, warppipeWrite] at ok
      split at ok
      · cases ok
        exact .refl world
      · exact written (Or.inl rfl) ok
  | config0Write junk addr data length => exact written (Or.inr rfl) ok

theorem runCalls_issues {world final : World σ} {calls : List Call}
    (ok : runCalls world calls = .ok final) :
    ∃ reads, Issues world final reads ∧ ((∀ call ∈ calls, call.isRead = false) → reads = []) := by
  induction calls generalizing world with
  | nil =>
      cases ok
      exact ⟨[], .refl _, fun _ => rfl⟩
  | cons call rest ih =>
      simp only [runCalls, bind, Except.bind] at ok
      split at ok
      · cases ok
      · rename_i result ran
        obtain ⟨late, later, silent⟩ := ih ok
        cases kind : call.isRead with
        | false =>
            have first := Call.run_readless kind ran
            exact ⟨late, first.trans later, fun none => silent fun other member =>
              none other (List.mem_cons_of_mem _ member)⟩
        | true =>
            obtain ⟨early, first⟩ := (Call.run_ok ran).issues
            refine ⟨early ++ late, first.trans later, fun none => ?_⟩
            rw [none call (by simp)] at kind
            cases kind

end WarpPipe
