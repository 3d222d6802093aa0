import WarpPipe.HostPrograms

/-!
The turns of a host and of the device behind its connection, said in the terms of direct access.
-/

namespace WarpPipe

open ByteLayout

variable {σ α : Type}

section

variable {world : World σ} (sends : world.sock.SendsAll) (recvs : world.sock.recvs = [])

theorem call_silent {call : Call} {code : Int} {registry : Registry}
    (effect : call.effect world.client.registry = .silent code registry) :
    ∃ after, call.run world = .ok (code, after) ∧ after.log = world.log ∧ after.sock = world.sock ∧
      after.standing = { world.standing with registry := registry } := by
  cases call with
  | registerBar bar barSize barIdx readCb writeCb =>
      cases effect
      obtain ⟨slots, active⟩ := registerBar_keeps world.client bar barSize barIdx readCb writeCb
      have code : (warppipeRegisterBar world.client bar barSize barIdx readCb writeCb).1 =
          if world.client.bar barIdx ≠ 0 then -1
          else if barSize = 0 ∨ barSize &&& (barSize - 1) ≠ 0 then -1 else 0 := by
        simp only [warppipeRegisterBar]
        split
        · rfl
        · split <;> rfl
      refine ⟨{ world with client := (warppipeRegisterBar world.client bar barSize barIdx
          readCb writeCb).2 },
        ?_, rfl, rfl, ?_⟩
      · rw [show world.client.registry.bar = world.client.bar from rfl, ← code]
        rfl
      · simp only [World.standing, slots, active, registry_registerBar]
  | registerConfig0ReadCb readCb =>
      cases effect
      exact ⟨_, rfl, rfl, rfl, rfl⟩
  | registerConfig0WriteCb writeCb =>
      cases effect
      exact ⟨_, rfl, rfl, rfl, rfl⟩
  | read barIdx addr length cb =>
      simp only [Call.effect] at effect
      split at effect
      · rename_i unset
        cases effect
        exact ⟨world, if_pos unset, rfl, rfl, rfl⟩
      · cases effect
  | config0Read addr length cb => cases effect
  | write junk barIdx addr data length =>
      simp only [Call.effect] at effect
      split at effect
      · rename_i unset
        cases effect
        exact ⟨world, if_pos unset, rfl, rfl, rfl⟩
      · cases effect
  | config0Write junk addr data length => cases effect

include sends recvs

theorem readImp_relays (space : Space) {addr : BitVec 64} {length : Nat}
    (access : Encodable addr length) (short : length ≤ 4095) (cb : Option FnPtr) :
    ∃ after parcel, warppipeReadImp world addr length cb space.readRequest = .ok (0, after) ∧
      parcel.content = .message (.read space addr length world.client.readTag) ∧
      Relayed world after [] [parcel] ∧
      after.standing = { world.standing with
        slots := Function.update world.client.completionCb world.client.readTag cb } := by
  have carries := carries_read space (world.client.seqno + 1) world.client.readTag access
  have pushed := push_all (show (bumpSeqno (bumpTag world)).sock.SendsAll from sends)
    (readPacketOf world space.readRequest addr length)
  have kept := send_incoming world.sock (readPacketOf world space.readRequest addr length)
  rw [warppipeReadImp_eq world space.isRead, afterRead, pushed, if_neg (by simp only; omega)]
  exact ⟨_, messageParcel carries short, rfl, rfl,
    .of_log (List.append_assoc _ _ _) rfl kept.1.symm (kept.2.trans recvs) (sends.send _).2, rfl⟩

theorem writeImp_relays (cbs : Callbacks σ) (space : Space) (junk : Nat → Byte) {addr : BitVec 64}
    (data : Bytes) {length : Nat} (available : length ≤ data.length)
    (access : Encodable addr length) :
    ∃ after parcel, warppipeWriteImp world junk addr data length space.writeRequest =
        .ok (0, after) ∧
      parcel.content = .message (.write space addr (data.take length)) ∧
      Relayed world after [] [parcel] ∧ after.standing = world.standing := by
  obtain ⟨after, parcel, ran, content, turned⟩ :=
    writeImp_turn cbs sends recvs space junk data available access
  refine ⟨after, parcel, ran, content, turned.relayed, turned.standing.trans ?_⟩
  obtain ⟨events, turn, -⟩ := turned.turn
  generalize after.view = view at turn
  cases turn with
  | issuedRead _ _ _ _ _ said => cases content.symm.trans said
  | issuedWrite => rfl

theorem call_post (cbs : Callbacks σ) {call : Call} {post : Post}
    (proper : call.Proper world.client.registry)
    (effect : call.effect world.client.registry = .post post) :
    ∃ after parcel, call.run world = .ok (0, after) ∧ parcel.content = .message post.message ∧
      Relayed world after [] [parcel] ∧ after.standing = world.standing := by
  cases call with
  | write junk barIdx addr data length =>
      simp only [Call.effect] at effect
      split at effect
      · cases effect
      · rename_i set
        cases effect
        obtain ⟨available, access⟩ := proper set
        have positive := access.positive
        obtain ⟨after, parcel, ran, content, relayed, standing⟩ :=
          writeImp_relays sends recvs cbs .memory junk data (by omega) access
        rw [Int.toNat_of_nonneg (by omega)] at ran
        exact ⟨after, parcel, (if_neg set).trans ran, content, relayed, standing⟩
  | config0Write junk addr data length =>
      cases effect
      obtain ⟨available, access⟩ := proper
      have positive := access.positive
      obtain ⟨after, parcel, ran, content, relayed, standing⟩ :=
        writeImp_relays sends recvs cbs .config0 junk data (by omega) access
      rw [Int.toNat_of_nonneg (by omega)] at ran
      exact ⟨after, parcel, ran, content, relayed, standing⟩
  | read barIdx addr length cb =>
      simp only [Call.effect] at effect
      split at effect <;> cases effect
  | registerBar => cases effect
  | registerConfig0ReadCb => cases effect
  | registerConfig0WriteCb => cases effect
  | config0Read => cases effect

theorem call_ask {call : Call} {space : Space} {addr : BitVec 64} {length : Nat} {cb : Option FnPtr}
    (proper : call.Proper world.client.registry)
    (effect : call.effect world.client.registry = .ask space addr length cb) :
    ∃ after parcel, call.run world = .ok (0, after) ∧
      parcel.content = .message (.read space addr length world.client.readTag) ∧
      Relayed world after [] [parcel] ∧
      after.standing = { world.standing with
        slots := Function.update world.client.completionCb world.client.readTag cb } := by
  cases call with
  | read barIdx addr length cb =>
      simp only [Call.effect] at effect
      split at effect
      · cases effect
      · rename_i set
        cases effect
        obtain ⟨short, access⟩ := proper set
        have positive := access.positive
        obtain ⟨after, parcel, ran, content, relayed, standing⟩ :=
          readImp_relays sends recvs .memory access (by omega) cb
        rw [Int.toNat_of_nonneg (by omega)] at ran
        exact ⟨after, parcel, (if_neg set).trans ran, content, relayed, standing⟩
  | config0Read addr length cb =>
      cases effect
      obtain ⟨short, access⟩ := proper
      have positive := access.positive
      obtain ⟨after, parcel, ran, content, relayed, standing⟩ :=
        readImp_relays sends recvs .config0 access (by omega) cb
      rw [Int.toNat_of_nonneg (by omega)] at ran
      exact ⟨after, parcel, ran, content, relayed, standing⟩
  | write junk barIdx addr data length =>
      simp only [Call.effect] at effect
      split at effect <;> cases effect
  | registerBar => cases effect
  | registerConfig0ReadCb => cases effect
  | registerConfig0WriteCb => cases effect
  | config0Write => cases effect

end

/-- Read callbacks make no requests, and write callbacks only register BARs. -/
structure Callbacks.Mild (cbs : Callbacks σ) : Prop where
  read : ∀ cb app addr length, (cbs.read cb app addr length).calls = []
  write : ∀ cb app addr data length, ∀ call ∈ (cbs.write cb app addr data length).calls,
    ∃ bar barSize barIdx readCb writeCb, call = .registerBar bar barSize barIdx readCb writeCb

section

variable {cbs : Callbacks σ} (mild : cbs.Mild) {world : World σ} {parcel : Parcel} {rest : Bytes}
variable (sends : world.sock.SendsAll) (next : Next world.sock parcel.bytes rest [])

include mild sends next

theorem post_relays {post : Post} (content : parcel.content = .message post.message) :
    ∃ after, warppipeClientRead cbs world = .ok after ∧
      Relayed world after [parcel] [ackParcel parcel.bytes] ∧
      after.standing = { world.standing with
        app := (serveWrite cbs (world.app, world.client.registry) post).1
        registry := (serveWrite cbs (world.app, world.client.registry) post).2 } := by
  cases found : world.client.writeRoute post.space (post.addr &&& ~~~3) with
  | mk cb target =>
      have route :=
        (writeRoute_registry world.client post.space (post.addr &&& ~~~3)).symm.trans found
      cases cb with
      | none =>
          have unserved : Unserved world.client post.message := congrArg Prod.fst found
          obtain ⟨after, read, turned⟩ := @passed_turn _ cbs _ _ _ sends next _ content unserved
          refine ⟨after, read, turned.relayed, turned.standing.trans ?_⟩
          obtain ⟨events, turn, -⟩ := turned.turn
          simp only [serveWrite, route]
          generalize after.view = view at turn
          cases turn with
          | passed => rfl
          | wrote _ _ _ _ _ _ said routed =>
              cases content.symm.trans said
              rw [found] at routed
              cases routed
          | ended _ _ _ _ said => cases content.symm.trans said
      | some cb =>
          have said := parcel.carries
          rw [content] at said
          obtain ⟨pkt, -, read⟩ := clientRead_serve cbs (said.1.arrives next) said.1
          obtain ⟨sock, incoming, schedule, still, acked⟩ := acked_all sends parcel.bytes rest []
          have routed : (world.acked parcel.bytes rest []).client.writeRoute post.space
              (post.addr &&& ~~~3) = (some cb, target) := by
            rw [acked, ← found]
            exact writeRoute_congr rfl _ _
          simp only [serve, Post.message, routed, invokeWrite] at read
          rw [acked] at read
          obtain ⟨client, ran, slots, active⟩ := runCalls_registers
            (World.emit
              { client := { world.client with buf := world.client.buf.store 0 parcel.bytes }
                sock := sock
                app := (cbs.write cb world.app (target + misalignment post.addr) post.data
                  post.data.length).app
                log := world.log ++ [.packet parcel.bytes,
                  .sent (ackOf parcel.bytes) (ackOf parcel.bytes).length] }
              (.writeCb cb (target + misalignment post.addr) post.data post.data.length))
            (mild.write cb world.app (target + misalignment post.addr) post.data post.data.length)
          have registry := runCalls_registry ran
          refine ⟨_, read.trans ran, ⟨?_, ?_, schedule, still⟩, ?_⟩
          · rw [transferred, fresh_eq (List.append_assoc _ _ _)]
            simp [ackParcel, Event.output]
          · rw [next.stream, List.flatMap_singleton]
            exact congrArg _ incoming.symm
          · simp only [World.standing, slots, active, registry, serveWrite, route]
            rfl

theorem ask_relays {space : Space} {addr : BitVec 64} {length : Nat} {tag : Fin 32} {data : Bytes}
    {app : σ} (content : parcel.content = .message (.read space addr length tag))
    (answer : serveRead cbs (world.app, world.client.registry) space addr length =
      some (data, app)) :
    ∃ after reply, warppipeClientRead cbs world = .ok after ∧
      Relayed world after [parcel] [ackParcel parcel.bytes, reply] ∧
      reply.content = .message (.completion tag data) ∧
      after.standing = { world.standing with app := app } := by
  cases found : world.client.readRoute space (addr &&& ~~~3) with
  | mk cb target =>
      have route := (readRoute_registry world.client space (addr &&& ~~~3)).symm.trans found
      simp only [serveRead, route] at answer
      cases cb with
      | none => cases answer
      | some cb =>
          simp only [] at answer
          split at answer
          · rename_i fine
            cases answer
            obtain ⟨after, reply, read, turned⟩ :=
              asked_turn sends next content found (mild.read cb)
            obtain ⟨events, turn, -⟩ := turned.turn
            obtain ⟨other, said, pushed, view, -⟩ := turn.of_read content found rfl
            cases pushed
            refine ⟨after, reply, read, turned.relayed, ?_, turned.standing.trans ?_⟩
            · rw [said, answerOf, if_pos fine]
            · rw [view]
              rfl
          · cases answer

end

end WarpPipe
