import WarpPipe.ReadRuns
import WarpPipe.Slots

/-!
Reads issued back to back, whose completions then arrive in any order. The tags come from a counter
of five bits, so that 32 reads have different tags and more do not.
-/

namespace WarpPipe

open ByteLayout SlotTable

variable {σ : Type}

inductive ReadCall where
  | memory (barIdx : Fin 6) (addr : BitVec 64) (length : Int) (cb : FnPtr)
  | config0 (addr : BitVec 64) (length : Int) (cb : FnPtr)

def ReadCall.call : ReadCall → Call
  | .memory barIdx addr length cb => .read barIdx addr length (some cb)
  | .config0 addr length cb => .config0Read addr length (some cb)

def ReadCall.cb : ReadCall → FnPtr
  | .memory _ _ _ cb | .config0 _ _ cb => cb

def issueAll (world : World σ) : List ReadCall → Outcome (List Int × World σ)
  | [] => .ok ([], world)
  | read :: rest => do
    let (rc, world) ← read.call.run world
    let (codes, world) ← issueAll world rest
    return (rc :: codes, world)

def slotWrites (first : Fin 32) : List ReadCall → List (Fin 32 × Option FnPtr)
  | [] => []
  | read :: rest => (first, some read.cb) :: slotWrites (tagAt first 1) rest

theorem map_fst_slotWrites (first : Fin 32) (reads : List ReadCall) :
    (slotWrites first reads).map Prod.fst = tagsFrom first reads.length := by
  induction reads generalizing first with
  | nil => rfl
  | cons read rest ih =>
      rw [slotWrites, List.map_cons, ih, List.length_cons, Nat.add_comm rest.length 1, tagsFrom_add]
      simp [tagsFrom, tagAt_zero]

theorem mem_slotWrites (first : Fin 32) {reads : List ReadCall} {index : Nat} {read : ReadCall}
    (found : reads[index]? = some read) :
    (tagAt first index, some read.cb) ∈ slotWrites first reads := by
  induction reads generalizing first index with
  | nil => cases found
  | cons other rest ih =>
      rw [slotWrites, List.mem_cons]
      cases index with
      | zero =>
          cases found
          exact Or.inl (by rw [tagAt_zero])
      | succ index =>
          refine Or.inr ?_
          have later := ih (tagAt first 1) (by simpa using found)
          rwa [tagAt_tagAt, Nat.add_comm] at later

theorem readImp_zero {world next : World σ} {type : PcieTlpType} (isRead : ReadType type)
    {addr : BitVec 64} {length : Int} {cb : Option FnPtr}
    (ok : warppipeReadImp world addr length cb type = .ok (0, next)) :
    next.client.completionCb = Function.update world.client.completionCb world.client.readTag cb ∧
      next.client.readTag = tagAt world.client.readTag 1 := by
  rw [warppipeReadImp_eq world isRead, Except.ok.injEq, afterRead] at ok
  split at ok
  · cases ok
  · cases ok
    have pushed (packet : Bytes) : (push (bumpSeqno (bumpTag world)) packet).2.client.completionCb =
        world.client.completionCb ∧
        (push (bumpSeqno (bumpTag world)) packet).2.client.readTag = world.client.readTag + 1 := by
      rw [push_client]
      split <;> exact ⟨rfl, rfl⟩
    refine ⟨?_, ?_⟩
    · simp only [storeSlot, World.emit, (pushed _).1]
    · refine (pushed _).2.trans (Fin.ext ?_)
      simp [tagAt, Fin.val_add]

theorem ReadCall.run_zero {world next : World σ} {read : ReadCall}
    (ok : read.call.run world = .ok (0, next)) :
    next.client.completionCb =
        Function.update world.client.completionCb world.client.readTag (some read.cb) ∧
      next.client.readTag = tagAt world.client.readTag 1 := by
  cases read with
  | memory barIdx addr length cb =>
      simp only [ReadCall.call, Call.run, warppipeRead] at ok
      split at ok
      · cases ok
      · exact readImp_zero (Or.inl rfl) ok
  | config0 addr length cb => exact readImp_zero (Or.inr rfl) ok

theorem issueAll_ok {world issued : World σ} {reads : List ReadCall} {codes : List Int}
    (ok : issueAll world reads = .ok (codes, issued)) (success : ∀ rc ∈ codes, rc = 0) :
    issued.client.completionCb =
        storeAll world.client.completionCb (slotWrites world.client.readTag reads) ∧
      Undisturbed world issued := by
  induction reads generalizing world codes with
  | nil =>
      cases ok
      exact ⟨rfl, .refl _⟩
  | cons read rest ih =>
      simp only [issueAll, bind, Except.bind, pure, Except.pure] at ok
      split at ok
      · cases ok
      · rename_i result ran
        obtain ⟨rc, next⟩ := result
        split at ok
        · cases ok
        · rename_i tail issuedRest
          obtain ⟨later, final⟩ := tail
          cases ok
          obtain ⟨slots, undisturbed⟩ := ih issuedRest fun code member =>
            success code (List.mem_cons_of_mem _ member)
          have zero : rc = 0 := success rc (by simp)
          subst zero
          obtain ⟨stored, readTag⟩ := ReadCall.run_zero ran
          refine ⟨?_, (Call.run_ok ran).undisturbed.trans undisturbed⟩
          rw [slots, stored, readTag]
          rfl

structure Answer where
  read : Nat
  packet : Bytes
  data : Bytes

def Answer.tag (first : Fin 32) (answer : Answer) : Fin 32 := tagAt first answer.read

def Answer.event (first : Fin 32) (answer : Answer) (cb : FnPtr) : Event :=
  .completion (answer.tag first) cb 0 answer.data answer.data.length

/-- Completion callbacks make no reads of their own, and no request that C does not define. -/
def Callbacks.Unnested (cbs : Callbacks σ) : Prop :=
  ∀ cb app error data length, ∀ call ∈ (cbs.completion cb app error data length).calls,
    call.Valid ∧ call.isRead = false

theorem completion_unnested {cbs : Callbacks σ} (unnested : cbs.Unnested) {world : World σ}
    (waiting : Waiting world) {packet : Bytes} {tag : Fin 32} {data : Bytes}
    (carries : Carries packet (.completion tag data)) :
    ∃ final, clientStep cbs world (.receive packet) = .ok final ∧ Waiting final ∧
      world.log <+: final.log ∧
      final.client.completionCb = Function.update world.client.completionCb tag none ∧
      invocations world final =
        ((world.client.completionCb tag).map fun cb =>
          Event.completion tag cb 0 data data.length).toList := by
  have next := waiting.next packet
  have served : ∃ final, warppipeClientRead cbs (world.arrive packet) = .ok final := by
    obtain ⟨pkt, -, read⟩ := clientRead_serve cbs (carries.arrives next) carries
    rw [read, serve]
    cases ((world.arrive packet).acked packet [] []).client.completionCb tag with
    | none => exact ⟨_, rfl⟩
    | some cb =>
        simp only [invokeCompletion]
        obtain ⟨final, ran⟩ :=
          runCalls_valid _ fun call member => (unnested _ _ _ _ _ call member).1
        exact ⟨_, by rw [ran]; rfl⟩
  obtain ⟨final, read⟩ := served
  obtain ⟨middle, reads, issues, incoming, recvs, slots, -, -, sock, invoked, readless⟩ :=
    completion_issues carries next read
  obtain rfl := readless fun cb app call member => (unnested _ _ _ _ _ call member).2
  refine ⟨final, read, ⟨by rw [sock, incoming], by rw [sock, recvs]⟩,
    (clientRead_ok read).grows, ?_, ?_⟩
  · rw [slots, issues.slots]
    rfl
  · refine invoked.trans ?_
    rw [show (world.arrive packet).client.completionCb tag = world.client.completionCb tag from rfl]
    cases world.client.completionCb tag <;> rfl

theorem deliver_answers {cbs : Callbacks σ} (unnested : cbs.Unnested) (first : Fin 32)
    {world : World σ} (waiting : Waiting world) {answers : List Answer}
    (carry : ∀ answer ∈ answers,
      Carries answer.packet (.completion (answer.tag first) answer.data)) :
    ∃ final, Runs.run (clientStep cbs) world
        (answers.map fun answer => .receive answer.packet) = .ok final ∧
      world.log <+: final.log ∧
      invocations world final =
        (List.zipWith (fun answer slot => (slot.map (answer.event first)).toList) answers
          (takeAll world.client.completionCb (answers.map (Answer.tag first)))).flatten := by
  induction answers generalizing world with
  | nil => exact ⟨world, rfl, List.prefix_rfl, by rw [invocations, fresh, List.drop_length]; rfl⟩
  | cons answer rest ih =>
      obtain ⟨next, step, still, grows, slots, invoked⟩ :=
        completion_unnested unnested waiting (carry answer (by simp))
      obtain ⟨final, ran, later, invokedLater⟩ := ih still fun other member =>
        carry other (List.mem_cons_of_mem _ member)
      refine ⟨final, by rw [List.map_cons, Runs.run_cons step, ran], grows.trans later, ?_⟩
      rw [invocations_trans grows later, invoked, invokedLater, slots]
      rfl

def expectedEvents (first : Fin 32) (reads : List ReadCall) (answers : List Answer) : List Event :=
  answers.filterMap fun answer => reads[answer.read]?.map fun read => answer.event first read.cb

structure Delivered (first : Fin 32) (reads : List ReadCall) (answers : List Answer)
    (issued final : World σ) : Prop where
  kept : ∀ index read, reads[index]? = some read →
    issued.client.completionCb (tagAt first index) = some read.cb
  invoked : invocations issued final = expectedEvents first reads answers

section

variable {first : Fin 32} {reads : List ReadCall} {answers : List Answer}

theorem answered_read (each : (answers.map Answer.read).Perm (List.range reads.length))
    {answer : Answer} (member : answer ∈ answers) : ∃ read, reads[answer.read]? = some read := by
  have inside := each.subset (List.mem_map_of_mem member)
  rw [List.mem_range] at inside
  exact ⟨reads[answer.read], List.getElem?_eq_getElem inside⟩

theorem answer_tags (each : (answers.map Answer.read).Perm (List.range reads.length)) :
    (answers.map (Answer.tag first)).Perm (tagsFrom first reads.length) := by
  have mapped := each.map (tagAt first)
  rwa [List.map_map] at mapped

theorem length_expectedEvents (each : (answers.map Answer.read).Perm (List.range reads.length)) :
    (expectedEvents first reads answers).length = reads.length := by
  have all : ∀ answer ∈ answers,
      (reads[answer.read]?.map fun read => answer.event first read.cb).isSome := by
    intro answer member
    obtain ⟨read, found⟩ := answered_read each member
    rw [found]
    rfl
  rw [expectedEvents, List.length_filterMap_eq_countP, List.countP_eq_length.mpr all]
  simpa using each.length_eq

theorem length_delivered (slots : List (Option FnPtr)) (same : slots.length = answers.length) :
    (List.zipWith (fun answer slot => (slot.map (answer.event first)).toList) answers
      slots).flatten.length = slots.countP Option.isSome := by
  induction answers generalizing slots with
  | nil =>
      obtain rfl := List.length_eq_zero_iff.mp same
      rfl
  | cons answer rest ih =>
      cases slots with
      | nil => cases same
      | cons slot later =>
          have restLength := ih later (Nat.succ.inj same)
          rw [List.zipWith_cons_cons, List.flatten_cons, List.length_append, restLength,
            List.countP_cons]
          cases slot with
          | none => simp
          | some cb => simp [Nat.add_comm]

theorem delivered_distinct {table : Fin 32 → Option FnPtr}
    (distinct : (answers.map (Answer.tag first)).Nodup)
    (found : ∀ answer ∈ answers, ∃ read, reads[answer.read]? = some read ∧
      table (answer.tag first) = some read.cb) :
    (List.zipWith (fun answer slot => (slot.map (answer.event first)).toList) answers
      (takeAll table (answers.map (Answer.tag first)))).flatten =
        expectedEvents first reads answers := by
  rw [takeAll_distinct distinct]
  clear distinct
  induction answers with
  | nil => rfl
  | cons answer rest ih =>
      obtain ⟨read, asked, held⟩ := found answer (by simp)
      have later := ih fun other member => found other (List.mem_cons_of_mem _ member)
      rw [List.map_cons, List.map_cons, List.zipWith_cons_cons, List.flatten_cons, later, held,
        expectedEvents, expectedEvents, List.filterMap_cons, asked]
      rfl

end

/-- Reads are issued back to back and their completions arrive in any order. Every one of them
reaches the callback of its read exactly if there are at most 32. -/
theorem pipelined_reads_iff {cbs : Callbacks σ} (unnested : cbs.Unnested) {world issued : World σ}
    (waiting : Waiting world) {reads : List ReadCall} {codes : List Int}
    (ok : issueAll world reads = .ok (codes, issued))
    (success : ∀ rc ∈ codes, rc = 0) {answers : List Answer}
    (each : (answers.map Answer.read).Perm (List.range reads.length))
    (carry : ∀ answer ∈ answers,
      Carries answer.packet (.completion (answer.tag world.client.readTag) answer.data)) :
    ∃ final, Runs.run (clientStep cbs) issued
        (answers.map fun answer => .receive answer.packet) = .ok final ∧
      (Delivered world.client.readTag reads answers issued final ↔ reads.length ≤ 32) := by
  obtain ⟨slots, undisturbed⟩ := issueAll_ok ok success
  obtain ⟨final, ran, -, invoked⟩ :=
    deliver_answers unnested world.client.readTag (waiting.undisturbed undisturbed) carry
  have tags : (answers.map (Answer.tag world.client.readTag)).Perm _ := answer_tags each
  refine ⟨final, ran, fun delivered => ?_, fun few => ?_⟩
  · -- each completion found a callback, so the tags are different
    have total := congrArg List.length (invoked.symm.trans delivered.invoked)
    rw [length_delivered _ (by simp), length_expectedEvents each] at total
    have found : none ∉ takeAll issued.client.completionCb
        (answers.map (Answer.tag world.client.readTag)) := by
      intro missing
      have all := List.countP_eq_length.mp (total.trans (by simpa using each.length_eq.symm))
      exact absurd (all none missing) (by decide)
    have distinct := (distinct_of_takeAll found).length_le_card
    rw [tags.length_eq, tagsFrom, List.length_map, List.length_range, Fintype.card_fin] at distinct
    exact distinct
  · have distinct := tagsFrom_nodup world.client.readTag few
    have kept : ∀ index read, reads[index]? = some read →
        issued.client.completionCb (tagAt world.client.readTag index) = some read.cb := by
      intro index read found
      rw [slots]
      apply storeAll_of_mem
      · rw [map_fst_slotWrites]
        exact distinct
      · exact mem_slotWrites _ found
    refine ⟨kept,
      invoked.trans (delivered_distinct (tags.nodup_iff.mpr distinct) fun answer member => ?_)⟩
    obtain ⟨read, found⟩ := answered_read each member
    exact ⟨read, found, kept _ _ found⟩

def codesOf : Outcome (List Int × World σ) → Option (List Int)
  | .ok (codes, _) => some codes
  | .error _ => none

theorem codesOf_some {result : Outcome (List Int × World σ)} {codes : List Int}
    (found : codesOf result = some codes) : ∃ issued, result = .ok (codes, issued) := by
  cases result with
  | error fault => cases found
  | ok pair =>
      cases found
      exact ⟨pair.2, rfl⟩

theorem silent_unnested : (silentCallbacks : Callbacks σ).Unnested := by
  intro cb app error data length
  exact List.forall_mem_nil _

theorem two_reads_delivered :
    ∃ issued final, issueAll (clientWith []) [.config0 0 1 5, .config0 0 1 6] =
        .ok ([0, 0], issued) ∧
      Runs.run (clientStep silentCallbacks) issued
        [.receive (unsolicited 1), .receive (unsolicited 0)] = .ok final ∧
      Delivered 0 [.config0 0 1 5, .config0 0 1 6]
        [⟨1, unsolicited 1, [0]⟩, ⟨0, unsolicited 0, [0]⟩] issued final := by
  obtain ⟨issued, ok⟩ := codesOf_some (show codesOf (issueAll (clientWith [])
    [.config0 0 1 5, .config0 0 1 6]) = some [0, 0] by decide +kernel)
  have carry : ∀ answer ∈ [Answer.mk 1 (unsolicited 1) [0], ⟨0, unsolicited 0, [0]⟩],
      Carries answer.packet
        (.completion (answer.tag (clientWith []).client.readTag) answer.data) := by
    simp only [List.forall_mem_cons]
    exact ⟨carries_unsolicited 1, carries_unsolicited 0, List.forall_mem_nil _⟩
  have each : ([Answer.mk 1 (unsolicited 1) [0], ⟨0, unsolicited 0, [0]⟩].map Answer.read).Perm
      (List.range 2) := List.Perm.swap 0 1 []
  obtain ⟨final, ran, delivered⟩ :=
    pipelined_reads_iff silent_unnested ⟨rfl, rfl⟩ ok (by decide) each carry
  exact ⟨issued, final, ok, ran, delivered.mpr (by decide)⟩

def manyReads : List ReadCall := (List.range 33).map fun cb => .config0 0 1 cb

def wrappedRun : Option (List Int × List Event) :=
  match issueAll (clientWith []) manyReads with
  | .ok (codes, issued) =>
    match Runs.run (clientStep silentCallbacks) issued
        [.receive (unsolicited 0), .receive (unsolicited 0)] with
    | .ok final => some (codes, invocations issued final)
    | .error _ => none
  | .error _ => none

/-- The first and the last of 33 reads share tag 0. The completion of the first goes to the callback
of the last, and that of the last to nobody. -/
theorem wrapped_tag_misdelivers :
    wrappedRun = some (List.replicate 33 0, [.completion 0 32 0 [0] 1]) := by
  decide +kernel

end WarpPipe
