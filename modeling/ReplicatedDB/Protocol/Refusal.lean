import ReplicatedDB.Protocol.Acceptor

/-!
# What a refused request leaves behind

A request is refused because its deadline has passed when the handler starts, because a larger
proposal id was promised, or because a larger round is logged. The first test comes before
anything else. The other two come after the handlers have logged the round of the request: an
acceptor adds a log entry when it receives a proposal, and writes down what was accepted when it
hears of a success. So a refused request does not touch the store and the leader register, but
it may leave an entry in the log (`refused_state`).
-/

namespace ReplicatedDB

namespace Message

/-- The handler of the request, with `context->IsCancelled()`. -/
def serve (cancelled : Bool) (m : Message) (s : Replica) : Status × Replica :=
  match m.stage with
  | .propose => ((propose cancelled m.request s).1.1, (propose cancelled m.request s).2)
  | .accept => ((accept cancelled m.request s).1.1, (accept cancelled m.request s).2)
  | .success => success cancelled m.request s

/-- What the handler makes of the entry of the request's round. -/
def record (m : Message) (e : LogEntry) : LogEntry :=
  match m.stage with
  | .propose => e
  | .accept | .success =>
    { e with
      aServerId := m.request.pserverId
      op := m.request.op
      acceptedValue := m.request.value }

theorem serve_false (m : Message) (s : Replica) : m.serve false s = m.handle s := by
  cases h : m.stage <;> simp only [serve, handle, h]

theorem serve_true (m : Message) (s : Replica) : m.serve true s = (.cancelled, s) := by
  cases h : m.stage <;> simp only [serve, h] <;> rfl

/-- A request that is handled is logged, whatever becomes of it. -/
theorem paxLog_handle (m : Message) (s : Replica) :
    (m.handle s).2.paxLog = s.paxLog.modify m.request.key m.request.round m.record := by
  cases h : m.stage with
  | propose =>
    have hrecord : m.record = id := funext fun e ↦ by simp [record, h]
    simp only [handle, h, propose_state, hrecord]
    rfl
  | accept =>
    have hrecord : m.record = fun e ↦ { e with
        aServerId := m.request.pserverId, op := m.request.op
        acceptedValue := m.request.value } := funext fun e ↦ by simp [record, h]
    simp only [handle, h, accept_state, hrecord]
    rfl
  | success =>
    have hrecord : m.record = fun e ↦ { e with
        aServerId := m.request.pserverId, op := m.request.op
        acceptedValue := m.request.value } := funext fun e ↦ by simp [record, h]
    simp only [handle, h, success_state _ _ m.le_round, hrecord]
    rfl

/-- A request that is refused is not applied. -/
theorem handle_refused {m : Message} {s : Replica} (h : ¬ (m.handle s).1.Ok) :
    (m.handle s).2 =
      { s with paxLog := s.paxLog.modify m.request.key m.request.round m.record } := by
  rw [← paxLog_handle]
  cases hstage : m.stage with
  | propose => simp only [handle, hstage, propose_state]
  | accept => simp only [handle, hstage, accept_state]
  | success =>
    have hcur : ¬ Current m.request s := mt (handle_ok m s hstage).2 h
    simp only [handle, hstage, success_state _ _ m.le_round, hcur, false_and, if_false]

end Message

/-- **What a refused request leaves behind.** The store and the leader register are as they were.
A request whose deadline has passed leaves the log as it was too. Otherwise the log is the one
before, with an entry for the round of the request: a proposal adds it if there is none, a
success request writes what was accepted to it. -/
theorem refused_state (cancelled : Bool) (m : Message) (s : Replica)
    (h : ¬ (m.serve cancelled s).1.Ok) :
    (m.serve cancelled s).2.kvStore = s.kvStore ∧
    (m.serve cancelled s).2.leader = s.leader ∧
    (cancelled → (m.serve cancelled s).2 = s) ∧
    (¬ cancelled → m.stage ≠ .accept ∧
      (m.serve cancelled s).2.paxLog =
        s.paxLog.modify m.request.key m.request.round m.record ∧
      ((m.serve cancelled s).2.paxLog = s.paxLog ↔
        m.request.round ∈ (s.log m.request.key).keys ∧
        m.record ((s.log m.request.key).entry m.request.round) =
          (s.log m.request.key).entry m.request.round)) := by
  cases cancelled with
  | true =>
    rw [Message.serve_true]
    exact ⟨rfl, rfl, fun _ ↦ rfl, fun hnot ↦ absurd rfl hnot⟩
  | false =>
    rw [Message.serve_false] at h ⊢
    have hstate := Message.handle_refused h
    rw [hstate]
    refine ⟨rfl, rfl, fun hcancelled ↦ absurd hcancelled (by decide), fun _ ↦
      ⟨fun haccept ↦ h ?_, rfl, PaxLog.modify_eq_self_iff⟩⟩
    rw [Message.handle, haccept]
    exact Status.ok_default

/-- A node that got a proposal of round 1, but nothing of round 0. -/
def ahead : Replica := ({} : Replica).process
  [⟨.propose, { key := "k", value := "w", round := 1, pserverId := 1 }, by decide, by decide⟩]

/-- The success request of round 0, which comes late. -/
def lateSuccess : Message :=
  ⟨.success, { key := "k", value := "v", pserverId := 1, op := .set }, by decide, by decide⟩

/-- The late success request is refused, and writes what was accepted to the log. -/
theorem refused_state_ahead :
    (lateSuccess.serve false ahead).2.kvStore = ahead.kvStore ∧
    (lateSuccess.serve false ahead).2.paxLog =
      ahead.paxLog.modify "k" 0 fun e ↦
        { e with aServerId := 1, op := .set, acceptedValue := "v" } := by
  obtain ⟨hkv, -, -, hlog⟩ := refused_state false lateSuccess ahead (by decide)
  exact ⟨hkv, (hlog (by decide)).2.1⟩

/-- The late success request is refused, and the node is not as it was: a round is logged that
was not logged before. -/
theorem not_unchanged_ahead :
    ¬ (lateSuccess.serve false ahead).1.Ok ∧ (lateSuccess.serve false ahead).2 ≠ ahead := by
  refine ⟨by decide, fun h ↦ ?_⟩
  have hmem : (0 : ℤ) ∈ ((lateSuccess.serve false ahead).2.log "k").keys := by decide
  rw [h] at hmem
  exact absurd hmem (by decide)

end ReplicatedDB
