import ReplicatedDB.Model.Log

/-!
# Request handlers

The messages of `consensus_interface.proto`, the state of a node, and the handlers of
`rpc::ConsensusRPC` that make no calls themselves: `propose`, `accept`, `success`, `ping`,
`get_leader`; with `rpc::DatabaseRPC::get_db`. Each is a function from the state of the node to
the answer and the new state; `cancelled` is `context->IsCancelled()`.

What a handler does to the state is said by one lemma each (`propose_state`, `accept_state`,
`success_state`); the later development uses these and does not unfold the handlers again.
-/

namespace ReplicatedDB

/-- The status codes in use. -/
inductive StatusCode where
  | ok
  | cancelled
  | unknown
  | aborted
  | unavailable
deriving DecidableEq

/-- `grpc::Status`. -/
structure Status where
  code : StatusCode := .ok
  message : String := ""
deriving DecidableEq

/-- `Status::ok()`. -/
def Status.Ok (s : Status) : Prop := s.code = .ok

instance (s : Status) : Decidable s.Ok := inferInstanceAs (Decidable (_ = _))

namespace Status

/-- `Status(grpc::StatusCode::ABORTED, message)`. -/
def aborted (message : String) : Status := ⟨.aborted, message⟩

/-- The status of a request whose deadline has passed when its handler starts. -/
def cancelled : Status := ⟨.cancelled, "Deadline exceeded or Client cancelled, abandoning."⟩

/-- The status of a call that failed on the network; only `ok()` of it is ever inspected. -/
def unavailable : Status := ⟨.unavailable, ""⟩

/-- The status gRPC answers when a handler throws. -/
def unknown : Status := ⟨.unknown, "Unexpected error in RPC handling"⟩

@[simp] theorem ok_default : Ok {} := rfl
@[simp] theorem not_ok_aborted (message : String) : ¬ (aborted message).Ok := nofun
@[simp] theorem not_ok_cancelled : ¬ cancelled.Ok := nofun
@[simp] theorem not_ok_unavailable : ¬ unavailable.Ok := nofun
@[simp] theorem not_ok_unknown : ¬ unknown.Ok := nofun

end Status

/-- `consensus_interface::Request`. -/
structure Request where
  key : String := ""
  value : String := ""
  pserverId : ℤ := 0
  aserverId : ℤ := 0
  round : ℤ := 0
  op : Operation := .get
deriving DecidableEq

/-- `consensus_interface::Response`. -/
structure Response where
  value : String := ""
  pserverId : ℤ := 0
  aserverId : ℤ := 0
  round : ℤ := 0
  op : Operation := .get
deriving DecidableEq

/-- The state of a node: `Consensus::pax_log`, `Database::kv_store` and `Cluster::leader`. -/
structure Replica where
  paxLog : PaxLog := ∅
  kvStore : KVStore := ∅
  leader : String := ""

namespace Replica

/-- The rounds a node has logged for a key. -/
def log (s : Replica) (key : String) : Log := s.paxLog.rounds key

end Replica

section Handlers

variable (cancelled : Bool) (request : Request) (s : Replica)

/-- `ConsensusRPC::propose`. -/
def propose : (Status × Response) × Replica :=
  if cancelled then ((.cancelled, {}), s)
  else
    -- add log entry when acceptor receives a proposal
    let paxLog := s.paxLog.setLog request.key request.round
    let (entry, paxLog) := paxLog.getLogEntry request.key request.round
    let s := { s with paxLog := paxLog }
    if entry.pServerId > request.pserverId then
      ((.aborted "Proposal is out of date.", {}), s)
    else if entry.aServerId > 0 then
      -- there exists an accepted value for the given key and round
      (({}, { aserverId := entry.aServerId, op := entry.op, value := entry.acceptedValue }), s)
    else
      (({}, { round := request.round, pserverId := request.pserverId }), s)

/-- `ConsensusRPC::accept`; the test of the promise is commented out in the source. -/
def accept : (Status × Response) × Replica :=
  if cancelled then ((.cancelled, {}), s)
  else
    let (_, paxLog) := s.paxLog.getLogEntry request.key request.round
    let response : Response :=
      { op := request.op, value := request.value, pserverId := request.pserverId,
        aserverId := request.aserverId, round := request.round }
    let paxLog := paxLog.setLogAccept request.key request.round request.pserverId request.op
      request.value
    (({}, response), { s with paxLog := paxLog })

/-- `ConsensusRPC::success`. -/
def success : Status × Replica :=
  if cancelled then (.cancelled, s)
  else
    let paxLog := s.paxLog.setLogAccept request.key request.round request.pserverId request.op
      request.value
    let (log, paxLog) := paxLog.getLog request.key
    let s := { s with paxLog := paxLog }
    if log.largestRoundSoFar > request.round then (.aborted "Information is outdated.", s)
    else if request.key = "leader" then ({}, { s with leader := request.value })
    else ({}, { s with kvStore := s.kvStore.setKV request.key request.value })

/-- `ConsensusRPC::ping`. -/
def ping : Status × Replica := if cancelled then (.cancelled, s) else ({}, s)

/-- `ConsensusRPC::get_leader`. -/
def getLeader : (Status × String) × Replica :=
  if cancelled then ((.cancelled, ""), s) else (({}, s.leader), s)

/-- `DatabaseRPC::get_db`, which does not look at the context. -/
def getDB : KVStore × Replica := (s.kvStore, s)

end Handlers

/-! ### What the handlers do -/

section Lemmas

variable (q : Request) (s : Replica)

/-- The request that an `accept` answers with OK is the one it echoes. -/
def acceptResponse : Response :=
  { op := q.op, value := q.value, pserverId := q.pserverId, aserverId := q.aserverId,
    round := q.round }

/-- A success request may be committed: no larger round of its key is logged. -/
def Current : Prop := ∀ r ∈ (s.log q.key).keys, r ≤ q.round

instance : Decidable (Current q s) := inferInstanceAs (Decidable (∀ _ ∈ _, _))

theorem propose_state :
    (propose false q s).2 = { s with paxLog := s.paxLog.setLog q.key q.round } := by
  have h : (s.paxLog.setLog q.key q.round).setLog q.key q.round =
      s.paxLog.setLog q.key q.round := PaxLog.modify_modify _ _ _ _ _
  simp only [propose, PaxLog.getLogEntry, h, Bool.false_eq_true, if_false]
  split_ifs <;> rfl

/-- The entry `propose` looks at is the one logged before it. -/
theorem entry_setLog (l : PaxLog) (key : String) (round : ℤ) :
    ((l.setLog key round).rounds key).entry round = (l.rounds key).entry round := by
  simp [PaxLog.setLog]

/-- **The answer of `propose`**: a refusal, the accepted entry, or an empty promise. -/
theorem propose_answer :
    (propose false q s).1 =
      if ((s.log q.key).entry q.round).pServerId > q.pserverId then
        (.aborted "Proposal is out of date.", {})
      else if (s.log q.key).Accepted q.round then
        ({}, { aserverId := ((s.log q.key).entry q.round).aServerId
               op := ((s.log q.key).entry q.round).op
               value := ((s.log q.key).entry q.round).acceptedValue })
      else ({}, { round := q.round, pserverId := q.pserverId }) := by
  simp only [propose, PaxLog.getLogEntry, entry_setLog, Bool.false_eq_true, if_false,
    Log.Accepted, Replica.log, gt_iff_lt]
  by_cases hp : q.pserverId < ((s.paxLog.rounds q.key).entry q.round).pServerId
  · simp only [if_pos hp]
  · by_cases ha : 0 < ((s.paxLog.rounds q.key).entry q.round).aServerId
    · simp only [if_neg hp, if_pos ha]
      exact (if_pos ha).symm
    · simp only [if_neg hp, if_neg ha]
      exact (if_neg ha).symm

theorem accept_answer : (accept false q s).1 = ({}, acceptResponse q) := rfl

theorem accept_state :
    (accept false q s).2 =
      { s with paxLog := s.paxLog.setLogAccept q.key q.round q.pserverId q.op q.value } := by
  have h : (s.paxLog.setLog q.key q.round).setLogAccept q.key q.round q.pserverId q.op q.value =
      s.paxLog.setLogAccept q.key q.round q.pserverId q.op q.value :=
    PaxLog.modify_modify _ _ _ _ _
  simp only [accept, PaxLog.getLogEntry, h, Bool.false_eq_true, if_false]

/-- Reading a key that was just logged changes nothing. -/
theorem getLog_setLogAccept (l : PaxLog) (key : String) (round a : ℤ) (op : Operation)
    (value : String) :
    ((l.setLogAccept key round a op value).getLog key).2 =
      l.setLogAccept key round a op value := by
  simp [PaxLog.getLog, PaxLog.setLogAccept, PaxLog.modify]

/-- The round just logged is not larger than itself, so the test of `success` is about the
rounds logged before. -/
theorem largestRoundSoFar_setLogAccept (hround : intMin ≤ q.round) :
    q.round < ((s.paxLog.setLogAccept q.key q.round q.pserverId q.op q.value).rounds
      q.key).largestRoundSoFar ↔ ¬ Current q s := by
  rw [Log.lt_largestRoundSoFar_iff hround, PaxLog.setLogAccept, PaxLog.keys_modify, if_pos rfl]
  simp only [Finset.mem_insert, exists_eq_or_imp, lt_irrefl, false_or, Current, Replica.log,
    not_forall, not_le, exists_prop]

/-- **The state after `success`**: the entry is logged in any case, the value is learned if no
larger round is known. -/
theorem success_state (hround : intMin ≤ q.round) :
    (success false q s).2 =
      { paxLog := s.paxLog.setLogAccept q.key q.round q.pserverId q.op q.value
        kvStore := if Current q s ∧ q.key ≠ "leader" then s.kvStore.setKV q.key q.value
          else s.kvStore
        leader := if Current q s ∧ q.key = "leader" then q.value else s.leader } := by
  simp only [success, Bool.false_eq_true, if_false, getLog_setLogAccept, gt_iff_lt,
    show ∀ l : PaxLog, (l.getLog q.key).1 = l.rounds q.key from fun _ ↦ rfl,
    largestRoundSoFar_setLogAccept q s hround]
  by_cases hcur : Current q s <;> by_cases hkey : q.key = "leader" <;> simp [hcur, hkey]

theorem success_answer (hround : intMin ≤ q.round) :
    (success false q s).1 =
      if Current q s then {} else .aborted "Information is outdated." := by
  simp only [success, Bool.false_eq_true, if_false, gt_iff_lt,
    show ∀ l : PaxLog, (l.getLog q.key).1 = l.rounds q.key from fun _ ↦ rfl,
    largestRoundSoFar_setLogAccept q s hround]
  by_cases hcur : Current q s <;> by_cases hkey : q.key = "leader" <;> simp [hcur, hkey]

end Lemmas

end ReplicatedDB
