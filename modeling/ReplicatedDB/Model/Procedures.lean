import Mathlib.Data.Rat.Floor
import ReplicatedDB.Model.Handlers
import ReplicatedDB.Rpc.Network

/-!
# Procedures

The procedures of the repository that call other nodes, as programs: `AttemptConsensus` and
`coordinate` of `app::Consensus`, `elect_leader` of `rpc::ConsensusRPC`, `get` and `set` of
`rpc::DatabaseRPC`. The stubs of `rpc::call` are the calls they make. `db` puts them together
with the handlers into the service that every node of a `Cluster` runs.

A node is identified with its consensus address, the key under which every `memberList` has
it; `me` is `Cluster::config->getAddress<Consensus>().toString()`.
-/

namespace ReplicatedDB

open Rpc

/-- What a node does in one step: its own accesses to `pax_log`, `kv_store` and
`Cluster::leader`, and the handlers that make no calls. -/
inductive Act where
  /-- `Get_Log()`, of which only the rounds of one key are used. -/
  | getLog (key : String)
  | readLeader
  | writeLeader (value : String)
  | getKV (key : String)
  | setKV (key value : String)
  | ping
  | propose (request : Request)
  | accept (request : Request)
  | success (request : Request)
  | getLeader
  | getDB
deriving DecidableEq

/-- What each answers. -/
@[reducible] def Act.Ret : Act → Type
  | .getLog _ => Log
  | .readLeader => String
  | .writeLeader _ => Unit
  | .getKV _ => String × ℤ
  | .setKV _ _ => Unit
  | .ping => Status
  | .propose _ => Status × Response
  | .accept _ => Status × Response
  | .success _ => Status
  | .getLeader => Status × String
  | .getDB => KVStore

/-- The procedures, with their arguments. -/
inductive Task where
  | attemptConsensus (r : Request)
  | electLeader (key value : String)
  | set (key value : String)
  | get (key : String)
  | coordinate
deriving DecidableEq

/-- `database_interface::GetResponse`. -/
structure GetResponse where
  error : ℤ := 0
  value : String := ""
deriving DecidableEq

/-- The status a procedure returns, with the message that comes with it. -/
structure Reply where
  status : Status := {}
  response : Response := {}
  getResponse : GetResponse := {}
deriving DecidableEq

/-- Calls between the nodes of a replicated database. -/
abbrev Db : Sig where
  Addr := String
  Act := Act
  Ret := Act.Ret
  Task := Task
  Reply := Reply

/-- The program of a procedure. -/
abbrev Program := Prog Db

/-! ### Stubs -/

namespace Stub

/-- `ConsensusRPCWrapperCall::ping`. -/
abbrev ping (node : String) : Program Status := Prog.send (S := Db) node Act.ping

/-- `ConsensusRPCWrapperCall::propose`. -/
abbrev propose (node : String) (request : Request) : Program (Status × Response) :=
  Prog.send (S := Db) node (Act.propose request)

/-- `ConsensusRPCWrapperCall::accept`. -/
abbrev accept (node : String) (request : Request) : Program (Status × Response) :=
  Prog.send (S := Db) node (Act.accept request)

/-- `ConsensusRPCWrapperCall::success`. -/
abbrev success (node : String) (request : Request) : Program Status :=
  Prog.send (S := Db) node (Act.success request)

/-- `ConsensusRPCWrapperCall::get_leader`. -/
abbrev getLeader (node : String) : Program (Status × String) :=
  Prog.send (S := Db) node Act.getLeader

/-- `ConsensusRPCWrapperCall::trigger_election`, on the stub of the current node. -/
abbrev triggerElection (me : String) : Program Reply :=
  Prog.invoke (S := Db) me (Task.electLeader "leader" me)

/-- `DatabaseRPCWrapperCall::get_db`, which drops the status. -/
abbrev getDB (node : String) : Program KVStore := Prog.send (S := Db) node Act.getDB

end Stub

namespace Local

/-- `Consensus::Get_Log()[key]`. -/
abbrev getLog (key : String) : Program Log := Prog.here (S := Db) (Act.getLog key)

/-- A read of `Cluster::leader`. -/
abbrev readLeader : Program String := Prog.here (S := Db) Act.readLeader

/-- An assignment to `Cluster::leader`. -/
abbrev writeLeader (value : String) : Program Unit :=
  Prog.here (S := Db) (Act.writeLeader value)

/-- `Database::Get_KV`. -/
abbrev getKV (key : String) : Program (String × ℤ) := Prog.here (S := Db) (Act.getKV key)

/-- `Database::Set_KV`. -/
abbrev setKV (key value : String) : Program Unit := Prog.here (S := Db) (Act.setKV key value)

/-- `Consensus::AttemptConsensus`. -/
abbrev attemptConsensus (r : Request) : Program Reply :=
  Prog.run (S := Db) (Task.attemptConsensus r)

end Local

/-! ### `AttemptConsensus` -/

/-- The test after each phase: `count <= std::ceil(num_replicas / 2.0) - 1`. -/
def NoQuorum (numReplicas count : ℕ) : Prop := (count : ℤ) ≤ ⌈(numReplicas : ℚ) / 2⌉ - 1

instance (numReplicas count : ℕ) : Decidable (NoQuorum numReplicas count) :=
  inferInstanceAs (Decidable (_ ≤ _))

/-- What every phase returns when it misses its quorum. -/
def defaultResponse : Reply :=
  { status := .aborted "Not enough live servers for quorum." }

/-- Ping servers, figure out who's alive. -/
def pingStage (members : List String) : Program (List String) :=
  members.foldlM (fun liveNodes node ↦ do
    let res ← Stub.ping node
    pure (if res.Ok then liveNodes ++ [node] else liveNodes)) []

/-- The variables of the proposal stage. -/
structure Proposals where
  numAcceptedProposals : ℕ := 0
  acceptedId : ℤ := 0
  acceptedValue : String := ""
  acceptedOp : Operation := .notSet

/-- Count an answer to a proposal, and keep the accepted value it carries. -/
def Proposals.add (v : Proposals) (response : Status × Response) : Proposals :=
  if response.1.Ok then
    if response.2.aserverId > v.acceptedId then
      { numAcceptedProposals := v.numAcceptedProposals + 1
        acceptedId := response.2.aserverId
        acceptedValue := response.2.value
        acceptedOp := response.2.op }
    else { v with numAcceptedProposals := v.numAcceptedProposals + 1 }
  else v

/-- 1. The proposal stage. -/
def proposeStage (prepareRequest : Request) (liveNodes : List String) : Program Proposals :=
  liveNodes.foldlM (fun v node ↦ do
    let response ← Stub.propose node prepareRequest
    pure (v.add response)) {}

/-- 2. The accept stage: the number of acceptances and the last of them. -/
def acceptStage (acceptRequest : Request) (liveNodes : List String) : Program (ℕ × Response) :=
  liveNodes.foldlM (fun v node ↦ do
    let response ← Stub.accept node acceptRequest
    pure (if response.1.Ok then (v.1 + 1, response.2) else v)) (0, {})

/-- 3. The success stage, informing other nodes of the new commit. -/
def successStage (successRequest : Request) (members : List String) : Program Unit :=
  members.foldlM (fun _ node ↦ do
    let _ ← Stub.success node successRequest
    pure ()) ()

/-- The request of the proposal stage. -/
def prepareRequest (r : Request) (round : ℤ) : Request :=
  { key := r.key, round := round, value := r.value, pserverId := 1 }

/-- The request of the accept stage. -/
def acceptRequest (r : Request) (round : ℤ) (v : Proposals) : Request :=
  if v.acceptedId > 0 then
    { key := r.key, round := round, pserverId := 1, op := v.acceptedOp,
      value := v.acceptedValue, aserverId := v.acceptedId }
  else
    { key := r.key, round := round, pserverId := 1, op := r.op, value := r.value }

/-- The request of the success stage. -/
def successRequest (key : String) (acceptance : Response) : Request :=
  { key := key, value := acceptance.value, op := acceptance.op,
    pserverId := acceptance.pserverId, aserverId := acceptance.aserverId,
    round := acceptance.round }

/-- `Consensus::AttemptConsensus`. -/
def attemptConsensus (members : List String) (r : Request) : Program Reply := do
  let numReplicas := members.length
  -- Get current round
  let paxLog ← Local.getLog r.key
  let round := Log.size paxLog
  let liveNodes ← pingStage members
  -- Do we have enough for quorum?
  if NoQuorum numReplicas liveNodes.length then pure defaultResponse
  else do
    let v ← proposeStage (prepareRequest r round) liveNodes
    -- A node must have died between our first ping and here
    if NoQuorum numReplicas v.numAcceptedProposals then pure defaultResponse
    else do
      let a ← acceptStage (acceptRequest r round v) liveNodes
      if NoQuorum numReplicas a.1 then pure defaultResponse
      else do
        successStage (successRequest r.key a.2) members
        pure { response := a.2 }

/-! ### The other procedures -/

/-- `ConsensusRPC::elect_leader`. -/
def electLeader (key value : String) : Program Reply := do
  let resp ← Local.attemptConsensus { key := key, value := value, op := .setLeader }
  if resp.status.Ok then do
    Local.writeLeader resp.response.value
    pure { status := resp.status }
  else pure { status := resp.status }

/-- `memberList->at(node)`: a handler that misses throws. -/
def memberAt (members : List String) (node : String) (k : Program Reply) : Program Reply :=
  if node ∈ members then k else pure { status := .unknown }

/-- What `DatabaseRPC::get` and `DatabaseRPC::set` do when the node is not the leader: run the
same request at the leader, elect a new leader if that fails, and try once more. -/
def forward (members : List String) (me : String) (task : Task) (answer : Reply → Reply) :
    Program Reply := do
  let leader ← Local.readLeader
  memberAt members leader do
    let leaderResponse ← Prog.invoke (S := Db) leader task
    if leaderResponse.status.Ok then pure (answer leaderResponse)
    else do
      -- We must elect a new leader
      let election ← Stub.triggerElection me
      if ¬ election.status.Ok then
        pure { status := .aborted "Could not find a suitable leader." }
      else do
        let leader ← Local.readLeader
        memberAt members leader do
          let newLeader ← Prog.invoke (S := Db) leader task
          if ¬ newLeader.status.Ok then
            pure { status := .aborted "New leader was not able to get value." }
          else pure (answer newLeader)

/-- `DatabaseRPC::get`. -/
def get (members : List String) (me key : String) : Program Reply := do
  let addr ← Local.readLeader
  if addr = "" then pure { status := .aborted "No leader set" }
  else if addr = me then do
    -- We are leader, return local value
    let resp ← Local.getKV key
    if resp.2 ≠ 0 then pure { getResponse := { value := "", error := 1 } }
    else pure { getResponse := { value := resp.1 } }
  else
    -- We are not leader, contact the db stub of the leader
    forward members me (.get key) fun leaderResponse ↦
      { getResponse := leaderResponse.getResponse }

/-- `DatabaseRPC::set`. -/
def set (members : List String) (me key value : String) : Program Reply := do
  let addr ← Local.readLeader
  if addr = "" then pure { status := .aborted "No leader set" }
  else if addr = me then do
    -- We are leader, trigger paxos algorithm
    let resp ← Local.attemptConsensus { key := key, value := value }
    pure { status := resp.status }
  else
    -- We are not the leader, forward request to leader
    forward members me (.set key value) fun _ ↦ {}

/-- The end of `Consensus::coordinate`: recover the db from the leader, unless we are leader. -/
def recover (members : List String) (me : String) : Program Reply := do
  let leader ← Local.readLeader
  if leader = "" then pure {}
  else do
    let leader ← Local.readLeader
    if leader = me then pure {}
    else do
      let leader ← Local.readLeader
      memberAt members leader do
        let leaderDb ← Stub.getDB leader
        leaderDb.entries.foldlM (fun _ e ↦ Local.setKV e.1 e.2) ()
        pure {}

/-- The answers `coordinate` collects: the leaders named and the replicas that are up. -/
def askLeaders (members : List String) : Program (List String × List String) :=
  members.foldlM (fun v key ↦ do
    let res ← Stub.getLeader key
    pure (if res.1.Ok then
      (if res.2 = "" then v.1 else v.1.insert res.2, v.2.insert key) else v)) ([], [])

/-- The flags that `coordinate` reads. -/
structure Flags where
  /-- Testing: the node starts as the leader. -/
  leader : Bool := false
  /-- Trigger an election on start-up. -/
  election : Bool := true

/-- `Consensus::coordinate`. -/
def coordinate (members : List String) (flags : Flags) (me : String) : Program Reply := do
  if flags.leader then do
    Local.writeLeader me
    recover members me
  else do
    let (leaders, liveReplicas) ← askLeaders members
    match leaders with
    | [leader] =>
      if leader ∈ liveReplicas then do
        -- Valid leader returned.
        Local.writeLeader leader
        recover members me
      else orElect flags.election
    | _ => orElect flags.election
where
  /-- No valid leader returned by any server. -/
  orElect (election : Bool) : Program Reply :=
    if election then do
      let electionStatus ← Stub.triggerElection me
      if ¬ electionStatus.status.Ok then
        pure { status := .aborted "we could not establish a leader, not enough nodes." }
      else recover members me
    else recover members me

/-! ### The service -/

/-- What the nodes of a cluster share: the keys of `memberList`, in the order of the map, among
them the node's own; none is empty, since each has a port. And the flags each node was started
with. -/
structure Cluster where
  memberList : List String
  nodup : memberList.Nodup
  ne_nil : memberList ≠ []
  nonempty : "" ∉ memberList
  flags : String → Flags := fun _ ↦ {}

/-- One step of a node. -/
def act : (a : Act) → Replica → a.Ret × Replica
  | .getLog key, s => (s.log key, s)
  | .readLeader, s => (s.leader, s)
  | .writeLeader value, s => ((), { s with leader := value })
  | .getKV key, s => (s.kvStore.getKV key, s)
  | .setKV key value, s => ((), { s with kvStore := s.kvStore.setKV key value })
  | .ping, s => ping false s
  | .propose request, s => propose false request s
  | .accept request, s => accept false request s
  | .success request, s => success false request s
  | .getLeader, s => getLeader false s
  | .getDB, s => getDB s

/-- What a caller sees when a call fails: a status that is not OK, and empty messages. -/
def lost : (a : Act) → a.Ret
  | .getLog _ => ∅
  | .readLeader => ""
  | .writeLeader _ => ()
  | .getKV _ => ("", 0)
  | .setKV _ _ => ()
  | .ping => .unavailable
  | .propose _ => (.unavailable, {})
  | .accept _ => (.unavailable, {})
  | .success _ => .unavailable
  | .getLeader => (.unavailable, "")
  | .getDB => ∅

/-- The program of a procedure at the node `me`. -/
def body (cl : Cluster) (me : String) : Task → Program Reply
  | .attemptConsensus r => attemptConsensus cl.memberList r
  | .electLeader key value => electLeader key value
  | .set key value => set cl.memberList me key value
  | .get key => get cl.memberList me key
  | .coordinate => coordinate cl.memberList (cl.flags me) me

/-- The service run by the nodes of a cluster. -/
abbrev db (cl : Cluster) : Service Db where
  State := Replica
  act := act
  lost := lost
  failed := { status := .unavailable }
  body := body cl
  fresh := {}
  boot := .coordinate

end ReplicatedDB
