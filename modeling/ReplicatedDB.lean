import ReplicatedDB.Rpc.Program
import ReplicatedDB.Rpc.Network
import ReplicatedDB.Rpc.Run
import ReplicatedDB.Rpc.Sequential
import ReplicatedDB.Rpc.BigStep
import ReplicatedDB.Rpc.Thread
import ReplicatedDB.Rpc.Locality
import ReplicatedDB.Model.Procedures
import ReplicatedDB.Model.Quorum
import ReplicatedDB.Model.Evaluation
import ReplicatedDB.Protocol.OwnValue
import ReplicatedDB.Protocol.Visibility
import ReplicatedDB.Protocol.StableLeader
import ReplicatedDB.Protocol.Deposed
import ReplicatedDB.Protocol.Convergence
import ReplicatedDB.Protocol.Acceptor
import ReplicatedDB.Protocol.LogMatching
import ReplicatedDB.Protocol.Forwarding
import ReplicatedDB.Protocol.FailureFree
import ReplicatedDB.Protocol.Intersection
import ReplicatedDB.Protocol.Independence
import ReplicatedDB.Model.Routing
import ReplicatedDB.Rpc.Guarantee
import ReplicatedDB.Protocol.Control
import ReplicatedDB.Protocol.Recovery
import ReplicatedDB.Rpc.Lineage
import ReplicatedDB.Protocol.Resend
import ReplicatedDB.Rpc.Readdress
import ReplicatedDB.Rpc.Discipline
import ReplicatedDB.Model.Deployment
import ReplicatedDB.Model.Membership
import ReplicatedDB.Protocol.Resolution
import ReplicatedDB.Protocol.Refusal
import ReplicatedDB.Protocol.Selection
import ReplicatedDB.Protocol.Atomicity
import ReplicatedDB.Protocol.Freshness
import ReplicatedDB.Protocol.Register
import ReplicatedDB.Protocol.Failover
import ReplicatedDB.Rpc.Record
import ReplicatedDB.Protocol.Missed
import ReplicatedDB.Protocol.Completeness
import ReplicatedDB.Rpc.Outage
import ReplicatedDB.Rpc.Machine
import ReplicatedDB.Rpc.Client
import ReplicatedDB.Linear.History
import ReplicatedDB.Model.Outage
import ReplicatedDB.Protocol.CrashRecovery
import ReplicatedDB.Protocol.OneLeader
import ReplicatedDB.Protocol.Linearizability
import ReplicatedDB.Rpc.Traffic
import ReplicatedDB.Protocol.Availability
import ReplicatedDB.Model.Statistics
import ReplicatedDB.Protocol.MessageCount
import ReplicatedDB.Replay.Tape
import ReplicatedDB.Protocol.Replay
import ReplicatedDB.Protocol.Growth
