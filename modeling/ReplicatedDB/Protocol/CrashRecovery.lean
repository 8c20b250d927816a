import ReplicatedDB.Model.Outage
import ReplicatedDB.Protocol.FailureFree

/-!
# Sessions in which nodes stop and start again

Nothing is stored on disk, so a node that starts again has lost all. `ClusterState` is the database
as it is to look from the outside all the same: the nodes that are up, the leader, and one map,
which is lost when the last node stops. `machine` says what clients and starting nodes are answered
in each state, among them what happens when the leader is down (its node elects itself and tries
once more) and when less than half of the members are up.

`Tracks` relates it to the nodes that are up: they agree on the store and on the leader, and a node
that has started again lacks rounds of the others' logs, but holds nothing else. It is kept by
every deed that the machine allows (`refines_machine`), so that sessions get the answers of the
machine (`crashRecovery`), and what was acknowledged is found until it is overwritten, as long as
one node was up at any time (`durable`). What the machine does not allow is that a node starts
while the leader is down, that the leader starts again before another one is elected, and that a
node runs an election whose own log lacks rounds.
-/

namespace ReplicatedDB

open Rpc Rpc.Net

/-! ### The abstract database -/

/-- The database as it looks from the outside. -/
structure ClusterState where
  up : Finset String := ∅
  /-- The nodes that have been up in all rounds. -/
  complete : Finset String := ∅
  leader : Option String := none
  map : String → Option String := fun _ ↦ none

/-- What a node returns that has started and is not elected. -/
def notEstablished : Reply :=
  { status := .aborted "we could not establish a leader, not enough nodes." }

section Machine

variable (cl : Cluster)

/-- At least half of the members are up. -/
def Enough (up : Finset String) : Prop := cl.memberList.length ≤ 2 * up.card

instance (up : Finset String) : Decidable (Enough cl up) := inferInstanceAs (Decidable (_ ≤ _))

namespace ClusterState

variable (x : ClusterState)

/-- A set at the node `a`: if the leader is down, then `a` takes over. -/
def set (a key value : String) : Reply × ClusterState :=
  match x.leader with
  | none => (noLeader, x)
  | some y =>
    if Enough cl x.up then
      ({}, { x with
        leader := some (if y ∈ x.up then y else a)
        map := Function.update x.map key (some value) })
    else (if y = a then defaultResponse else noSuitableLeader, x)

/-- A get at the node `a`: the leader answers it whatever else is down. -/
def get (a key : String) : Reply × ClusterState :=
  match x.leader with
  | none => (noLeader, x)
  | some y =>
    if y ∈ x.up then (found (x.map key), x)
    else if Enough cl x.up then (found (x.map key), { x with leader := some a })
    else (noSuitableLeader, x)

/-- An election in favour of the node `a`. -/
def elect (a : String) : Reply × ClusterState :=
  if Enough cl x.up then ({}, { x with leader := some a }) else (defaultResponse, x)

/-- The node `a` stops. If it was the last one, nothing is left. -/
def stop (a : String) : ClusterState :=
  if x.up.erase a = ∅ then {}
  else { x with up := x.up.erase a, complete := x.complete.erase a }

/-- The node `a` is up again. -/
def join (a : String) : ClusterState :=
  { x with
    up := insert a x.up
    complete := if x.leader = none then insert a x.complete else x.complete.erase a }

/-- The node `a` starts, or starts again: while there is no leader, it tries to become one. -/
def start (a : String) : Reply × ClusterState :=
  if x.leader = none ∧ (cl.flags a).election then
    if Enough cl (x.join a).up then ({}, { x.join a with leader := some a })
    else (notEstablished, x.join a)
  else ({}, x.join a)

/-- What clients are answered. -/
def call (a : String) : Task → Reply × ClusterState
  | .set key value => x.set cl a key value
  | .get key => x.get cl a key
  | .electLeader _ _ => x.elect cl a
  | .attemptConsensus _ | .coordinate => ({}, x)

/-- If a request makes the node `a` run an election that succeeds, then `a` knows all rounds. -/
def Fit (a : String) : Prop := ∀ y ∈ x.leader, y ∉ x.up → Enough cl x.up → a ∈ x.complete

instance (a : String) : Decidable (x.Fit cl a) := inferInstanceAs (Decidable (∀ y ∈ x.leader, _))

/-- What clients ask of the node `a`, which is up. -/
def Serves (a : String) : Task → Prop
  | .set key _ | .get key => key ≠ "leader" ∧ x.Fit cl a
  | .electLeader key value => key = "leader" ∧ value = a ∧ (Enough cl x.up → a ∈ x.complete)
  | .attemptConsensus _ | .coordinate => False

instance (a : String) : (t : Task) → Decidable (x.Serves cl a t)
  | .set _ _ | .get _ => inferInstanceAs (Decidable (_ ∧ _))
  | .electLeader _ _ => inferInstanceAs (Decidable (_ ∧ _))
  | .attemptConsensus _ | .coordinate => inferInstanceAs (Decidable False)

end ClusterState

/-- The replicated database from the outside. -/
def machine : Machine Db ClusterState where
  up := ClusterState.up
  allows x
    | .call a t => a ∈ x.up ∧ x.Serves cl a t
    | .stop _ => True
    | .start a => a ∈ cl.memberList ∧ ∀ y ∈ x.leader, y ∈ x.up ∧ y ≠ a
  next x
    | .call a t => ((x.call cl a t).1, (x.call cl a t).2)
    | .stop a => (none, x.stop a)
    | .start a => ((x.start cl a).1, (x.start cl a).2)

instance (x : ClusterState) : (d : Deed Db) → Decidable ((machine cl).allows x d)
  | .call a t => inferInstanceAs (Decidable (a ∈ x.up ∧ x.Serves cl a t))
  | .stop _ => inferInstanceAs (Decidable True)
  | .start a => inferInstanceAs (Decidable (a ∈ cl.memberList ∧ ∀ y ∈ x.leader, y ∈ x.up ∧ y ≠ a))

end Machine

/-! ### The simulation -/

variable {cl : Cluster} {N N' : String → Replica} {x : ClusterState} {R : Replica} {s : Replica}
  {a y key value : String} {r : Request}

/-- The node `s` lacks some of the rounds of `R`, and that is all. -/
structure Behind (s R : Replica) : Prop where
  kvStore : s.kvStore = R.kvStore
  leader : s.leader = R.leader
  keys : ∀ key, (s.log key).keys ⊆ (R.log key).keys

theorem Behind.refl (R : Replica) : Behind R R := ⟨rfl, rfl, fun _ ↦ subset_rfl⟩

/-- The nodes that are up are in the state `R` or lack rounds of it; those that have been up in all
rounds are in the state `R`. -/
structure Tracks (cl : Cluster) (N : String → Replica) (x : ClusterState) (R : Replica) : Prop where
  up : ∀ d ∈ x.up, d ∈ cl.memberList ∧ Behind (N d) R
  complete : ∀ d ∈ x.complete, d ∈ x.up ∧ N d = R
  whole : Uniform cl (fun _ ↦ R) R
  map : ∀ key, R.kvStore.lookup key = x.map key
  leader : R.leader = x.leader.getD ""
  unled : x.leader = none → R = {} ∧ x.up ⊆ x.complete
  led : ∀ y ∈ x.leader, y ∈ cl.memberList ∧ (y ∈ x.up → y ∈ x.complete)

/-! ### One attempt -/

/-- The next round is current at a node that lacks rounds as well. -/
theorem Behind.current (h : Behind s R) (hR : Uniform cl (fun _ ↦ R) R) (r : Request) :
    Current (ownRequest r R) s := fun round hround ↦ hR.current r round (h.keys r.key hround)

/-- ... and a node that commits it lacks the same rounds as before. -/
theorem Behind.commit (h : Behind s R) (hR : Uniform cl (fun _ ↦ R) R) (r : Request) :
    Behind (s.commit (ownRequest r R)) (R.commit (ownRequest r R)) where
  kvStore := by
    have hcur := h.current hR r
    rw [Replica.commit, Replica.commit]
    simp only [hcur, hR.current r, true_and, h.kvStore]
  leader := by
    have hcur := h.current hR r
    rw [Replica.commit, Replica.commit]
    simp only [hcur, hR.current r, true_and, h.leader]
  keys key := by
    have hkeys : ∀ t : Replica, ((t.commit (ownRequest r R)).log key).keys = if key = r.key then
        insert (Log.size (R.log r.key)) (t.log key).keys else (t.log key).keys := fun t ↦
      PaxLog.keys_modify t.paxLog r.key key _ fun e ↦ e.accepted (ownRequest r R)
    rw [hkeys, hkeys]
    split
    · exact Finset.insert_subset_insert _ (h.keys key)
    · exact h.keys key

/-- Nobody that is up has heard of the next round. -/
theorem Tracks.notMem (h : Tracks cl N x R) (r : Request) {d : String} (hd : d ∈ x.up) :
    Log.size (R.log r.key) ∉ ((N d).log r.key).keys := fun hmem ↦
  absurd (((h.whole.gapless r.key).mem_keys_iff.1 ((h.up d hd).2.keys r.key hmem)).2) (lt_irrefl _)

/-- **An attempt** of a node that knows all rounds commits its request at all nodes that are up. -/
theorem Tracks.evals_attempt (h : Tracks cl N x R) (ha : a ∈ x.complete) (henough : Enough cl x.up)
    (r : Request) : Evals (db cl) (Plan.among x.up) a (attemptConsensus cl.memberList r) N
      { response := acceptResponse (ownRequest r R) } (committedAt x.up (ownRequest r R) N) := by
  have hNa : N a = R := (h.complete a ha).2
  have hmem : ∀ d ∈ cl.memberList.filter (· ∈ x.up), d ∈ x.up := fun d hd ↦
    of_decide_eq_true (List.mem_filter.1 hd).2
  obtain ⟨p, hp⟩ : ∃ p, prepareRequest r (Log.size (R.log r.key)) = p := ⟨_, rfl⟩
  have hentry : ∀ d ∈ x.up, ((N d).log p.key).entry p.round = {} :=
    fun d hd ↦ hp ▸ Log.entry_of_notMem (h.notMem r hd)
  have hok : ∀ d ∈ x.up, Willing p (N d) := fun d hd ↦ by
    rw [Willing, hentry d hd, ← hp]
    exact zero_le_one
  have hv : proposals cl (Plan.among x.up) p (cl.memberList.filter (· ∈ x.up)) N =
      { numAcceptedProposals := (cl.memberList.filter (· ∈ x.up)).length } := by
    refine proposals_of_free (fun d hd ↦ among_of_mem (S := Db) (hmem d hd) _)
      (fun d hd ↦ hok d (hmem d hd)) fun d hd ↦ ?_
    rw [Log.Accepted, hentry d (hmem d hd)]
    exact lt_irrefl _
  refine evals_attempt_up (fun d hd ↦ List.mem_toFinset.2 (h.up d hd).1)
    (not_noQuorum_iff.2 henough) r (p := p) (by rw [hNa, hp]) ?_ hok
  rw [hNa, hv]
  rfl

/-! ### What is kept -/

/-- Elections and sets at nodes that know all rounds keep the simulation. -/
theorem Tracks.next (h : Tracks cl N x R) (r : Request) {y : String} (hy : y ∈ x.complete)
    {m : String → Option String}
    (hm : ∀ key, (R.commit (ownRequest r R)).kvStore.lookup key = m key)
    (hleader : (R.commit (ownRequest r R)).leader = y) :
    Tracks cl (committedAt x.up (ownRequest r R) N) { x with leader := some y, map := m }
      (R.commit (ownRequest r R)) where
  up d hd := by
    rw [committedAt, if_pos hd]
    exact ⟨(h.up d hd).1, (h.up d hd).2.commit h.whole r⟩
  complete d hd := by
    obtain ⟨hup, hR⟩ := h.complete d hd
    rw [committedAt, if_pos hup, hR]
    exact ⟨hup, rfl⟩
  whole := by
    have hwhole := h.whole.commit r
    exact ⟨fun _ _ ↦ rfl, hwhole.gapless, hwhole.promise⟩
  map := hm
  leader := hleader
  unled := nofun
  led y' hy' := by
    obtain rfl := Option.some.inj hy'
    exact ⟨(h.up _ (h.complete _ hy).1).1, fun _ ↦ hy⟩

/-- An election of a node that knows all rounds. -/
theorem Tracks.evals_electLeader (h : Tracks cl N x R) (ha : a ∈ x.complete)
    (henough : Enough cl x.up) : ∃ N' R',
      EvalsAmong (db cl) x.up a (body cl a (.electLeader "leader" a)) N {} N' ∧
        Tracks cl N' { x with leader := some a } R' := by
  obtain ⟨hstore, hleader⟩ := h.whole.commit_leader (r := electRequest "leader" a) rfl
  have hnext := h.next (electRequest "leader" a) ha (m := x.map)
    (fun key ↦ by rw [hstore]; exact h.map key) hleader
  have hev := evalsAmong_electLeader (h.evals_attempt ha henough (electRequest "leader" a))
    Status.ok_default
  refine ⟨_, R.commit (ownRequest (electRequest "leader" a) R), hev, ?_⟩
  -- the register of the candidate is written once more
  convert hnext using 1
  rw [Function.update_eq_self_iff, (hnext.complete a ha).2]
  exact congrArg (fun l ↦ Replica.mk _ _ l) hleader.symm

/-- A set at the leader. -/
theorem Tracks.evals_set (h : Tracks cl N x R) (hy : x.leader = some y) (hup : y ∈ x.up)
    (henough : Enough cl x.up) (hkey : key ≠ "leader") (value : String) : ∃ N' R',
      EvalsAmong (db cl) x.up y (body cl y (.set key value)) N {} N' ∧
        Tracks cl N' { x with map := Function.update x.map key (some value) } R' := by
  obtain ⟨hmem, hcomplete⟩ := h.led y hy
  obtain ⟨hstore, hleader⟩ := h.whole.commit_of_ne (r := setRequest key value) hkey
  have hR : R.leader = y := by rw [h.leader, hy, Option.getD_some]
  have hev : EvalsAmong (db cl) x.up y _ N _ _ :=
    evalsAmong_set_leader (by rw [(h.up y hup).2.leader, hR])
      (ne_of_mem_of_not_mem hmem cl.nonempty)
      (h.evals_attempt (hcomplete hup) henough (setRequest key value))
  have hnext := h.next (setRequest key value) (hcomplete hup)
    (m := Function.update x.map key (some value)) (fun key' ↦ ?_) (hleader.trans hR)
  · exact ⟨_, _, hev, hy ▸ hnext⟩
  · rw [hstore]
    show (R.kvStore.setKV key value).lookup key' = _
    by_cases hkk : key' = key
    · rw [hkk, Function.update_self, KVStore.lookup_setKV_self]
    · rw [Function.update_of_ne hkk, KVStore.lookup_setKV_of_ne _ _ hkk, h.map]

/-- A get at the leader. -/
theorem Tracks.evals_get (h : Tracks cl N x R) (hy : x.leader = some y) (hup : y ∈ x.up)
    (key : String) :
    EvalsAmong (db cl) x.up y (body cl y (.get key)) N (found (x.map key)) N := by
  have hR : R.leader = y := by rw [h.leader, hy, Option.getD_some]
  have hev : EvalsAmong (db cl) x.up y (body cl y (.get key)) N _ N :=
    evalsAmong_get_leader (by rw [(h.up y hup).2.leader, hR])
      (ne_of_mem_of_not_mem (h.led y hy).1 cl.nonempty)
  rwa [(h.up y hup).2.kvStore, getAnswer_eq_found, h.map] at hev

/-- An attempt while less than half of the members are up. -/
theorem Tracks.evals_refused (h : Tracks cl N x R) (henough : ¬ Enough cl x.up) (a : String)
    (r : Request) : Evals (db cl) (Plan.among x.up) a (attemptConsensus cl.memberList r) N
      defaultResponse N := by
  refine evals_attempt_refused (fun d hd ↦ List.mem_toFinset.2 (h.up d hd).1) ?_ r
  by_contra hquorum
  exact henough (not_noQuorum_iff.1 hquorum)

/-! ### Requests of clients -/

section Requests

variable {task : Task} {answer : Reply → Reply} {rep : Reply}

/-- All nodes that are up know the leader. -/
theorem Tracks.leader_eq (h : Tracks cl N x R) (hy : x.leader = some y) (ha : a ∈ x.up) :
    (N a).leader = y := by rw [(h.up a ha).2.leader, h.leader, hy, Option.getD_some]

/-- A request that finds the leader down is answered after an election. -/
theorem Tracks.forward_elect (h : Tracks cl N x R) (hy : x.leader = some y) (hdown : y ∉ x.up)
    (ha : a ∈ x.up) {N₁ : String → Replica} {R₁ : Replica}
    (hel : EvalsAmong (db cl) x.up a (body cl a (.electLeader "leader" a)) N {} N₁)
    (h₁ : Tracks cl N₁ { x with leader := some a } R₁)
    (hbody : EvalsAmong (db cl) x.up a (body cl a task) N₁ rep N') (hok : rep.status.Ok) :
    EvalsAmong (db cl) x.up a (forward cl.memberList a task answer) N (answer rep) N' :=
  evalsAmong_forward_retry (h.leader_eq hy ha) (h.led y hy).1 (.inr ⟨hdown, rfl, rfl⟩)
    Status.not_ok_unavailable (.inl ⟨ha, hel⟩) Status.ok_default (h₁.leader_eq rfl ha) (h.up a ha).1
    (.inl ⟨ha, hbody⟩) hok

/-- A request that is not answered by the leader is given up if there is no quorum. -/
theorem Tracks.forward_refused (h : Tracks cl N x R) (hy : x.leader = some y) (ha : a ∈ x.up)
    (henough : ¬ Enough cl x.up) (hcall : AnswersCall cl x.up y task N rep N)
    (hok : ¬ rep.status.Ok) :
    EvalsAmong (db cl) x.up a (forward cl.memberList a task answer) N noSuitableLeader N := by
  have hel : EvalsAmong (db cl) x.up a _ N _ N := evalsAmong_electLeader_refused
    (h.evals_refused henough a (electRequest "leader" a)) (Status.not_ok_aborted _)
  exact evalsAmong_forward_refused (h.leader_eq hy ha) (h.led y hy).1 hcall hok (.inl ⟨ha, hel⟩)
    (Status.not_ok_aborted _)

/-- **A set** is answered as by the abstract database. -/
theorem Tracks.call_set (h : Tracks cl N x R) (ha : a ∈ x.up) (hkey : key ≠ "leader")
    (hfit : x.Fit cl a) (value : String) : ∃ N' R',
      EvalsAmong (db cl) x.up a (body cl a (.set key value)) N (x.set cl a key value).1 N' ∧
        Tracks cl N' (x.set cl a key value).2 R' := by
  rw [ClusterState.set]
  split
  · rename_i hnone
    have hNa : (N a).leader = "" := by rw [(h.up a ha).2.leader, h.leader, hnone, Option.getD_none]
    exact ⟨N, R, evalsAmong_set_noLeader hNa, h⟩
  rename_i y hy
  obtain ⟨hmem, -⟩ := h.led y hy
  split
  · rename_i henough
    by_cases hup : y ∈ x.up
    · -- the leader handles it
      obtain ⟨N', R', hev, h'⟩ := h.evals_set hy hup henough hkey value
      refine ⟨N', R', ?_, by rw [if_pos hup, ← hy]; exact h'⟩
      by_cases hya : y = a
      · rwa [hya] at hev
      · exact evalsAmong_set_forward (h.leader_eq hy ha) hmem hya
          (evalsAmong_forward (h.leader_eq hy ha) hmem (.inl ⟨hup, hev⟩) Status.ok_default)
    · -- the node takes over
      have hya : y ≠ a := fun heq ↦ hup (heq ▸ ha)
      obtain ⟨N₁, R₁, hel, h₁⟩ := h.evals_electLeader (hfit y hy hup henough) henough
      obtain ⟨N', R', hev, h'⟩ := h₁.evals_set rfl ha henough hkey value
      refine ⟨N', R', ?_, by rw [if_neg hup]; exact h'⟩
      exact evalsAmong_set_forward (h.leader_eq hy ha) hmem hya
        (h.forward_elect hy hup ha hel h₁ hev Status.ok_default)
  · rename_i henough
    have hrefused : y ∈ x.up → EvalsAmong (db cl) x.up y (body cl y (.set key value)) N
        { status := defaultResponse.status } N := fun hup ↦
      evalsAmong_set_leader (h.leader_eq hy hup) (ne_of_mem_of_not_mem hmem cl.nonempty)
        (h.evals_refused henough y (setRequest key value))
    refine ⟨N, R, ?_, h⟩
    split
    · rename_i hya
      subst hya
      exact hrefused ha
    · rename_i hya
      refine evalsAmong_set_forward (h.leader_eq hy ha) hmem hya ?_
      by_cases hup : y ∈ x.up
      · exact h.forward_refused hy ha henough (.inl ⟨hup, hrefused hup⟩) (Status.not_ok_aborted _)
      · exact h.forward_refused hy ha henough (.inr ⟨hup, rfl, rfl⟩) Status.not_ok_unavailable

/-- **A get** is answered as by the abstract database. -/
theorem Tracks.call_get (h : Tracks cl N x R) (ha : a ∈ x.up) (hfit : x.Fit cl a) (key : String) :
    ∃ N' R', EvalsAmong (db cl) x.up a (body cl a (.get key)) N (x.get cl a key).1 N' ∧
      Tracks cl N' (x.get cl a key).2 R' := by
  have hok : (found (x.map key)).status.Ok := by
    cases x.map key <;> exact Status.ok_default
  have hfound : found (x.map key) = { getResponse := (found (x.map key)).getResponse } := by
    cases x.map key <;> rfl
  rw [ClusterState.get]
  split
  · rename_i hnone
    have hNa : (N a).leader = "" := by rw [(h.up a ha).2.leader, h.leader, hnone, Option.getD_none]
    exact ⟨N, R, evalsAmong_get_noLeader hNa, h⟩
  rename_i y hy
  obtain ⟨hmem, -⟩ := h.led y hy
  split
  · rename_i hup
    have hev := h.evals_get hy hup key
    refine ⟨N, R, ?_, h⟩
    by_cases hya : y = a
    · rwa [hya] at hev
    · refine evalsAmong_get_forward (h.leader_eq hy ha) hmem hya ?_
      rw [hfound]
      exact evalsAmong_forward (h.leader_eq hy ha) hmem (.inl ⟨hup, hev⟩) hok
  rename_i hup
  have hya : y ≠ a := fun heq ↦ hup (heq ▸ ha)
  split
  · rename_i henough
    obtain ⟨N₁, R₁, hel, h₁⟩ := h.evals_electLeader (hfit y hy hup henough) henough
    refine ⟨N₁, R₁, evalsAmong_get_forward (h.leader_eq hy ha) hmem hya ?_, h₁⟩
    rw [hfound]
    exact h.forward_elect hy hup ha hel h₁ (h₁.evals_get rfl ha key) hok
  · rename_i henough
    exact ⟨N, R, evalsAmong_get_forward (h.leader_eq hy ha) hmem hya
      (h.forward_refused hy ha henough (.inr ⟨hup, rfl, rfl⟩) Status.not_ok_unavailable), h⟩

/-- **Every request** of a client is answered as by the abstract database. -/
theorem Tracks.call (h : Tracks cl N x R) (ha : a ∈ x.up) {t : Task} (ht : x.Serves cl a t) :
    ∃ N' R', EvalsAmong (db cl) x.up a (body cl a t) N (x.call cl a t).1 N' ∧
      Tracks cl N' (x.call cl a t).2 R' := by
  match t, ht with
  | .set _ value, ht => exact h.call_set ha ht.1 ht.2 value
  | .get key, ht => exact h.call_get ha ht.2 key
  | .electLeader key value, ht =>
    obtain ⟨rfl, rfl, hcomplete⟩ := ht
    rw [ClusterState.call, ClusterState.elect]
    split
    · rename_i henough
      exact h.evals_electLeader (hcomplete henough) henough
    · rename_i henough
      exact ⟨N, R, evalsAmong_electLeader_refused (h.evals_refused henough _ _)
        (Status.not_ok_aborted _), h⟩

end Requests

/-! ### Nodes that stop and start -/

/-- Before anybody starts there is nothing. -/
theorem Tracks.empty (N : String → Replica) : Tracks cl N {} {} where
  up _ hd := absurd hd (Finset.notMem_empty _)
  complete _ hd := absurd hd (Finset.notMem_empty _)
  whole := ⟨fun _ _ ↦ rfl, fun _ ↦ Gapless.empty, fun _ _ ↦ rfl⟩
  map _ := rfl
  leader := rfl
  unled _ := ⟨rfl, Finset.empty_subset _⟩
  led := nofun

/-- A node that stops. -/
theorem Tracks.stop (h : Tracks cl N x R) (a : String) : ∃ R', Tracks cl N (x.stop a) R' := by
  rw [ClusterState.stop]
  split
  · exact ⟨{}, .empty N⟩
  refine ⟨R, fun d hd ↦ h.up d (Finset.mem_of_mem_erase hd), fun d hd ↦ ?_, h.whole, h.map,
    h.leader, fun hnone ↦ ?_, fun y hy ↦ ⟨(h.led y hy).1, fun hup ↦ ?_⟩⟩
  · obtain ⟨hne, hd⟩ := Finset.mem_erase.1 hd
    exact ⟨Finset.mem_erase.2 ⟨hne, (h.complete d hd).1⟩, (h.complete d hd).2⟩
  · exact ⟨(h.unled hnone).1, Finset.erase_subset_erase _ (h.unled hnone).2⟩
  · obtain ⟨hne, hup⟩ := Finset.mem_erase.1 hup
    exact Finset.mem_erase.2 ⟨hne, (h.led y hy).2 hup⟩

/-- A node that starts while there is no leader is like all others. -/
theorem Tracks.join_unled (h : Tracks cl N x R) (ha : a ∈ cl.memberList) (hnone : x.leader = none) :
    Tracks cl (Function.update N a {}) (x.join a) R := by
  obtain ⟨rfl, hcomplete⟩ := h.unled hnone
  have hnodes : ∀ d, d = a ∨ d ∈ x.up → Function.update N a {} d = {} := fun d hd ↦ by
    by_cases hda : d = a
    · rw [hda, Function.update_self]
    · rw [Function.update_of_ne hda]
      exact (h.complete d (hcomplete (hd.resolve_left hda))).2
  refine ⟨fun d hd ↦ ?_, fun d hd ↦ ?_, h.whole, h.map, h.leader, fun _ ↦ ⟨rfl, ?_⟩,
    fun y hy ↦ nomatch hnone.symm.trans hy⟩
  · rw [hnodes d (Finset.mem_insert.1 hd)]
    refine ⟨?_, .refl _⟩
    rcases Finset.mem_insert.1 hd with rfl | hd
    · exact ha
    · exact (h.up d hd).1
  · rw [ClusterState.join, if_pos hnone] at hd
    have hup : d ∈ insert a x.up :=
      Finset.insert_subset_insert a (fun d hd ↦ (h.complete d hd).1) hd
    exact ⟨hup, hnodes d (Finset.mem_insert.1 hup)⟩
  · rw [ClusterState.join, if_pos hnone]
    exact Finset.insert_subset_insert a hcomplete

/-- A node that has copied the store of the leader lacks rounds only. -/
theorem Tracks.join_led (h : Tracks cl N x R) (ha : a ∈ cl.memberList) (hy : x.leader = some y)
    (hya : y ≠ a) :
    Tracks cl (Function.update N a { leader := y, kvStore := R.kvStore }) (x.join a) R := by
  have hne : x.leader ≠ none := fun hnone ↦ nomatch hnone.symm.trans hy
  have hR : R.leader = y := by rw [h.leader, hy, Option.getD_some]
  refine ⟨fun d hd ↦ ?_, fun d hd ↦ ?_, h.whole, h.map, h.leader, fun hnone ↦ absurd hnone hne,
    fun y' hy' ↦ ?_⟩
  · by_cases hda : d = a
    · subst hda
      rw [Function.update_self]
      exact ⟨ha, rfl, hR.symm, fun _ ↦ Finset.empty_subset _⟩
    · rw [Function.update_of_ne hda]
      exact h.up d ((Finset.mem_insert.1 hd).resolve_left hda)
  · rw [ClusterState.join, if_neg hne] at hd
    obtain ⟨hda, hd⟩ := Finset.mem_erase.1 hd
    rw [Function.update_of_ne hda]
    exact ⟨Finset.mem_insert_of_mem (h.complete d hd).1, (h.complete d hd).2⟩
  · obtain rfl := Option.some.inj (hy.symm.trans hy')
    refine ⟨(h.led y hy).1, fun hup ↦ ?_⟩
    rw [ClusterState.join, if_neg hne]
    exact Finset.mem_erase.2 ⟨hya, (h.led y hy).2 ((Finset.mem_insert.1 hup).resolve_left hya)⟩

/-- **A node that starts** finds the leader and copies its store, or runs an election. -/
theorem Tracks.start (h : Tracks cl N x R) (hflag : (cl.flags a).leader = false)
    (ha : a ∈ cl.memberList) (hleader : ∀ y ∈ x.leader, y ∈ x.up ∧ y ≠ a) : ∃ N' R',
      EvalsAmong (db cl) (insert a x.up) a (body cl a .coordinate) (Function.update N a {})
        (x.start cl a).1 N' ∧ Tracks cl N' (x.start cl a).2 R' := by
  rcases hy : x.leader with _ | y
  · -- nobody knows a leader
    have h' := h.join_unled ha hy
    have hup : a ∈ (x.join a).up := Finset.mem_insert_self _ _
    have hnone : ∀ d ∈ (x.join a).up, (Function.update N a {} d).leader = "" := fun d hd ↦ by
      rw [(h'.up d hd).2.leader, (h.unled hy).1]
    rw [ClusterState.start]
    by_cases hel : (cl.flags a).election = true
    · rw [if_pos ⟨hy, hel⟩]
      split
      · rename_i henough
        have hcomplete : a ∈ (x.join a).complete := by
          rw [ClusterState.join, if_pos hy]
          exact Finset.mem_insert_self _ _
        obtain ⟨N₁, R₁, hev, h₁⟩ := h'.evals_electLeader hcomplete henough
        refine ⟨N₁, R₁, evalsAmong_coordinate_elect hflag hnone ?_, h₁⟩
        rw [coordinate.orElect, hel, if_pos rfl, Prog.invoke_bind]
        refine EvalsAmong.reached hup hev ?_
        rw [if_neg (not_not_intro Status.ok_default)]
        exact evalsAmong_recover_leader (h₁.leader_eq rfl hup)
      · rename_i henough
        have hev : EvalsAmong (db cl) (x.join a).up a _ _ _ _ := evalsAmong_electLeader_refused
          (h'.evals_refused henough a (electRequest "leader" a)) (Status.not_ok_aborted _)
        refine ⟨_, R, evalsAmong_coordinate_elect hflag hnone ?_, h'⟩
        rw [coordinate.orElect, hel, if_pos rfl, Prog.invoke_bind]
        refine EvalsAmong.reached hup hev ?_
        rw [if_pos (show ¬ Status.Ok defaultResponse.status from Status.not_ok_aborted _)]
        exact .ret
    · rw [if_neg fun hc ↦ hel hc.2]
      refine ⟨_, R, evalsAmong_coordinate_elect hflag hnone ?_, h'⟩
      rw [coordinate.orElect, if_neg hel]
      exact evalsAmong_recover_none (hnone a hup)
  · obtain ⟨hup, hya⟩ := hleader y hy
    have hmem := (h.led y hy).1
    have hNy : Function.update N a {} y = N y := Function.update_of_ne hya _ _
    have hknown : ∀ d ∈ insert a x.up, (Function.update N a {} d).leader = "" ∨
        (Function.update N a {} d).leader = y := fun d hd ↦ by
      by_cases hda : d = a
      · exact .inl (by rw [hda, Function.update_self])
      · rw [Function.update_of_ne hda]
        exact .inr (h.leader_eq hy ((Finset.mem_insert.1 hd).resolve_left hda))
    have hev := evalsAmong_coordinate_copy hflag hmem hya (Finset.mem_insert_of_mem hup)
      (by rw [Function.update_self]) hknown
      ⟨y, hmem, Finset.mem_insert_of_mem hup, by rw [hNy]; exact h.leader_eq hy hup⟩
    rw [Function.update_self, Function.update_idem, hNy, (h.up y hup).2.kvStore] at hev
    have hne : x.leader ≠ none := hy ▸ Option.some_ne_none y
    rw [ClusterState.start, if_neg fun hc ↦ hne hc.1]
    exact ⟨_, R, hev, h.join_led ha hy hya⟩

/-! ### Stories -/

/-- **The nodes refine the abstract database.** -/
theorem refines_machine (hflags : ∀ a ∈ cl.memberList, (cl.flags a).leader = false) :
    (machine cl).Refines (db cl) fun N x ↦ ∃ R, Tracks cl N x R where
  call := by
    rintro N x a t ⟨R, h⟩ ⟨ha, ht⟩
    obtain ⟨N', R', hev, h'⟩ := h.call ha ht
    exact ⟨_, N', hev, rfl, R', h'⟩
  stop := by
    rintro N x a ⟨R, h⟩ -
    exact ⟨rfl, h.stop a⟩
  start := by
    rintro N x a ⟨R, h⟩ ⟨ha, hleader⟩
    obtain ⟨N', R', hev, h'⟩ := h.start (hflags a ha) ha hleader
    exact ⟨_, N', hev, rfl, R', h'⟩

/-- A story of a cluster of which no node has started yet. -/
abbrev ClusterStory (cl : Cluster) : List (Deed Db × Option Reply) → ClusterState → Net (db cl) →
    Prop := Story (machine cl) (cl.start fun _ ↦ {}) {}

variable {σ : List (Deed Db × Option Reply)} {n : Net (db cl)}

/-- The results are those of the abstract database. -/
theorem run_of_story (hflags : ∀ a ∈ cl.memberList, (cl.flags a).leader = false)
    (h : ClusterStory cl σ x n) : (∃ R, Tracks cl n.nodes x R) ∧
      (machine cl).run {} (σ.map (·.1)) = (σ.map (·.2), x) :=
  h.simulates (refines_machine hflags) ⟨{}, .empty _⟩

/-- What the abstract database allows can happen, with its results. -/
theorem exists_story (hflags : ∀ a ∈ cl.memberList, (cl.flags a).leader = false)
    (ds : List (Deed Db)) (hds : (machine cl).Accepts {} ds) :
    ∃ x n, ClusterStory cl (ds.zip ((machine cl).run {} ds).1) x n := by
  have hnil : ClusterStory cl [] {} (cl.start fun _ ↦ {}) := .nil
  obtain ⟨σ, x, n, h, rfl⟩ := hnil.exists_of_accepts (refines_machine hflags) ⟨{}, .empty _⟩ hds
  rw [List.nil_append] at h
  refine ⟨x, n, ?_⟩
  rw [(run_of_story hflags h).2, List.zip_map']
  exact (List.map_id σ).symm ▸ h

/-- **Clients see one map**, while nodes stop and start: all answers are those of the abstract
database, the nodes that are up hold its map and know its leader, and what it allows can happen
next. -/
theorem crashRecovery (hflags : ∀ a ∈ cl.memberList, (cl.flags a).leader = false)
    (h : ClusterStory cl σ x n) :
    (machine cl).run {} (σ.map (·.1)) = (σ.map (·.2), x) ∧
    (∀ d ∈ x.up, (n.nodes d).leader = x.leader.getD "" ∧
      ∀ key, (n.nodes d).kvStore.lookup key = x.map key) ∧
    ∀ d, (machine cl).allows x d →
      ∃ r n', ClusterStory cl (σ ++ [(d, r)]) ((machine cl).next x d).2 n' := by
  obtain ⟨⟨R, hR⟩, hrun⟩ := run_of_story hflags h
  refine ⟨hrun, fun d hd ↦ ⟨?_, fun key ↦ ?_⟩, fun d hd ↦
    h.exists_next (refines_machine hflags) ⟨{}, .empty _⟩ hd⟩
  · rw [(hR.up d hd).2.leader, hR.leader]
  · rw [(hR.up d hd).2.kvStore, hR.map]

/-- All nodes of `trio` start, then the leader stops, starts again and copies what was set, and then
the next leaders stop: the value is found all the same, until there is no quorum. -/
theorem crashRecovery_trio : ∃ σ x n, ClusterStory trio σ x n ∧
    σ.map (·.1) = [.start "a:1", .start "b:1", .start "c:1", .call "c:1" (.set "k" "v"),
      .stop "b:1", .call "a:1" (.get "k"), .start "b:1", .stop "c:1", .stop "b:1",
      .call "a:1" (.get "k"), .call "a:1" (.set "k" "w")] ∧
    σ.map (·.2) = [some notEstablished, some {}, some {}, some {}, none,
      some (found (some "v")), some {}, none, none, some (found (some "v")),
      some defaultResponse] := by
  have hflags : ∀ a ∈ trio.memberList, (trio.flags a).leader = false := fun _ _ ↦ rfl
  obtain ⟨x, n, h⟩ := exists_story hflags [.start "a:1", .start "b:1", .start "c:1",
    .call "c:1" (.set "k" "v"), .stop "b:1", .call "a:1" (.get "k"), .start "b:1", .stop "c:1",
    .stop "b:1", .call "a:1" (.get "k"), .call "a:1" (.set "k" "w")] (by decide)
  have hrun := (crashRecovery hflags h).1
  refine ⟨_, x, n, h, rfl, ?_⟩
  refine (congrArg Prod.fst hrun).symm.trans ?_
  decide

/-! ### Durability -/

/-- The nodes that are up after what happened. -/
def upAfter (ds : List (Deed Db)) : Finset String :=
  ds.foldl (fun up d ↦ match d with
    | .start a => insert a up
    | .stop a => up.erase a
    | .call _ _ => up) ∅

variable (cl) in
/-- A request changes the leader and the map only, and the map only if it is a set. -/
theorem call_state (x : ClusterState) (a : String) (t : Task) :
    ∃ l m, (x.call cl a t).2 = { x with leader := l, map := m } ∧
      (m = x.map ∨ ∃ key value, t = .set key value ∧
        m = Function.update x.map key (some value)) := by
  cases t with
  | set key value =>
    rw [ClusterState.call, ClusterState.set]
    split
    · exact ⟨x.leader, x.map, rfl, .inl rfl⟩
    · split
      · exact ⟨_, _, rfl, .inr ⟨key, value, rfl, rfl⟩⟩
      · exact ⟨x.leader, x.map, rfl, .inl rfl⟩
  | get key =>
    rw [ClusterState.call, ClusterState.get]
    split
    · exact ⟨x.leader, x.map, rfl, .inl rfl⟩
    · split
      · exact ⟨x.leader, x.map, rfl, .inl rfl⟩
      · split <;> exact ⟨_, x.map, rfl, .inl rfl⟩
  | electLeader key value =>
    rw [ClusterState.call, ClusterState.elect]
    split <;> exact ⟨_, x.map, rfl, .inl rfl⟩
  | attemptConsensus | coordinate => exact ⟨x.leader, x.map, rfl, .inl rfl⟩

/-- A node that starts changes neither the map nor which of the others are up. -/
theorem start_state (x : ClusterState) (a : String) :
    (x.start cl a).2.up = insert a x.up ∧ (x.start cl a).2.map = x.map := by
  rw [ClusterState.start]
  split
  · split <;> exact ⟨rfl, rfl⟩
  · exact ⟨rfl, rfl⟩

theorem stop_up (x : ClusterState) (a : String) : (x.stop a).up = x.up.erase a := by
  rw [ClusterState.stop]
  split
  · rename_i h
    exact h.symm
  · rfl

variable (cl) in
/-- The machine keeps account of the nodes that are up. -/
theorem upAfter_eq (ds : List (Deed Db)) : ((machine cl).run {} ds).2.up = upAfter ds := by
  induction ds using List.reverseRecOn with
  | nil => rfl
  | append_singleton ds d ih =>
    rw [Machine.run_append_one, upAfter, List.foldl_append, ← upAfter, ← ih]
    match d with
    | .call a t =>
      obtain ⟨l, m, hcall, -⟩ := call_state cl ((machine cl).run {} ds).2 a t
      show (((machine cl).run {} ds).2.call cl a t).2.up = ((machine cl).run {} ds).2.up
      rw [hcall]
    | .stop a => exact stop_up _ a
    | .start a => exact (start_state _ a).1

/-- **What a step keeps**: the value of a key, unless the key is set or the last node stops. -/
theorem next_map {d : Deed Db} (hup : ((machine cl).next x d).2.up.Nonempty)
    (hset : ∀ a value, d ≠ .call a (.set key value)) :
    ((machine cl).next x d).2.map key = x.map key := by
  match d with
  | .call a t =>
    obtain ⟨l, m, hcall, hm⟩ := call_state cl x a t
    refine (congrFun (congrArg ClusterState.map hcall) key).trans ?_
    show m key = x.map key
    rcases hm with rfl | ⟨key', value, rfl, rfl⟩
    · rfl
    · refine Function.update_of_ne (fun heq ↦ hset a value ?_) _ _
      rw [heq]
  | .stop a =>
    have hne : x.up.erase a ≠ ∅ := by
      rw [← stop_up]
      exact hup.ne_empty
    show (x.stop a).map key = x.map key
    rw [ClusterState.stop, if_neg hne]
  | .start a => exact congrFun (start_state x a).2 key

/-- What an acknowledged set leaves. -/
theorem map_of_set {value : String} (hok : (x.set cl a key value).1.status.Ok) :
    (x.set cl a key value).2.map key = some value := by
  rw [ClusterState.set] at hok ⊢
  split at hok
  · exact absurd hok (Status.not_ok_aborted _)
  split at hok
  · rename_i henough
    rw [if_pos henough]
    exact Function.update_self _ _ _
  · split at hok <;> exact absurd hok (Status.not_ok_aborted _)

/-- What a get that succeeds answers. -/
theorem get_of_ok (hok : (x.get cl a key).1.status.Ok) :
    (x.get cl a key).1 = found (x.map key) := by
  rw [ClusterState.get] at hok ⊢
  split at hok
  · exact absurd hok (Status.not_ok_aborted _)
  split at hok
  · rename_i hup
    rw [if_pos hup]
  rename_i hup
  rw [if_neg hup]
  split at hok
  · rename_i henough
    rw [if_pos henough]
  · exact absurd hok (Status.not_ok_aborted _)

/-- **Durability**: what was acknowledged is found by every later get that succeeds, at whichever
node, until the key is set again, as long as one node is up at any time. -/
theorem durable (hflags : ∀ a ∈ cl.memberList, (cl.flags a).leader = false)
    {σ₁ σ₂ : List (Deed Db × Option Reply)} {b value : String} {e e' : Reply}
    (h : ClusterStory cl (σ₁ ++ (.call a (.set key value), some e) ::
      (σ₂ ++ [(.call b (.get key), some e')])) x n)
    (hok : e.status.Ok) (hok' : e'.status.Ok)
    (hup : ∀ τ ∈ σ₂.inits,
      (upAfter ((σ₁ ++ (.call a (.set key value), some e) :: τ).map (·.1))).Nonempty)
    (hset : ∀ c v r, (.call c (.set key v), r) ∉ σ₂) : e' = found (some value) := by
  obtain ⟨-, hrun⟩ := run_of_story hflags h
  have hresults := congrArg Prod.fst hrun
  -- what was set is in the map,
  have hmap : ∀ τ, τ <+: σ₂ → ((machine cl).run {} ((σ₁ ++ (.call a (.set key value), some e) ::
      τ).map (·.1))).2.map key = some value := by
    intro τ hτ
    induction τ using List.reverseRecOn with
    | nil =>
      have he := Option.some.inj (Machine.next_of_run _ hresults)
      rw [List.map_append, List.map_singleton, Machine.run_append_one]
      exact map_of_set (by rwa [← he] at hok)
    | append_singleton τ d ih =>
      have hprefix : τ <+: σ₂ := (List.prefix_append τ [d]).trans hτ
      rw [← ih hprefix, ← List.cons_append, ← List.append_assoc, List.map_append,
        List.map_singleton, Machine.run_append_one]
      refine next_map ?_ fun c v hd ↦ hset c v d.2 ?_
      · have hnext := hup _ ((List.mem_inits _ _).2 hτ)
        rw [← upAfter_eq cl, ← List.cons_append, ← List.append_assoc, List.map_append,
          List.map_singleton, Machine.run_append_one] at hnext
        exact hnext
      · rw [← hd]
        exact hτ.subset (by simp)
  -- and found there
  rw [← List.cons_append, ← List.append_assoc] at hresults
  have he' := Option.some.inj (Machine.next_of_run _ hresults)
  have hget : e' = found _ := he' ▸ get_of_ok (he' ▸ hok')
  exact hget.trans (congrArg found (hmap σ₂ List.prefix_rfl))

/-- The leader of `trio` stops, its successor takes over, and a third node asks it. -/
theorem durable_trio : ∃ e e' x n, ClusterStory trio
    ([(.start "a:1", some notEstablished), (.start "b:1", some {}), (.start "c:1", some {})] ++
      (.call "c:1" (.set "k" "v"), some e) ::
      ([(.stop "b:1", none), (.call "a:1" (.get "x"), some (found none)),
        (.start "b:1", some {}), (.stop "c:1", none)] ++
        [(.call "b:1" (.get "k"), some e')])) x n ∧ e' = found (some "v") := by
  have hflags : ∀ a ∈ trio.memberList, (trio.flags a).leader = false := fun _ _ ↦ rfl
  obtain ⟨x, n, h⟩ := exists_story hflags [.start "a:1", .start "b:1", .start "c:1",
    .call "c:1" (.set "k" "v"), .stop "b:1", .call "a:1" (.get "x"), .start "b:1", .stop "c:1",
    .call "b:1" (.get "k")] (by decide)
  have hstory : ClusterStory trio
      ([(.start "a:1", some notEstablished), (.start "b:1", some {}), (.start "c:1", some {})] ++
        (.call "c:1" (.set "k" "v"), some ({} : Reply)) ::
        ([(.stop "b:1", none), (.call "a:1" (.get "x"), some (found none)),
          (.start "b:1", some {}), (.stop "c:1", none)] ++
          [(.call "b:1" (.get "k"), some (found (some "v")))])) x n := h
  exact ⟨{}, found (some "v"), x, n, hstory,
    durable hflags hstory Status.ok_default Status.ok_default (by decide) (by simp)⟩

end ReplicatedDB
