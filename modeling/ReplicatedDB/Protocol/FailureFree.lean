import Mathlib.Data.Int.ConditionallyCompleteOrder
import Mathlib.Data.Int.Interval
import ReplicatedDB.Model.Evaluation

/-!
# Failure-free sessions

When requests are handled one after another and nothing is lost, the whole cluster behaves like
one map. `MapState` is that map, together with whether an election has taken place, and
`Simulates` relates it to the nodes: all of them are in one state, whose log has no gaps, and whose
store is the map. Every attempt then opens a round that nobody has logged, so it finds nothing to
adopt and every node commits it (`evals_attempt_uniform`). Hence each call evaluates as the map says
(`evals_call`), and sessions get the answers of the map (`failureFree`).
-/

namespace ReplicatedDB

open Rpc Rpc.Net

/-! ### The abstract map -/

/-- Whether there was an election, and the values set. -/
structure MapState where
  elected : Bool := false
  map : String → Option String := fun _ ↦ none

/-- The answer to a `get`: error 1 exactly for absent keys. -/
def found : Option String → Reply
  | some value => { getResponse := { value := value } }
  | none => { getResponse := { error := 1 } }

/-- What the map answers to a call, and how it changes. -/
def MapState.call (m : MapState) : Task → Reply × MapState
  | .electLeader _ _ => ({}, { m with elected := true })
  | .set key value =>
    if m.elected then ({}, { m with map := Function.update m.map key (some value) })
    else (noLeader, m)
  | .get key => if m.elected then (found (m.map key), m) else (noLeader, m)
  | .attemptConsensus _ | .coordinate => ({}, m)

/-- What clients ask of a member: a set or a get of a key other than `"leader"`, or an election. -/
def Cluster.Serves (cl : Cluster) (a : String) (t : Task) : Prop :=
  a ∈ cl.memberList ∧ match t with
    | .set key _ | .get key => key ≠ "leader"
    | .electLeader key value => key = "leader" ∧ value = a
    | .attemptConsensus _ | .coordinate => False

/-! ### Logs without gaps -/

/-- The rounds logged are `0, …, m - 1`, and all of them are accepted. -/
def Gapless (l : Log) : Prop :=
  ∃ m : ℕ, l.keys = Finset.Ico 0 (m : ℤ) ∧ ∀ round ∈ l.keys, l.Accepted round

namespace Gapless

variable {l : Log}

theorem empty : Gapless ∅ := ⟨0, rfl, fun _ h ↦ absurd h (Finset.notMem_empty _)⟩

theorem mem_keys_iff (h : Gapless l) {round : ℤ} :
    round ∈ l.keys ↔ 0 ≤ round ∧ round < Log.size l := by
  obtain ⟨m, hkeys, -⟩ := h
  simp [Log.size, hkeys]

/-- The next round keeps the log without gaps. -/
theorem insert (h : Gapless l) {e : LogEntry} (he : 0 < e.aServerId) :
    Gapless (l.insert (Log.size l) e) := by
  obtain ⟨m, hkeys, hacc⟩ := h
  have hsize : Log.size l = m := by simp [Log.size, hkeys]
  refine ⟨m + 1, ?_, fun round hround ↦ ?_⟩
  · ext round
    rw [keys_insert, hsize, hkeys, Finset.mem_insert, Finset.mem_Ico, Finset.mem_Ico]
    omega
  · rw [Log.Accepted]
    by_cases heq : round = Log.size l
    · subst heq
      rwa [Log.entry_insert_self]
    · rw [Log.entry_insert_of_ne _ _ heq]
      rw [keys_insert, Finset.mem_insert] at hround
      exact hacc round (hround.resolve_left heq)

end Gapless

/-! ### The simulation -/

/-- All members are in the state `R`, whose logs have no gaps and hold no promises. -/
structure Uniform (cl : Cluster) (N : String → Replica) (R : Replica) : Prop where
  nodes : ∀ d ∈ cl.memberList, N d = R
  gapless : ∀ key, Gapless (R.log key)
  promise : ∀ key round, ((R.log key).entry round).pServerId = 0

/-- All members are in one state, whose store is the map. Without an election that is the fresh
state, and after one its leader is a member. -/
def Simulates (cl : Cluster) (N : String → Replica) (m : MapState) : Prop :=
  ∃ R, Uniform cl N R ∧ (∀ key, R.kvStore.lookup key = m.map key) ∧
    (¬ m.elected → R = {}) ∧ (m.elected → R.leader ∈ cl.memberList)

variable {cl : Cluster} {N : String → Replica} {R : Replica} {me a : String} {m : MapState}
  {s s' : Net (db cl)}

/-- The request an attempt has accepted in an empty slot: its own. -/
def ownRequest (r : Request) (R : Replica) : Request :=
  { key := r.key, round := Log.size (R.log r.key), pserverId := 1, op := r.op, value := r.value }

/-- Nobody refuses a proposal. -/
theorem Uniform.willing (h : Uniform cl N R) (r : Request) (round : ℤ) :
    ∀ d ∈ cl.memberList, Willing (prepareRequest r round) (N d) := by
  intro d hd
  rw [h.nodes d hd, Willing, h.promise]
  exact zero_le_one

/-- An entry added at the end of a log leaves no gaps. -/
theorem Uniform.commit (h : Uniform cl N R) (r : Request) :
    Uniform cl (fun d ↦ if d ∈ cl.memberList then (N d).commit (ownRequest r R) else N d)
      (R.commit (ownRequest r R)) where
  nodes d hd := by rw [if_pos hd, h.nodes d hd]
  gapless key := by
    by_cases hkey : key = r.key
    · subst hkey
      rw [Replica.log, show (R.commit (ownRequest r R)).paxLog =
        R.paxLog.modify r.key (Log.size (R.log r.key)) fun e ↦ e.accepted (ownRequest r R) from rfl,
        PaxLog.rounds_modify_self]
      exact (h.gapless r.key).insert one_pos
    · rw [Replica.log, show (R.commit (ownRequest r R)).paxLog =
        R.paxLog.modify r.key (Log.size (R.log r.key)) fun e ↦ e.accepted (ownRequest r R) from rfl,
        PaxLog.rounds_modify_of_ne _ _ _ hkey]
      exact h.gapless key
  promise key _ := by
    rw [Replica.log, show (R.commit (ownRequest r R)).paxLog =
      R.paxLog.modify r.key (Log.size (R.log r.key)) fun e ↦ e.accepted (ownRequest r R) from rfl,
      PaxLog.entry_modify]
    split
    · exact h.promise _ _
    · exact h.promise key _

/-- **An attempt at a uniform cluster** finds nothing to adopt, and every member commits it. -/
theorem evals_attempt_uniform (h : Uniform cl N R) (hme : me ∈ cl.memberList) (r : Request) :
    Evals (db cl) Plan.prompt me (attemptConsensus cl.memberList r) N
      { response := acceptResponse (ownRequest r R) }
      (fun d ↦ if d ∈ cl.memberList then (N d).commit (ownRequest r R) else N d) := by
  have hfree : ¬ (R.log r.key).Accepted (Log.size (R.log r.key)) := fun hacc ↦
    absurd ((h.gapless r.key).mem_keys_iff.1 (Log.mem_keys_of_accepted hacc)).2 (lt_irrefl _)
  have hv : proposals cl Plan.prompt (prepareRequest r (Log.size (R.log r.key))) cl.memberList N =
      { numAcceptedProposals := cl.memberList.length } :=
    proposals_of_free (fun _ _ ↦ rfl) (h.willing r _) fun d hd ↦ by
      rw [h.nodes d hd]
      exact hfree
  refine evals_attempt_prompt r cl.nodup cl.ne_nil (p := prepareRequest r _)
    (q := ownRequest r R) rfl ?_ (h.willing r _)
  rw [h.nodes me hme, hv]
  rfl

/-- The round of an attempt is current everywhere. -/
theorem Uniform.current (h : Uniform cl N R) (r : Request) : Current (ownRequest r R) R :=
  fun _ hround ↦ ((h.gapless r.key).mem_keys_iff.1 hround).2.le

/-- An attempt at a key of clients writes the store. -/
theorem Uniform.commit_of_ne (h : Uniform cl N R) {r : Request} (hkey : r.key ≠ "leader") :
    (R.commit (ownRequest r R)).kvStore = R.kvStore.setKV r.key r.value ∧
      (R.commit (ownRequest r R)).leader = R.leader :=
  ⟨if_pos ⟨h.current r, hkey⟩, if_neg fun hc ↦ hkey hc.2⟩

/-- An election writes the leader register. -/
theorem Uniform.commit_leader (h : Uniform cl N R) {r : Request} (hkey : r.key = "leader") :
    (R.commit (ownRequest r R)).kvStore = R.kvStore ∧
      (R.commit (ownRequest r R)).leader = r.value :=
  ⟨if_neg fun hc ↦ hc.2 hkey, if_pos ⟨h.current r, hkey⟩⟩

/-- What the leader answers to a `get` is what the map holds. -/
theorem getAnswer_eq_found (kv : KVStore) (key : String) :
    ({ getResponse := getAnswer (kv.getKV key) } : Reply) = found (kv.lookup key) := by
  rw [KVStore.getKV]
  cases kv.lookup key <;> rfl

/-- A set at the leader of a uniform cluster. -/
theorem evals_set_uniform (h : Uniform cl N R) (hleader : R.leader ∈ cl.memberList)
    (ha : a ∈ cl.memberList) (key value : String) :
    Evals (db cl) Plan.prompt a (body cl a (.set key value)) N {}
      (fun d ↦ if d ∈ cl.memberList then (N d).commit (ownRequest (setRequest key value) R)
        else N d) := by
  have hset : Evals (db cl) Plan.prompt R.leader (body cl R.leader (.set key value)) N {} _ :=
    evals_set_leader (by rw [h.nodes _ hleader]) (ne_of_mem_of_not_mem hleader cl.nonempty)
      (evals_attempt_uniform h hleader (setRequest key value))
  by_cases hla : R.leader = a
  · rwa [hla] at hset
  · exact evals_set_forward (by rw [h.nodes a ha]) hleader hla hset Status.ok_default

/-- A get at a uniform cluster. -/
theorem evals_get_uniform (h : Uniform cl N R) (hleader : R.leader ∈ cl.memberList)
    (ha : a ∈ cl.memberList) (key : String) :
    Evals (db cl) Plan.prompt a (body cl a (.get key)) N (found (R.kvStore.lookup key)) N := by
  have hget : Evals (db cl) Plan.prompt R.leader (body cl R.leader (.get key)) N
      (found (R.kvStore.lookup key)) N := by
    have hget : Evals (db cl) Plan.prompt R.leader (body cl R.leader (.get key)) N _ N :=
      evals_get_leader (by rw [h.nodes _ hleader]) (ne_of_mem_of_not_mem hleader cl.nonempty)
    rwa [h.nodes _ hleader, getAnswer_eq_found] at hget
  by_cases hla : R.leader = a
  · rwa [hla] at hget
  · have hfound : found (R.kvStore.lookup key) =
        { getResponse := (found (R.kvStore.lookup key)).getResponse } := by
      cases R.kvStore.lookup key <;> rfl
    rw [hfound]
    refine evals_get_forward (by rw [h.nodes a ha]) hleader hla hget ?_
    cases R.kvStore.lookup key <;> exact Status.ok_default

/-- **Every call evaluates as the map says.** -/
theorem evals_call {t : Task} (h : Simulates cl N m) (hcall : cl.Serves a t) :
    ∃ N', Evals (db cl) Plan.prompt a (body cl a t) N (m.call t).1 N' ∧
      Simulates cl N' (m.call t).2 := by
  have hsim := h
  obtain ⟨R, hR, hmap, hfresh, hleader⟩ := h
  obtain ⟨ha, hkey⟩ := hcall
  -- without an election no node knows a leader
  have hnone : ¬ m.elected → (N a).leader = "" := fun hel ↦ by
    rw [hR.nodes a ha, hfresh hel]
  cases t with
  | attemptConsensus r => exact absurd hkey id
  | coordinate => exact absurd hkey id
  | electLeader key value =>
    obtain ⟨rfl, rfl⟩ := hkey
    obtain ⟨hstore, hvalue⟩ := hR.commit_leader (r := electRequest "leader" value) rfl
    refine ⟨_, evals_electLeader (evals_attempt_uniform hR ha _) Status.ok_default,
      R.commit (ownRequest (electRequest "leader" value) R), ?_, fun key ↦ ?_, fun hel ↦ ?_,
      fun _ ↦ hvalue ▸ ha⟩
    · -- the register of the candidate is written once more
      have hcommit := hR.commit (electRequest "leader" value)
      convert hcommit using 1
      rw [Function.update_eq_self_iff, hcommit.nodes value ha]
      exact congrArg (fun x ↦ Replica.mk _ _ x) hvalue.symm
    · rw [hstore]
      exact hmap key
    · exact absurd rfl hel
  | set key value =>
    by_cases hel : m.elected
    · obtain ⟨hstore, hreg⟩ := hR.commit_of_ne (r := setRequest key value) hkey
      rw [MapState.call, if_pos hel]
      refine ⟨_, evals_set_uniform hR (hleader hel) ha key value, _, hR.commit _, fun key' ↦ ?_,
        fun hel' ↦ absurd hel hel', fun _ ↦ hreg ▸ hleader hel⟩
      rw [hstore]
      change _ = Function.update m.map key (some value) key'
      by_cases hkk : key' = key
      · subst hkk
        rw [Function.update_self]
        exact KVStore.lookup_setKV_self _ _ _
      · rw [Function.update_of_ne hkk, ← hmap key']
        exact KVStore.lookup_setKV_of_ne _ _ hkk
    · rw [MapState.call, if_neg hel]
      exact ⟨N, evals_set_noLeader (hnone hel), hsim⟩
  | get key =>
    by_cases hel : m.elected
    · rw [MapState.call, if_pos hel, ← hmap key]
      exact ⟨N, evals_get_uniform hR (hleader hel) ha key, hsim⟩
    · rw [MapState.call, if_neg hel]
      exact ⟨N, evals_get_noLeader (hnone hel), hsim⟩

/-! ### Sessions -/

/-- What the map answers to the calls of a session, and how it ends. -/
def mapRun (σ : List (String × Task × Reply)) : List Reply × MapState :=
  serve (S := Db) MapState.call {} (σ.map fun e ↦ e.2.1)

/-- A fresh cluster is an empty map. -/
theorem simulates_start : Simulates cl (fun _ ↦ {}) {} :=
  ⟨{}, ⟨fun _ _ ↦ rfl, fun _ ↦ Gapless.empty, fun _ _ ↦ rfl⟩, fun _ ↦ rfl, fun _ ↦ rfl, nofun⟩

/-- **A failure-free cluster behaves like one map**: after every operation all nodes agree, the
rounds of every key have no gaps, the store is the map, a cluster without an election is fresh, the
answers are those of the map, and the next operation can be handled. -/
theorem failureFree {σ : List (String × Task × Reply)}
    (h : Session (fun _ ↦ Plan.prompt) cl.Serves (cl.start fun _ ↦ {}) σ s) :
    (∀ a ∈ cl.memberList, ∀ b ∈ cl.memberList, s.nodes a = s.nodes b) ∧
    (∀ d ∈ cl.memberList, ∀ key, Gapless ((s.nodes d).log key) ∧
      (s.nodes d).kvStore.lookup key = (mapRun σ).2.map key) ∧
    (¬ (mapRun σ).2.elected → ∀ d ∈ cl.memberList, s.nodes d = {}) ∧
    σ.map (fun e ↦ e.2.2) = (mapRun σ).1 ∧
    ∀ a t, cl.Serves a t → ∃ r s', s.Handles Plan.prompt a t r s' := by
  have hstep : ∀ N m a t, Simulates cl N m → cl.Serves a t →
      ∃ N', Evals (db cl) Plan.prompt a (body cl a t) N (m.call t).1 N' ∧
        Simulates cl N' (m.call t).2 := fun N m a t hsim hcall ↦ evals_call hsim hcall
  obtain ⟨⟨R, hR, hmap, hfresh, -⟩, hanswers⟩ := h.simulates hstep simulates_start
  refine ⟨fun a ha b hb ↦ by rw [hR.nodes a ha, hR.nodes b hb], fun d hd key ↦ ?_,
    fun hel d hd ↦ by rw [hR.nodes d hd, hfresh hel], hanswers,
    fun a t hcall ↦ h.exists_handles hstep simulates_start hcall⟩
  rw [hR.nodes d hd]
  exact ⟨hR.gapless key, hmap key⟩

/-- A set too early, an election, a set at a follower, and two gets. -/
theorem failureFree_trio :
    ∃ σ s, Session (fun _ ↦ Plan.prompt) trio.Serves (trio.start fun _ ↦ {}) σ s ∧
    σ.map (fun e ↦ e.2.2) = [noLeader, {}, {}, found (some "v"), found none] ∧
    ∀ d ∈ trio.memberList, (s.nodes d).kvStore.lookup "k" = some "v" := by
  have hnext : ∀ σ s a t, Session (fun _ ↦ Plan.prompt) trio.Serves (trio.start fun _ ↦ {}) σ s →
      trio.Serves a t → ∃ r s', s.Handles Plan.prompt a t r s' :=
    fun σ s a t h hcall ↦ (failureFree h).2.2.2.2 a t hcall
  obtain ⟨σ, s, h, hcalls⟩ := Session.exists_of_calls hnext
    [("c:1", .set "k" "u"), ("a:1", .electLeader "leader" "a:1"), ("b:1", .set "k" "v"),
      ("c:1", .get "k"), ("a:1", .get "x")] (by
        simp [Cluster.Serves, trio])
  have htasks : σ.map (fun e ↦ e.2.1) = [.set "k" "u", .electLeader "leader" "a:1",
      .set "k" "v", .get "k", .get "x"] := by
    have := congrArg (List.map Prod.snd) hcalls
    rwa [List.map_map] at this
  obtain ⟨-, hnodes, -, hanswers, -⟩ := failureFree h
  rw [mapRun, htasks] at hanswers hnodes
  exact ⟨σ, s, h, hanswers, fun d hd ↦ (hnodes d hd "k").2⟩

end ReplicatedDB
