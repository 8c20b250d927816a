import ReplicatedDB.Model.Routing
import ReplicatedDB.Protocol.Deposed
import ReplicatedDB.Rpc.Guarantee

/-!
# Data and control

Clients set keys, elections set the key "leader", and both go through the same phases into the same
log; a success message tells the two apart by the key. So a client that sets "leader" moves the
registers of all members and stores nothing (`not_controlState_trio`).

Nothing else does. If clients set other keys only, then the registers change through messages that
were issued with the operation `SET_LEADER`, and at the start of a node (`LeaderOps`). And a set
that is handled while nothing is lost leaves the registers alone and can be read everywhere exactly
if it reaches its leader with another key, the value is not displaced by an accepted one, and every
member leads to a node that learns it (`clientSafe_iff`).
-/

namespace ReplicatedDB

open Rpc Rpc.Net

variable {cl : Cluster}

/-! ### Operations on the key of the leader -/

/-- What writes the key of the leader has the operation `SET_LEADER`. -/
def Act.SetsLeader (a : Act) : Prop := ∀ q, a.write? = some q → q.key = "leader" → q.op = .setLeader

/-- What asks for the key of the leader to be written has the operation `SET_LEADER`. -/
def Task.SetsLeader : Task → Prop
  | .attemptConsensus r => r.key = "leader" → r.op = .setLeader
  | .set key _ => key ≠ "leader"
  | _ => True

/-- An entry reported for the key of the leader has the operation `SET_LEADER`. -/
def AnswerSetsLeader : (c : Call Db) → c.Ret → Prop
  | .act _ (.propose q), (x : Status × Response) =>
    q.key = "leader" → x.1.Ok → 0 < x.2.aserverId → x.2.op = .setLeader
  | _, _ => True

theorem Adopts.setsLeader {p : Activation Db} {r q : Request} (hp : (contract cl).Lawful p)
    (htask : p.task = .attemptConsensus r) (hr : p.task.SetsLeader)
    (hans : ∀ e ∈ p.hist, AnswerSetsLeader e.1 e.2) (ha : Adopts r p.hist q)
    (hkey : q.key = "leader") : q.op = .setLeader := by
  rw [ha.key] at hkey
  rcases ha.value with ⟨hop, -, -⟩ | ⟨d, q', x, hx, hok, hpos, hop, -⟩
  · rw [htask] at hr
    exact hop.trans (hr hkey)
  · have hkey' := key_of_sent_propose hp htask hx.sent
    exact hop.trans (hans _ hx (hkey'.trans hkey) hok hpos)

/-- **The operation is carried through every phase.** -/
def leaderOps (cl : Cluster) : Guarantee (contract cl) where
  state _ st := ∀ round, (st.log "leader").Accepted round →
    ((st.log "leader").entry round).op = .setLeader
  act := Act.SetsLeader
  task _ := Task.SetsLeader
  answer := AnswerSetsLeader
  fresh _ round hacc := absurd hacc (by simp [Log.Accepted, Replica.log])
  boot _ := trivial
  step_act d dest a st hst ha := by
    refine ⟨fun round hacc ↦ ?_, ?_⟩
    · rcases entry_act a st "leader" round with heq | ⟨q, hq, hkey, rfl⟩
      · rw [heq]
        exact hst round (by rwa [Log.Accepted, ← heq])
      · have heq := entry_act_self a st hq
        rw [hkey] at heq
        rw [heq]
        exact ha q hq hkey
    · cases a with
      | propose q =>
        intro hkey hok hpos
        obtain ⟨hacc, hop, -⟩ := accepted_of_propose hok hpos
        rw [hkey] at hacc hop
        exact hop.trans (hst _ hacc)
      | _ => trivial
  lost dest a := by
    cases a with
    | propose q => exact fun _ hok ↦ absurd hok Status.not_ok_unavailable
    | _ => trivial
  failed dest t := trivial
  calls_act p dest a hp ht hans he := by
    intro q hq hkey
    obtain ⟨round, hslot⟩ : ∃ round, a.slot? = some (q.key, round) := by
      cases a with
      | accept q' => exact ⟨_, by rw [← Option.some.inj hq]; rfl⟩
      | success q' => exact ⟨_, by rw [← Option.some.inj hq]; rfl⟩
      | _ => cases hq
    obtain ⟨r, d, htask, rfl, -, hemit, -⟩ := attempt_of_emits he hslot
    cases a with
    | accept q' =>
      obtain rfl := Option.some.inj hq
      exact hemit.2.1.setsLeader hp htask ht hans hkey
    | success q' =>
      obtain rfl := Option.some.inj hq
      obtain ⟨-, -, qa, ⟨hqa, -⟩, rfl⟩ := hemit
      have hop : qa.op = .setLeader := hqa.setsLeader hp htask ht hans (hqa.key.trans hkey)
      exact hop
    | _ => cases hq
  calls_invoke p dest t hp ht hans he := by
    rcases task_of_emits he with ⟨key, value, -, rfl⟩ | ⟨key, value, htask, rfl⟩ | ⟨-, rfl⟩ | rfl
    · exact fun _ ↦ rfl
    · rw [htask] at ht
      exact fun hkey ↦ absurd hkey ht
    · exact ht
    · trivial
  returns p dest r hp ht hans hr := trivial

/-! ### What changes the registers -/

/-- Clients set other keys than that of the leader. -/
def SetsOtherKeys (s : Net (db cl)) (l : Label Db) : Prop :=
  ClientCalls s l ∧ ∀ a value, l ≠ .submit a (.set "leader" value)

/-- The step is part of an operation `SET_LEADER`: the node `d` executes a success message with this
operation, or it runs an election. -/
def SetsLeaderAt (d : String) (s : Net (db cl)) (l : Label Db) : Prop :=
  (∃ q, s.executed? l = some (d, .success q) ∧ q.op = .setLeader) ∨
  ∃ i o p key value, l = .step i o ∧ s.acts[i]? = some p ∧ p.node = d ∧
    p.task = .electLeader key value

/-- The node `d` starts: its state is lost, or it runs `coordinate`. -/
def StartsUp (d : String) (s : Net (db cl)) (l : Label Db) : Prop :=
  l = .restart d ∨ ∃ i o p, l = .step i o ∧ s.acts[i]? = some p ∧ p.node = d ∧ p.task = .coordinate

section Runs

variable {C : Net (db cl) → Label Db → Prop} {s s' : Net (db cl)} {l : Label Db} {d : String}

theorem leaderOps_holds (h : Reach SetsOtherKeys (cl.start fun _ ↦ {}) s) :
    (leaderOps cl).Holds s := by
  refine (leaderOps cl).holds rfl rfl (fun d ↦ (leaderOps cl).fresh d) ?_ h
  rintro s a t ⟨hclient, hne⟩
  cases t with
  | set key value =>
    rintro rfl
    exact hne a value rfl
  | attemptConsensus r => exact absurd hclient id
  | _ => trivial

/-- **A register changes** through an operation `SET_LEADER`, or when its node starts. -/
theorem setsLeader_or_startsUp (h : Reach SetsOtherKeys (cl.start fun _ ↦ {}) s)
    (hs : Step s l s') (hne : (s'.nodes d).leader ≠ (s.nodes d).leader) :
    SetsLeaderAt d s l ∨ StartsUp d s l := by
  rcases replica_step hs d with hnode | ⟨a, hex, hnode⟩ | ⟨hl, -⟩
  · exact absurd (congrArg Replica.leader hnode) hne
  · have hreq := hs.executed hex
    rcases leader_act a (s.nodes d) (sound_of_requested rfl rfl h hreq) with
      heq | ⟨q, rfl, -, hkey, -⟩ | ⟨value, rfl, -⟩
    · exact absurd (hnode ▸ heq) hne
    · have hop := (leaderOps_holds h).requested ((contract cl).lawful rfl h) hreq q rfl hkey
      exact .inl (.inl ⟨q, hex, hop⟩)
    · rcases hs.executed_by hex with ⟨i, o, p, dest, k, -, rfl, -, hp, hc, rfl, -⟩ | hm
      · obtain ⟨rfl, hcoord | ⟨key, v, -, htask, -⟩⟩ :=
          writeLeader_of_emits (((contract cl).lawful rfl h i p hp).emits hc)
        · exact .inr (.inr ⟨i, o, p, rfl, hp, rfl, hcoord⟩)
        · exact .inl (.inr ⟨i, o, p, key, v, rfl, hp, rfl, htask⟩)
      · exact absurd hm (not_late_writeLeader h)
  · exact .inr (.inl hl)

/-- While no node starts, every change is that of an operation `SET_LEADER`. -/
theorem setsLeaderAt_of_noRestart
    (h : Reach (fun s l ↦ SetsOtherKeys s l ∧ l.NoRestart) (cl.start fun _ ↦ {}) s)
    (hl : l.NoRestart) (hs : Step s l s') (hne : (s'.nodes d).leader ≠ (s.nodes d).leader) :
    SetsLeaderAt d s l := by
  rcases setsLeader_or_startsUp (h.mono fun _ _ hl ↦ hl.1) hs hne with
    hset | rfl | ⟨i, o, p, -, hp, -, htask⟩
  · exact hset
  · exact absurd hl id
  · refine absurd htask (task_ne_coordinate rfl (fun _ _ hl ↦ hl.2) ?_ h hp)
    exact fun _ _ _ hl ↦ ofClient_ne_coordinate hl.1.1

end Runs

/-! ### What is never stored -/

/-- The key of the leader is not in the store, and the id of an accepted entry is 1. -/
structure Replica.Plain (st : Replica) : Prop where
  store : st.kvStore.lookup "leader" = none
  accepted : ∀ key round, (st.log key).Accepted round → ((st.log key).entry round).aServerId = 1

/-- Nobody sets the key of the leader in a store. -/
def Act.Plain (a : Act) : Prop := a.Sound ∧ ∀ value, a ≠ .setKV "leader" value

/-- The key of the leader is in no store that is sent. -/
def AnswerPlain : (c : Call Db) → c.Ret → Prop
  | .act _ .getDB, (kv : KVStore) => kv.lookup "leader" = none
  | _, _ => True

theorem Replica.Plain.act {st : Replica} {a : Act} (h : st.Plain) (ha : a.Plain) :
    (ReplicatedDB.act a st).2.Plain where
  store := by
    rcases kvStore_act a st ha.1 with
      heq | ⟨q, -, -, hkey, heq⟩ | ⟨key, value, rfl, heq⟩ <;> rw [heq]
    · exact h.store
    · rw [KVStore.lookup_setKV_of_ne _ _ hkey.symm, h.store]
    · rw [KVStore.lookup_setKV_of_ne, h.store]
      rintro rfl
      exact ha.2 value rfl
  accepted key round hacc := by
    rcases entry_act a st key round with heq | ⟨q, hq, rfl, rfl⟩
    · rw [heq]
      exact h.accepted key round (by rwa [Log.Accepted, ← heq])
    · rw [entry_act_self a st hq]
      have hsound := ha.1
      cases a with
      | accept q' => exact Option.some.inj hq ▸ hsound.1
      | success q' => exact Option.some.inj hq ▸ hsound.1
      | _ => cases hq

/-- Stores hold no leader, and the ids of accepted entries are 1. -/
def plain (cl : Cluster) : Guarantee (contract cl) where
  state _ := Replica.Plain
  act := Act.Plain
  task _ _ := True
  answer := AnswerPlain
  fresh _ := ⟨rfl, fun _ _ hacc ↦ absurd hacc (by simp [Log.Accepted, Replica.log])⟩
  boot _ := trivial
  step_act d dest a st hst ha := by
    refine ⟨hst.act ha, ?_⟩
    cases a with
    | getDB => exact hst.store
    | _ => trivial
  lost dest a := by
    cases a with
    | getDB => rfl
    | _ => trivial
  failed dest t := trivial
  calls_act p dest a hp _ hans he := by
    refine ⟨sound_of_emits he, ?_⟩
    rintro value rfl
    change emits cl p.node p.task p.hist _ at he
    rcases htask : p.task with r | ⟨k, v⟩ | ⟨k, v⟩ | k | _ <;> rw [htask] at he <;> cases dest
    case coordinate.none =>
      obtain ⟨d, kv, hkv, hlookup⟩ := he
      exact absurd (hlookup.symm.trans (hans _ hkv)) nofun
    all_goals exact absurd he id
  calls_invoke p dest t _ _ _ _ := trivial
  returns p dest r _ _ _ _ := trivial

/-! ### Sets that are handled while nothing is lost -/

/-- The value already accepted in the round that an attempt at the node `y` chooses, by the first
member that has accepted one. -/
def acceptedValueAt (cl : Cluster) (y key : String) (N : String → Replica) : Option String :=
  (cl.memberList.find? fun d ↦ ((N d).log key).Accepted (Log.size ((N y).log key))).map
    fun d ↦ (((N d).log key).entry (Log.size ((N y).log key))).acceptedValue

/-- After a set that `y` serves, the node `g` has the value: it knows no round later than the one
chosen by `y`, and no other value is accepted in that; or it has had the value before. -/
def Learns (cl : Cluster) (N : String → Replica) (y key value g : String) : Prop :=
  if ∀ round ∈ ((N g).log key).keys, round ≤ Log.size ((N y).log key) then
    ∀ v ∈ acceptedValueAt cl y key N, v = value
  else (N g).kvStore.lookup key = some value

/-- A client set of `key` to `value` at the node `x`, handled while nothing is lost, leaves the
registers as they are when it gets to its leader, and if it returns OK then every member answers the
value to the next get. -/
def ClientSafe (cl : Cluster) (s : Net (db cl)) (x key value : String) : Prop :=
  ∀ r s', s.Handles Plan.prompt x (.set key value) r s' →
    (∀ o N₁, Routed cl x s.nodes o N₁ → ∀ d, (s'.nodes d).leader = (N₁ d).leader) ∧
    (r.status.Ok → ∀ z ∈ cl.memberList, ∃ r' s'', s'.Handles Plan.prompt z (.get key) r' s'' ∧
      r'.status.Ok ∧ r'.getResponse = { value := value })

section Handled

variable {N N₁ : String → Replica} {x y z key value : String}

/-- Of the entries reported with the id 1, the first is adopted. -/
theorem Proposals.foldl_add {f : String → Status × Response} {P : String → Prop} [DecidablePred P]
    (hok : ∀ d, (f d).1.Ok) (hid : ∀ d, (f d).2.aserverId = if P d then 1 else 0)
    (l : List String) :
    (l.foldl (fun (v : Proposals) d ↦ v.add (f d)) {}).acceptedId =
        (if (l.find? fun d ↦ P d).isSome then 1 else 0) ∧
      ∀ d ∈ l.find? fun d ↦ P d,
        (l.foldl (fun (v : Proposals) d ↦ v.add (f d)) {}).acceptedValue = (f d).2.value := by
  -- once an entry is adopted, the others are only counted
  have hkept : ∀ (l : List String) (v : Proposals), v.acceptedId = 1 →
      (l.foldl (fun (v : Proposals) d ↦ v.add (f d)) v).acceptedId = 1 ∧
        (l.foldl (fun (v : Proposals) d ↦ v.add (f d)) v).acceptedValue = v.acceptedValue := by
    intro l
    induction l with
    | nil => exact fun v hv ↦ ⟨hv, rfl⟩
    | cons d l ih =>
      intro v hv
      have hadd : v.add (f d) = { v with numAcceptedProposals := v.numAcceptedProposals + 1 } := by
        rw [Proposals.add, if_pos (hok d), if_neg]
        rw [hid, hv]
        split <;> decide
      rw [List.foldl_cons, hadd]
      exact ih _ hv
  have hfold : ∀ (l : List String) (v : Proposals), v.acceptedId = 0 →
      (l.foldl (fun (v : Proposals) d ↦ v.add (f d)) v).acceptedId =
          (if (l.find? fun d ↦ P d).isSome then 1 else 0) ∧
        ∀ d ∈ l.find? fun d ↦ P d,
          (l.foldl (fun (v : Proposals) d ↦ v.add (f d)) v).acceptedValue = (f d).2.value := by
    intro l
    induction l with
    | nil => exact fun v hv ↦ ⟨hv, fun _ hd ↦ absurd hd (Option.not_mem_none _)⟩
    | cons d l ih =>
      intro v hv
      have hadd : v.add (f d) = if P d then
          { numAcceptedProposals := v.numAcceptedProposals + 1, acceptedId := 1
            acceptedValue := (f d).2.value, acceptedOp := (f d).2.op }
          else { v with numAcceptedProposals := v.numAcceptedProposals + 1 } := by
        rw [Proposals.add, if_pos (hok d), hid, hv]
        by_cases hd : P d
        · simp [hd]
        · simp [hd]
      rw [List.foldl_cons, hadd]
      by_cases hd : P d
      · rw [if_pos hd, List.find?_cons_of_pos (by simpa using hd)]
        obtain ⟨hone, hvalue⟩ := hkept l
          { numAcceptedProposals := v.numAcceptedProposals + 1, acceptedId := 1
            acceptedValue := (f d).2.value, acceptedOp := (f d).2.op } rfl
        exact ⟨hone, fun d' hd' ↦ hvalue.trans (by rw [Option.some.inj hd'])⟩
      · rw [if_neg hd, List.find?_cons_of_neg (by simpa using hd)]
        exact ih _ hv
  exact hfold l {} rfl

/-- **The value that an attempt carries**: an accepted one, or its own. -/
theorem carried_value (htidy : Tidy N) (hplain : ∀ d, (N d).Plain) (r : Request) :
    (carried cl y r N).value = (acceptedValueAt cl y r.key N).getD r.value := by
  obtain ⟨n, hn⟩ : ∃ n, n = Log.size ((N y).log r.key) := ⟨_, rfl⟩
  have hreply : ∀ d, (propose false (prepareRequest r n) (N d)).1 =
      if ((N d).log r.key).Accepted n then
        ({}, { aserverId := 1, op := (((N d).log r.key).entry n).op
               value := (((N d).log r.key).entry n).acceptedValue })
      else ({}, { round := n, pserverId := 1 }) := by
    intro d
    rw [propose_answer, if_neg (by rw [htidy d]; exact not_lt.2 zero_le_one)]
    change (if ((N d).log r.key).Accepted n then _ else _) = _
    split
    · rename_i hacc
      exact congrArg (fun i ↦ (({}, { aserverId := i, op := _, value := _ }) : Status × Response))
        ((hplain d).accepted _ _ hacc)
    · rfl
  obtain ⟨hid, hvalue⟩ := Proposals.foldl_add (P := fun d ↦ ((N d).log r.key).Accepted n)
    (f := fun d ↦ (propose false (prepareRequest r n) (N d)).1)
    (fun d ↦ by rw [hreply]; split <;> exact Status.ok_default)
    (fun d ↦ by rw [hreply]; split <;> rfl) cl.memberList
  change (proposals cl Plan.prompt (prepareRequest r n) cl.memberList N).acceptedId = _ at hid
  rw [carried, acceptRequest, acceptedValueAt, ← hn, hid]
  rcases hfind : cl.memberList.find? fun d ↦ ((N d).log r.key).Accepted n with _ | d
  · rfl
  · rw [hfind] at hvalue
    have hacc : ((N d).log r.key).Accepted n := by simpa using List.find?_some hfind
    have hv := hvalue d rfl
    rw [hreply, if_pos hacc] at hv
    exact hv

/-- What the node `g` has stored after the set. -/
theorem lookup_committed (htidy : Tidy N) (hplain : ∀ d, (N d).Plain) (hkey : key ≠ "leader")
    {g : String} (hg : g ∈ cl.memberList) :
    (committed cl y (setRequest key value) N g).kvStore.lookup key = some value ↔
      Learns cl N y key value g := by
  have hround : (carried cl y (setRequest key value) N).round = Log.size ((N y).log key) := by
    rw [carried, acceptRequest]
    split <;> rfl
  have hvalue : (carried cl y (setRequest key value) N).value = _ :=
    carried_value htidy hplain (setRequest key value)
  rw [committed, if_pos hg, Replica.commit, Learns]
  simp only [Current, carried_key, hround]
  by_cases hcur : ∀ round ∈ ((N g).log key).keys, round ≤ Log.size ((N y).log key)
  · rw [if_pos ⟨hcur, hkey⟩, if_pos hcur, KVStore.lookup_setKV_self, hvalue, Option.some_inj]
    rcases hfound : acceptedValueAt cl y key N with _ | v
    · exact iff_of_true rfl fun _ hw ↦ absurd hw (Option.not_mem_none _)
    · exact ⟨fun heq w hw ↦ Option.some.inj hw ▸ heq, fun h ↦ h v rfl⟩
  · rw [if_neg fun h ↦ hcur h.1, if_neg hcur]

/-- Accepting an entry with the id 1 keeps it so. -/
theorem Replica.Plain.commit {st : Replica} (h : st.Plain) {q : Request} (hq : q.pserverId = 1) :
    (st.commit q).Plain where
  store := by
    rw [Replica.commit]
    change Finmap.lookup "leader" (if _ then _ else _) = none
    split
    · rename_i hkey
      rw [KVStore.lookup_setKV_of_ne _ _ (Ne.symm hkey.2), h.store]
    · exact h.store
  accepted key round := by
    have hlog : ((st.commit q).log key).entry round = if key = q.key ∧ round = q.round then
        ((st.log q.key).entry q.round).accepted q else (st.log key).entry round :=
      PaxLog.entry_modify st.paxLog q.key key q.round round fun e ↦ e.accepted q
    rw [Log.Accepted, hlog]
    split
    · exact fun _ ↦ hq
    · exact h.accepted key round

theorem plain_committed (hplain : ∀ d, (N d).Plain) (y : String) (r : Request) (d : String) :
    (committed cl y r N d).Plain := by
  have hid : (carried cl y r N).pserverId = 1 := by
    rw [carried, acceptRequest]
    split <;> rfl
  rw [committed]
  split
  · exact (hplain d).commit hid
  · exact hplain d

theorem plain_elected (hplain : ∀ d, (N d).Plain) (x d : String) : (elected cl x N d).Plain := by
  rw [elected]
  by_cases hd : d = x
  · subst hd
    rw [Function.update_self]
    exact ⟨(plain_committed hplain d _ d).store, (plain_committed hplain d _ d).accepted⟩
  · rw [Function.update_of_ne hd]
    exact plain_committed hplain x _ d

theorem Routed.plain {o : Option String} (h : Routed cl x N o N₁) :
    (∀ d, (N d).Plain) → ∀ d, (N₁ d).Plain := by
  induction h with
  | unset => exact id
  | serve => exact id
  | unknown => exact id
  | forward _ _ _ ih => exact ih
  | retry _ _ _ _ _ ihfail ih => exact fun hplain ↦ ih fun d ↦ plain_elected (ihfail hplain) _ d
  | lost _ _ _ _ ih => exact fun hplain d ↦ plain_elected (ih hplain) _ d

/-- What a get answers that is served by `g`. -/
theorem getAnswer_eq_iff {st : Replica} :
    getAnswer (st.kvStore.getKV key) = { value := value } ↔ st.kvStore.lookup key = some value := by
  rw [KVStore.getKV]
  rcases st.kvStore.lookup key with _ | v
  · refine iff_of_false (fun h ↦ ?_) (Option.some_ne_none value).symm
    cases congrArg GetResponse.error h
  · change ({ value := v } : GetResponse) = { value := value } ↔ _
    simp

/-- Who learns a value does not depend on the election of leaders. -/
theorem SameData.learns (h : SameData N₁ N) (hkey : key ≠ "leader") {g : String} :
    Learns cl N₁ y key value g ↔ Learns cl N y key value g := by
  have hlog : ∀ d, (N₁ d).log key = (N d).log key := fun d ↦ (h d).2 key hkey
  rw [Learns, Learns, acceptedValueAt, acceptedValueAt]
  simp only [hlog, (h g).1]

/-- **A set that is handled while nothing is lost** touches no register and can be read everywhere
exactly if its key is not that of the leader and every member leads to a node that learns it. -/
theorem clientSafe_iff {s : Net (db cl)} (htidy : Tidy s.nodes) (hplain : ∀ d, (s.nodes d).Plain)
    (hx : x ∈ cl.memberList) :
    ClientSafe cl s x key value ↔ ∀ y N₁, Routed cl x s.nodes (some y) N₁ → key ≠ "leader" ∧
      ∀ z ∈ cl.memberList, ∃ g N₂, Routed cl z N₁ (some g) N₂ ∧
        Learns cl s.nodes y key value g := by
  constructor
  · intro hsafe y N₁ hrouted
    obtain ⟨rep, N', hev, rfl, rfl⟩ := evals_routed hrouted (t := .set key value) trivial htidy
    obtain ⟨s', hs', hnodes⟩ :=
      handles_of_evals (V := db cl) (s := s) (a := x) (t := Task.set key value) hev
    have hN₁ := hrouted.tidy htidy
    have hplain₁ := hrouted.plain hplain
    have hplain' : ∀ d, (committed cl y (setRequest key value) N₁ d).Plain :=
      plain_committed hplain₁ y _
    have htidy' : Tidy (committed cl y (setRequest key value) N₁) := hN₁.committed y _
    -- how the gets afterwards are answered
    have hget : ∀ z ∈ cl.memberList, ∃ g N₂,
        Routed cl z (committed cl y (setRequest key value) N₁) (some g) N₂ ∧
          (committed cl y (setRequest key value) N₁ g).kvStore.lookup key = some value := by
      intro z hz
      obtain ⟨r', s'', hs'', hok, hresp⟩ := (hsafe _ _ hs').2 Status.ok_default z hz
      have hev' := evals_of_handles hs''
      rw [show s'.nodes = committed cl y (setRequest key value) N₁ from hnodes] at hev'
      obtain ⟨o, N₂, hrouted', hto⟩ :=
        routed_of_evals (t := .get key) hev' trivial htidy'
      cases o with
      | none => exact absurd hok hto.1
      | some g =>
        obtain ⟨rfl, -⟩ := hto
        refine ⟨g, N₂, hrouted', ?_⟩
        have hlookup := getAnswer_eq_iff.1 hresp
        rwa [(hrouted'.sameData g).1] at hlookup
    have hkey : key ≠ "leader" := by
      rintro rfl
      obtain ⟨g, -, -, hlookup⟩ := hget x hx
      exact absurd (hlookup.symm.trans (hplain' g).store) nofun
    refine ⟨hkey, fun z hz ↦ ?_⟩
    obtain ⟨g, N₂, hrouted', hlookup⟩ := hget z hz
    have hsame : SameControl N₁ (committed cl y (setRequest key value) N₁) :=
      (sameControl_committed hkey y N₁).symm
    obtain ⟨M₂, hrouted₂, -⟩ := hrouted'.congr hsame
    exact ⟨g, M₂, hrouted₂, (hrouted.sameData.learns hkey).1
      ((lookup_committed hN₁ hplain₁ hkey (hrouted'.mem hz)).1 hlookup)⟩
  · intro hcond r s' hs'
    obtain ⟨o, N₁, hrouted, hto⟩ := routed_of_evals (evals_of_handles hs') trivial htidy
    cases o with
    | none =>
      obtain ⟨hfail, hnodes⟩ := hto
      refine ⟨fun o' N₁' hrouted' d ↦ ?_, fun hok ↦ absurd hok hfail⟩
      rw [hnodes, hrouted.det hrouted' htidy]
    | some y =>
      obtain ⟨rfl, hnodes⟩ := hto
      obtain ⟨hkey, hlearn⟩ := hcond y N₁ hrouted
      change s'.nodes = committed cl y (setRequest key value) N₁ at hnodes
      have hN₁ := hrouted.tidy htidy
      have hsame : SameControl (committed cl y (setRequest key value) N₁) N₁ :=
        sameControl_committed hkey y N₁
      refine ⟨fun o' N₁' hrouted' d ↦ ?_, fun _ z hz ↦ ?_⟩
      · rw [hnodes, ← hrouted.det hrouted' htidy]
        exact (hsame d).1
      · obtain ⟨g, N₂, hrouted₂, hg⟩ := hlearn z hz
        obtain ⟨M₂, hrouted', -⟩ := hrouted₂.congr hsame
        rw [← hnodes] at hrouted'
        obtain ⟨rep, N', hev, rfl, -⟩ := evals_routed hrouted' (t := .get key) trivial
          (hnodes ▸ hN₁.committed y _)
        obtain ⟨s'', hs'', -⟩ :=
          handles_of_evals (V := db cl) (s := s') (a := z) (t := Task.get key) hev
        refine ⟨_, s'', hs'', Status.ok_default, getAnswer_eq_iff.2 ?_⟩
        rw [(hrouted'.sameData g).1, hnodes]
        exact (lookup_committed hN₁ (hrouted.plain hplain) hkey (hrouted₂.mem hz)).2
          ((hrouted.sameData.learns hkey).2 hg)

end Handled

/-! ### The results -/

theorem tidy_and_plain {s : Net (db cl)} (h : Reach ClientCalls (cl.start fun _ ↦ {}) s) :
    Tidy s.nodes ∧ ∀ d, (s.nodes d).Plain :=
  ⟨fun d key round ↦ pServerId_eq_zero (fun _ ↦ rfl) h d key round,
    ((plain cl).holds rfl rfl (fun d ↦ (plain cl).fresh d) (fun _ _ _ _ ↦ trivial) h).nodes⟩

/-- **Data and control.** While clients set other keys than that of the leader, registers change
only through operations `SET_LEADER` and when a node starts; while no node starts, only through the
former. And in every reachable state, a client set that is handled while nothing is lost is safe
exactly if it reaches its leader `y`, after the elections on the way, with another key than that of
the leader, and every member then leads to a node that learns the value. -/
theorem controlState (cl : Cluster) :
    (∀ (s s' : Net (db cl)) (l : Label Db) (d : String),
      Reach SetsOtherKeys (cl.start fun _ ↦ {}) s → Step s l s' →
        (s'.nodes d).leader ≠ (s.nodes d).leader → SetsLeaderAt d s l ∨ StartsUp d s l) ∧
    (∀ (s s' : Net (db cl)) (l : Label Db) (d : String),
      Reach (fun s l ↦ SetsOtherKeys s l ∧ l.NoRestart) (cl.start fun _ ↦ {}) s → l.NoRestart →
        Step s l s' → (s'.nodes d).leader ≠ (s.nodes d).leader → SetsLeaderAt d s l) ∧
    ∀ (s : Net (db cl)), Reach ClientCalls (cl.start fun _ ↦ {}) s →
      ∀ x ∈ cl.memberList, ∀ key value, ClientSafe cl s x key value ↔
        ∀ y N₁, Routed cl x s.nodes (some y) N₁ → key ≠ "leader" ∧
          ∀ z ∈ cl.memberList, ∃ g N₂, Routed cl z N₁ (some g) N₂ ∧
            Learns cl s.nodes y key value g := by
  refine ⟨fun s s' l d h hs hne ↦ setsLeader_or_startsUp h hs hne,
    fun s s' l d h hl hs hne ↦ setsLeaderAt_of_noRestart h hl hs hne,
    fun s h x hx key value ↦ ?_⟩
  obtain ⟨htidy, hplain⟩ := tidy_and_plain h
  exact clientSafe_iff htidy hplain hx

/-- **A client moves all registers**: after an election of `a:1`, it sets the key "leader". -/
theorem not_controlState_trio : ∃ s, Reach ClientCalls (trio.start fun _ ↦ {}) s ∧
    ¬ ClientSafe trio s "a:1" "leader" "x" ∧ ∃ s',
      s.Handles Plan.prompt "a:1" (.set "leader" "x") {} s' ∧ ∀ d ∈ trio.memberList,
        (s.nodes d).leader = "a:1" ∧ (s'.nodes d).leader = "x" := by
  obtain ⟨s, hs, hleader, hx⟩ : ∃ s : Net (db trio), Reach ClientCalls (trio.start fun _ ↦ {}) s ∧
      (∀ d ∈ trio.memberList, (s.nodes d).leader = "a:1") ∧ ∀ d ∈ trio.memberList,
        (committed trio "a:1" (setRequest "leader" "x") s.nodes d).leader = "x" :=
    Reach.exists_of_steps (by
      decide +kernel : ((trio.start fun _ ↦ {}).steps ClientCalls
        (.submit "a:1" (.electLeader "leader" "a:1") :: calls 1 0 ++ calls 13 1 ++
          calls 2 0)).any _ = true)
  have hrouted : Routed trio "a:1" s.nodes (some "a:1") s.nodes :=
    .serve (hleader _ (by decide)) (by decide)
  obtain ⟨_, _, hev, rfl, rfl⟩ :=
    evals_routed hrouted (t := .set "leader" "x") trivial (tidy_and_plain hs).1
  obtain ⟨s', hs', hnodes⟩ :=
    handles_of_evals (V := db trio) (s := s) (a := "a:1") (t := Task.set "leader" "x") hev
  have hmoved : ∀ d ∈ trio.memberList, (s'.nodes d).leader = "x" := by
    rw [hnodes]
    exact hx
  refine ⟨s, hs, fun hsafe ↦ ?_, s', hs', fun d hd ↦ ⟨hleader d hd, hmoved d hd⟩⟩
  have hkept := (hsafe _ _ hs').1 _ _ hrouted "a:1"
  rw [hleader _ (by decide), hmoved _ (by decide)] at hkept
  exact absurd hkept (by decide)

end ReplicatedDB
