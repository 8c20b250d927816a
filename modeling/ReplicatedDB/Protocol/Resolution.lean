import ReplicatedDB.Model.Membership
import ReplicatedDB.Protocol.Agreement
import ReplicatedDB.Rpc.Discipline

/-!
# Which leaders can be resolved

A node looks its leader up with `memberList->at(Cluster::leader)`, which throws if the name is not a
key of its own member list. The name was chosen by another node, with the configuration of that one,
so there are deployments in which a follower throws at every request (`not_resolved_duo`).

While clients set other keys than that of the leader, a register holds nothing but names that nodes
have for themselves (`Named`), and it is not emptied again. So a node never throws if its list has
the names of all nodes (`resolved`).
-/

namespace ReplicatedDB

open Rpc Rpc.Net

/-! ### Where names are -/

section Named

variable (N : String → Prop)

theorem Status.default_ne_unknown : ({} : Status) ≠ .unknown := by decide

theorem Status.aborted_ne_unknown (message : String) : Status.aborted message ≠ .unknown :=
  have hcode : StatusCode.aborted ≠ .unknown := by decide
  fun h ↦ hcode (congrArg Status.code h)

/-- What is written for the leader is a name. -/
def Act.Named : Act → Prop
  | .accept q | .success q => q.key = "leader" → N q.value
  | .writeLeader value => N value
  | _ => True

/-- What is proposed as the leader is a name. -/
def Task.Named : Task → Prop
  | .attemptConsensus r => r.key = "leader" → N r.value
  | .electLeader key value => key = "leader" ∧ N value
  | .set key _ => key ≠ "leader"
  | .get _ | .coordinate => True

/-- What is answered about the leader is a name, or there is none. -/
def NamedRet : (a : Act) → a.Ret → Prop
  | .readLeader, (v : String) => v = "" ∨ N v
  | .getLeader, (x : Status × String) => x.1.Ok → x.2 = "" ∨ N x.2
  | .propose q, (x : Status × Response) =>
    q.key = "leader" → x.1.Ok → 0 < x.2.aserverId → N x.2.value
  | .accept q, (x : Status × Response) => q.key = "leader" → x.1.Ok → N x.2.value
  | _, _ => True

/-- An attempt about the leader that returns OK returns a name; no attempt throws. -/
def NamedReply : Task → Reply → Prop
  | .attemptConsensus r, rep => rep.status ≠ .unknown ∧
      (r.key = "leader" → rep.status.Ok → N rep.response.value)
  | _, _ => True

/-- The register of a node and what it has accepted for it are names. -/
structure Replica.Named (st : Replica) : Prop where
  leader : st.leader = "" ∨ N st.leader
  accepted : ∀ round, (st.log "leader").Accepted round →
    N ((st.log "leader").entry round).acceptedValue

variable {N} {a : Act} {st : Replica}

theorem leader_act_cases (a : Act) (st : Replica) :
    (act a st).2.leader = st.leader ∨
      (∃ q, a = .success q ∧ q.key = "leader" ∧ (act a st).2.leader = q.value) ∨
      ∃ value, a = .writeLeader value ∧ (act a st).2.leader = value := by
  cases a with
  | propose q => exact .inl (by simp [act, propose_state])
  | accept q => exact .inl (by simp [act, accept_state])
  | success q =>
    simp only [act, success, Bool.false_eq_true, if_false]
    split_ifs with hround hkey
    · exact .inl rfl
    · exact .inr (.inl ⟨q, rfl, hkey, rfl⟩)
    · exact .inl rfl
  | writeLeader value => exact .inr (.inr ⟨value, rfl, rfl⟩)
  | _ => exact .inl rfl

/-- What an action makes of the register: a name, or nothing new. -/
theorem leader_act_named (st : Replica) (ha : a.Named N) :
    (act a st).2.leader = st.leader ∨ N (act a st).2.leader := by
  rcases leader_act_cases a st with heq | ⟨q, rfl, hkey, heq⟩ | ⟨value, rfl, heq⟩
  · exact .inl heq
  · exact .inr (heq ▸ ha hkey)
  · exact .inr (heq ▸ ha)

theorem Replica.Named.act (h : st.Named N) (ha : a.Named N) :
    (ReplicatedDB.act a st).2.Named N where
  leader := by
    rcases leader_act_named st ha with heq | hname
    · rw [heq]
      exact h.leader
    · exact .inr hname
  accepted round hacc := by
    rcases entry_act a st "leader" round with heq | ⟨q, hq, hkey, rfl⟩
    · rw [heq]
      exact h.accepted round (by rwa [Log.Accepted, ← heq])
    · have hentry := entry_act_self a st hq
      rw [hkey] at hentry
      rw [hentry]
      cases a with
      | accept q' => exact Option.some.inj hq ▸ ha (Option.some.inj hq ▸ hkey)
      | success q' => exact Option.some.inj hq ▸ ha (Option.some.inj hq ▸ hkey)
      | _ => cases hq

theorem Replica.Named.ret (h : st.Named N) (ha : a.Named N) :
    NamedRet N a (ReplicatedDB.act a st).1 := by
  cases a with
  | readLeader => exact h.leader
  | getLeader => exact fun _ ↦ h.leader
  | propose q =>
    intro hkey hok hpos
    obtain ⟨hacc, -, hvalue⟩ := accepted_of_propose hok hpos
    rw [hkey] at hacc hvalue
    exact hvalue ▸ h.accepted _ hacc
  | accept q => exact fun hkey _ ↦ ha hkey
  | _ => trivial

/-! ### The procedures -/

/-- As long as it gets names, the program passes on names. -/
abbrev KeepsNames {α : Type} (N : String → Prop) (returns : History → α → Prop) (p : Program α)
    (h : History) : Prop :=
  Sat (answered (NamedRet N) (NamedReply N)) (fun _ ↦ called (Act.Named N) (Task.Named N)) returns
    p h

variable {members : List String} {r : Request} {h : History}

theorem pingStage_keeps : KeepsNames N (fun _ _ ↦ True) (pingStage members) h := by
  refine Sat.foldlM (fun _ _ _ ↦ True) ?_ _ _ _ trivial
  exact fun _ _ _ _ _ ↦ ⟨trivial, fun _ _ ↦ trivial⟩

theorem proposeStage_keeps {q : Request} {liveNodes : List String} :
    KeepsNames N (fun _ v ↦ q.key = "leader" → 0 < v.acceptedId → N v.acceptedValue)
      (proposeStage q liveNodes) h := by
  refine Sat.foldlM (fun _ (v : Proposals) _ ↦ q.key = "leader" → 0 < v.acceptedId →
    N v.acceptedValue) ?_ _ _ _ (fun _ h0 ↦ absurd h0 (lt_irrefl 0))
  refine fun d rest v h' hv ↦ ⟨trivial, fun x hx ↦ ?_⟩
  change q.key = "leader" → 0 < (v.add x).acceptedId → N (v.add x).acceptedValue
  unfold Proposals.add
  split_ifs with hok hid
  · exact fun hkey hpos ↦ hx hkey hok hpos
  · exact hv
  · exact hv

theorem acceptStage_keeps {q : Request} (hq : q.key = "leader" → N q.value)
    {liveNodes : List String} :
    KeepsNames N (fun _ v ↦ q.key = "leader" → 0 < v.1 → N v.2.value) (acceptStage q liveNodes)
      h := by
  refine Sat.foldlM (fun _ (v : ℕ × Response) _ ↦ q.key = "leader" → 0 < v.1 → N v.2.value) ?_ _ _ _
    (fun _ h0 ↦ absurd h0 (lt_irrefl 0))
  refine fun d rest v h' hv ↦ ⟨hq, fun x hx ↦ ?_⟩
  change q.key = "leader" → 0 < (if Status.Ok (Prod.fst x) then (v.1 + 1, Prod.snd x) else v).1 →
    N (if Status.Ok (Prod.fst x) then (v.1 + 1, Prod.snd x) else v).2.value
  split_ifs with hok
  · exact fun hkey _ ↦ hx hkey hok
  · exact hv

theorem successStage_keeps {q : Request} (hq : q.key = "leader" → N q.value) :
    KeepsNames N (fun _ _ ↦ True) (successStage q members) h := by
  refine Sat.foldlM (fun _ _ _ ↦ True) ?_ _ _ _ trivial
  exact fun _ _ _ _ _ ↦ ⟨hq, fun _ _ ↦ trivial⟩

/-- **An attempt** that was asked for a name returns a name. -/
theorem attemptConsensus_keeps (hne : members ≠ []) (hr : r.key = "leader" → N r.value) :
    KeepsNames N (fun _ rep ↦ NamedReply N (.attemptConsensus r) rep) (attemptConsensus members r)
      h := by
  have hdefault : NamedReply N (.attemptConsensus r) defaultResponse :=
    ⟨Status.aborted_ne_unknown _, fun _ hok ↦ absurd hok (Status.not_ok_aborted _)⟩
  refine ⟨trivial, fun paxLog _ ↦ ?_⟩
  refine Sat.bind (p := pingStage members) (pingStage_keeps.mono fun h₁ liveNodes _ ↦ ?_)
  refine Sat.ite (fun _ ↦ hdefault) fun _ ↦ Sat.bind (proposeStage_keeps.mono fun h₂ v hv ↦ ?_)
  have hname : (acceptRequest r (Log.size paxLog) v).key = "leader" →
      N (acceptRequest r (Log.size paxLog) v).value := by
    unfold acceptRequest
    split_ifs with hid
    · exact fun hkey ↦ hv hkey hid
    · exact hr
  have hkey : (acceptRequest r (Log.size paxLog) v).key = r.key := by
    unfold acceptRequest
    split_ifs <;> rfl
  refine Sat.ite (fun _ ↦ hdefault) fun _ ↦
    Sat.bind ((acceptStage_keeps hname).mono fun h₃ a ha ↦ ?_)
  refine Sat.ite (fun _ ↦ hdefault) fun hquorum ↦ ?_
  have hpos : 0 < a.1 := by
    have := not_noQuorum_iff.1 hquorum
    have := List.length_pos_iff.2 hne
    omega
  have hvalue : r.key = "leader" → N a.2.value := fun h ↦ ha (hkey.trans h) hpos
  exact Sat.bind ((successStage_keeps hvalue).mono fun _ _ _ ↦
    ⟨Status.default_ne_unknown, fun h _ ↦ hvalue h⟩)

theorem electLeader_keeps {key value : String} (hkey : key = "leader") (hvalue : N value) :
    KeepsNames N (fun _ rep ↦ rep.status ≠ .unknown) (electLeader key value) h := by
  rw [electLeader, Prog.run_bind]
  refine ⟨fun _ ↦ hvalue, fun resp hresp ↦ Sat.ite (fun hok ↦ ?_) fun _ ↦ hresp.1⟩
  exact ⟨hresp.2 hkey hok, fun _ _ ↦ hresp.1⟩

/-! ### What throws -/

/-- What was read from the register. -/
def reads {ι : Type} (h : List (Event (Db.withAddr ι))) : List String :=
  h.filterMap fun
    | ⟨.act none .readLeader, (v : String)⟩ => some v
    | _ => none

/-- A register that holds a name does not become empty. -/
def Steady {ι : Type} (h : List (Event (Db.withAddr ι))) : Prop :=
  (reads h).Pairwise fun v w ↦ v ≠ "" → w ≠ ""

/-- A procedure does not throw at a node that lists all names, unless its register is emptied. -/
def Resolves {ι : Type} (N : String → Prop) (members : List String)
    (h : List (Event (Db.withAddr ι))) (rep : Reply) : Prop :=
  (∀ v, N v → v ∈ members) → Steady h → rep.status ≠ .unknown

theorem Resolves.of_ne {rep : Reply} (hrep : rep.status ≠ .unknown) : Resolves N members h rep :=
  fun _ _ ↦ hrep

theorem mem_reads_append {v : String} {h h' : History} (hmem : v ∈ reads h) :
    v ∈ reads (h ++ h') := by
  rw [reads, List.filterMap_append]
  exact List.mem_append_left _ hmem

/-- A register that has held a name holds one that is listed. -/
theorem Resolves.of_notMem {v w : String} (hv : v ≠ "") (hmem : v ∈ reads h) (hw : w = "" ∨ N w)
    (hnot : w ∉ members) (rep : Reply) : Resolves N members (h ++ [readLeaderIs w]) rep := by
  intro hall hsteady
  rw [Steady, reads, List.filterMap_append, List.pairwise_append] at hsteady
  have hne : w ≠ "" := hsteady.2.2 v hmem w List.mem_cons_self hv
  exact absurd (hall w (hw.resolve_left hne)) hnot

theorem forward_keeps {me v : String} {task : Task} {answer : Reply → Reply}
    (htask : task.Named N) (hme : N me) (hanswer : ∀ rep, (answer rep).status ≠ .unknown)
    (hv : v ≠ "") (hmem : v ∈ reads h) :
    KeepsNames N (Resolves N members) (forward members me task answer) h := by
  rw [forward, Prog.here_bind]
  refine ⟨trivial, fun leader hleader ↦ Sat.ite (fun _ ↦ ?_) fun hnot ↦
    .of_notMem hv hmem hleader hnot _⟩
  refine ⟨htask, fun leaderResponse _ ↦ Sat.ite (fun _ ↦ .of_ne (hanswer _)) fun _ ↦ ?_⟩
  refine ⟨⟨rfl, hme⟩, fun election _ ↦ Sat.ite (fun _ ↦ ?_) fun _ ↦ ?_⟩
  · exact .of_ne (Status.aborted_ne_unknown _)
  refine ⟨trivial, fun leader' hleader' ↦ Sat.ite (fun _ ↦ ?_) fun hnot ↦ ?_⟩
  · refine ⟨htask, fun newLeader _ ↦ Sat.ite (fun _ ↦ ?_) fun _ ↦ ?_⟩
    · exact .of_ne (Status.aborted_ne_unknown _)
    · exact .of_ne (hanswer _)
  · refine .of_notMem hv ?_ hleader' hnot _
    exact mem_reads_append (mem_reads_append (mem_reads_append hmem))

theorem set_keeps {me key value : String} (hkey : key ≠ "leader") (hme : N me) :
    KeepsNames N (Resolves N members) (set members me key value) [] := by
  rw [set, Prog.here_bind]
  refine ⟨trivial, fun addr _ ↦ Sat.ite (fun _ ↦ .of_ne (Status.aborted_ne_unknown _)) fun hne ↦
    Sat.ite (fun _ ↦ ?_) fun _ ↦ ?_⟩
  · exact ⟨fun h ↦ absurd h hkey, fun resp hresp ↦ .of_ne hresp.1⟩
  · exact forward_keeps hkey hme (fun _ ↦ Status.default_ne_unknown) hne List.mem_cons_self

theorem get_keeps {me key : String} (hme : N me) :
    KeepsNames N (Resolves N members) (get members me key) [] := by
  rw [get, Prog.here_bind]
  refine ⟨trivial, fun addr _ ↦ Sat.ite (fun _ ↦ .of_ne (Status.aborted_ne_unknown _)) fun hne ↦
    Sat.ite (fun _ ↦ ?_) fun _ ↦ ?_⟩
  · refine ⟨trivial, fun resp _ ↦ Sat.ite (fun _ ↦ ?_) fun _ ↦ ?_⟩
    · exact .of_ne Status.default_ne_unknown
    · exact .of_ne Status.default_ne_unknown
  · exact forward_keeps trivial hme (fun _ ↦ Status.default_ne_unknown) hne List.mem_cons_self

theorem recover_keeps {me : String} : KeepsNames N (Resolves N members) (recover members me) h := by
  rw [recover, Prog.here_bind]
  refine ⟨trivial, fun v _ ↦ Sat.ite (fun _ ↦ .of_ne Status.default_ne_unknown) fun hne ↦ ?_⟩
  refine ⟨trivial, fun v' _ ↦ Sat.ite (fun _ ↦ .of_ne Status.default_ne_unknown) fun _ ↦ ?_⟩
  refine ⟨trivial, fun leader hleader ↦ Sat.ite (fun _ ↦ ?_) fun hnot ↦ ?_⟩
  · refine ⟨trivial, fun leaderDb _ ↦ Sat.bind (p := leaderDb.entries.foldlM _ ()) ?_⟩
    refine Sat.mono (fun _ _ _ ↦ .of_ne Status.default_ne_unknown)
      (Sat.foldlM (fun _ _ _ ↦ True) ?_ _ _ _ trivial)
    exact fun _ _ _ _ _ ↦ ⟨trivial, fun _ _ ↦ trivial⟩
  · have hmem : v ∈ reads (h ++ [readLeaderIs v]) := by simp [reads, readLeaderIs]
    exact .of_notMem hne (mem_reads_append hmem) hleader hnot _

/-- The leaders that are named to a node. -/
theorem askLeaders_keeps :
    KeepsNames N (fun _ v ↦ ∀ leader ∈ v.1, N leader) (askLeaders members) h := by
  refine Sat.foldlM (fun _ (v : List String × List String) _ ↦ ∀ leader ∈ v.1, N leader) ?_
    _ _ _ nofun
  refine fun key rest v h' hv ↦ ⟨trivial, fun res hres ↦ ?_⟩
  change ∀ leader ∈ (if Status.Ok (Prod.fst res) then (if Prod.snd res = "" then v.1
    else v.1.insert (Prod.snd res), v.2.insert key) else v).1, N leader
  split_ifs with hok hnone
  · exact hv
  · intro leader hmem
    rcases List.mem_insert_iff.1 hmem with rfl | hmem
    · exact (hres hok).resolve_left hnone
    · exact hv leader hmem
  · exact hv

theorem coordinate_keeps {flags : Flags} {me : String} (hme : N me) :
    KeepsNames N (Resolves N members) (coordinate members flags me) [] := by
  have helect : ∀ h, KeepsNames N (Resolves N members)
      (coordinate.orElect members me flags.election) h := by
    intro h
    refine Sat.ite (fun _ ↦ ⟨⟨rfl, hme⟩, fun status _ ↦ ?_⟩) fun _ ↦ recover_keeps
    exact Sat.ite (fun _ ↦ .of_ne (Status.aborted_ne_unknown _)) fun _ ↦ recover_keeps
  refine Sat.ite (fun _ ↦ ⟨hme, fun _ _ ↦ recover_keeps⟩) fun _ ↦ ?_
  refine Sat.bind (askLeaders_keeps.mono fun h v hv ↦ ?_)
  obtain ⟨leaders, liveReplicas⟩ := v
  rcases leaders with _ | ⟨leader, _ | ⟨leader', leaders⟩⟩
  · exact helect h
  · exact Sat.ite (fun _ ↦ ⟨hv leader List.mem_cons_self, fun _ _ ↦ recover_keeps⟩) fun _ ↦ helect h
  · exact helect h

/-- **The procedures pass on names**, and do not throw. -/
theorem body_keeps {cl : Cluster} {me : String} (hme : N me) {t : Task} (ht : t.Named N) :
    KeepsNames N (fun h rep ↦ NamedReply N t rep ∧ Resolves N cl.memberList h rep) (body cl me t)
      [] := by
  cases t with
  | attemptConsensus r =>
    exact (attemptConsensus_keeps cl.ne_nil ht).mono fun _ _ h ↦ ⟨h, .of_ne h.1⟩
  | electLeader key value =>
    exact (electLeader_keeps ht.1 ht.2).mono fun _ _ h ↦ ⟨trivial, .of_ne h⟩
  | set key value => exact (set_keeps ht hme).mono fun _ _ h ↦ ⟨trivial, h⟩
  | get key => exact (get_keeps hme).mono fun _ _ h ↦ ⟨trivial, h⟩
  | coordinate => exact (coordinate_keeps hme).mono fun _ _ h ↦ ⟨trivial, h⟩

end Named

/-! ### Registers in a deployment -/

namespace Deployment

variable {ι : Type} (D : Deployment ι)

/-- The names that nodes have for themselves. -/
def Name (v : String) : Prop := ∃ i, v = D.self i

theorem Name.ne_empty {D : Deployment ι} {v : String} (h : D.Name v) : v ≠ "" := by
  obtain ⟨i, rfl⟩ := h
  exact Address.toString_ne_empty _

/-- All nodes, none of them started. -/
def start : Net D.service where
  nodes _ := {}

/-- What a client calls at the node: sets of keys other than that of the leader, gets, and elections
of the node itself. -/
def OfClient (i : ι) : Task → Prop
  | .set key _ => key ≠ "leader"
  | .get _ => True
  | .electLeader key value => key = "leader" ∧ value = D.self i
  | .attemptConsensus _ | .coordinate => False

instance (i : ι) : DecidablePred (D.OfClient i)
  | .set key _ => inferInstanceAs (Decidable (key ≠ "leader"))
  | .get _ => inferInstanceAs (Decidable True)
  | .electLeader key value => inferInstanceAs (Decidable (key = "leader" ∧ value = D.self i))
  | .attemptConsensus _ | .coordinate => inferInstanceAs (Decidable False)

/-- Clients only make the calls of clients. -/
def ClientCalls (_ : Net D.service) : Label (Db.withAddr ι) → Prop
  | .submit i t => D.OfClient i t
  | _ => True

instance (s : Net D.service) : DecidablePred (D.ClientCalls s)
  | .submit i t => inferInstanceAs (Decidable (D.OfClient i t))
  | .step _ _ | .deliver _ | .restart _ => inferInstanceAs (Decidable True)

theorem reads_map (f : Routes Db ι) (h : History) :
    reads (h.map (Event.readdress f)) = reads h := by
  rw [reads, List.filterMap_map]
  refine List.filterMap_congr fun e _ ↦ ?_
  rcases e with ⟨⟨_ | d, a⟩ | ⟨dest, t⟩, r⟩
  · cases a <;> rfl
  · cases a <;> rfl
  · rfl

/-- **Names are all there is** about the leader. -/
def names : Discipline D.service where
  state := Replica.Named D.Name
  act := Act.Named D.Name
  task := Task.Named D.Name
  ret := NamedRet D.Name
  reply := NamedReply D.Name
  result i _ h rep := Resolves D.Name (D.keys i) h rep
  fresh := ⟨.inl rfl, fun _ hacc ↦ absurd hacc (by simp [Log.Accepted, Replica.log])⟩
  boot := trivial
  step_act _ _ hst ha := ⟨hst.act ha, hst.ret ha⟩
  lost a := by
    cases a with
    | readLeader => exact .inl rfl
    | getLeader => exact fun _ ↦ .inl rfl
    | propose q => exact fun _ hok ↦ absurd hok Status.not_ok_unavailable
    | accept q => exact fun _ hok ↦ absurd hok Status.not_ok_unavailable
    | _ => trivial
  failed t := by
    cases t with
    | attemptConsensus r => exact ⟨nofun, fun _ hok ↦ absurd hok Status.not_ok_unavailable⟩
    | _ => trivial
  body i t ht := by
    refine Sat.readdress (D.routes i) ?_ ?_ ?_ (body_keeps (N := D.Name) ⟨i, rfl⟩ ht)
    · rintro ⟨⟨dest, a⟩ | ⟨dest, t⟩, r⟩ h <;> exact h
    · rintro h (⟨dest, a⟩ | ⟨dest, t⟩) hc <;> exact hc
    · rintro h rep ⟨hrep, hresolves⟩
      refine ⟨hrep, fun hall hsteady ↦ hresolves hall ?_⟩
      rwa [Steady, reads_map] at hsteady

section Runs

variable {D} [DecidableEq ι] {s s' : Net D.service} {l : Label (Db.withAddr ι)} {i : ι}

theorem names_holds (h : Reach D.ClientCalls D.start s) : D.names.guarantee.Holds s := by
  refine D.names.holds rfl rfl (fun _ ↦ D.names.fresh) (fun _ i t hclient ↦ ?_) h
  cases t with
  | set key value => exact hclient
  | get key => trivial
  | electLeader key value => exact ⟨hclient.1, i, hclient.2⟩
  | _ => exact absurd hclient id

/-- A register that holds a name holds one after the step, unless its node restarts. -/
theorem leader_ne_empty (h : Reach D.ClientCalls D.start s) (hs : Step s l s')
    (hl : l ≠ .restart i) (hne : (s.nodes i).leader ≠ "") : (s'.nodes i).leader ≠ "" := by
  rcases hs.node i with hnode | ⟨a, hex, hnode⟩ | ⟨hrestart, -⟩
  · rwa [hnode]
  · have hact := (names_holds h).requested (D.names.contract.lawful rfl h) (hs.executed hex)
    rw [hnode]
    rcases leader_act_named (s.nodes i) hact with heq | hname
    · exact heq ▸ hne
    · exact hname.ne_empty
  · exact absurd hrestart hl

/-- What an activation has read from the register is steady, and while its node does not restart
there is still a name in it. -/
structure ReadsSteadily (s : Net D.service) (p : Activation (Db.withAddr ι)) : Prop where
  steady : Steady p.hist
  leader : p.alive = true → ∀ v ∈ reads p.hist, v ≠ "" → (s.nodes p.node).leader ≠ ""

theorem ReadsSteadily.step {p q : Activation (Db.withAddr ι)} (hp : ReadsSteadily s p)
    (h : Reach D.ClientCalls D.start s) (hs : Step s l s')
    (hl : q.alive = true → l ≠ .restart q.node)
    (hnode : q.node = p.node) (hhist : q.hist = p.hist) (halive : q.alive = true → p.alive = true) :
    ReadsSteadily s' q where
  steady := hhist ▸ hp.steady
  leader hq v hv hne := by
    refine leader_ne_empty h hs (hl hq) ?_
    rw [hnode]
    exact hp.leader (halive hq) v (hhist ▸ hv) hne

omit [DecidableEq ι] in
/-- An answer to a call is what the register holds, or it is not read from the register. -/
theorem reads_resume {p : Activation (Db.withAddr ι)} {j : ℕ} {c : Call (Db.withAddr ι)} {r : c.Ret}
    (hans : s.Answers l j p c r) :
    reads (p.hist ++ [⟨c, r⟩]) = reads p.hist ∨
      reads (p.hist ++ [⟨c, r⟩]) = reads p.hist ++ [(s.nodes p.node).leader] := by
  rw [reads, List.filterMap_append]
  rcases c with ⟨_ | d, a⟩ | ⟨dest, t⟩
  · cases a with
    | readLeader =>
      obtain ⟨o, -, ho, rfl⟩ := hans
      obtain rfl := ho.resolve_left nofun
      exact .inr rfl
    | _ => exact .inl (List.append_nil _)
  · exact .inl (List.append_nil _)
  · exact .inl (List.append_nil _)

/-- **Registers are steady**: whoever has found a name finds one again. -/
theorem readsSteadily (h : Reach D.ClientCalls D.start s) {j : ℕ}
    {p : Activation (Db.withAddr ι)} (hp : s.acts[j]? = some p) : ReadsSteadily s p := by
  refine h.invariant (I := fun s ↦ ∀ (j : ℕ) (p : Activation (Db.withAddr ι)),
    s.acts[j]? = some p → ReadsSteadily s p) (fun _ _ hp ↦ nomatch hp) ?_ j p hp
  intro s l s' hr hr' ih _ hs j q hq
  rcases hs.activation hq with hp | ⟨-, a, t, origin, rfl, -⟩ | ⟨p, hp, rfl, -, -, rfl, -⟩ |
    ⟨p, hp, rfl, -⟩ | ⟨p, c, k, r, hp, halive, hc, rfl, hans⟩
  · refine (ih j q hp).step hr hs (fun halive hl ↦ ?_) rfl rfl id
    subst hl
    rw [hs.dead_of_restart (lt_length hp) hq rfl] at halive
    cases halive
  · exact ⟨List.Pairwise.nil, fun _ v hv ↦ nomatch hv⟩
  · exact (ih j p hp).step hr hs (fun _ ↦ nofun) rfl rfl id
  · exact (ih j p hp).step hr hs nofun rfl rfl nofun
  · obtain ⟨o, rfl⟩ := hans.label
    have hold := ih j p hp
    have hkeep : (s.nodes p.node).leader ≠ "" → (s'.nodes p.node).leader ≠ "" :=
      leader_ne_empty hr hs nofun
    rcases reads_resume hans with heq | heq
    · refine ⟨?_, fun _ v hv hne ↦ hkeep (hold.leader halive v ?_ hne)⟩
      · rw [Steady, Activation.resume_hist, heq]
        exact hold.steady
      · rwa [Activation.resume_hist, heq] at hv
    · refine ⟨?_, fun _ v hv hne ↦ hkeep ?_⟩
      · rw [Steady, Activation.resume_hist, heq, List.pairwise_append]
        refine ⟨hold.steady, List.pairwise_singleton _ _, fun v hv w hw hne ↦ ?_⟩
        rw [List.mem_singleton.1 hw]
        exact hold.leader halive v hv hne
      · rw [Activation.resume_hist, heq, List.mem_append, List.mem_singleton] at hv
        rcases hv with hv | rfl
        · exact hold.leader halive v hv hne
        · exact hne

/-- **The leader can be resolved.** For all configurations that are accepted, whatever is lost, and
while clients set other keys than that of the leader: every register is empty or holds the name that
some node has for itself. So at a node that has the names of all nodes in its own member list, the
register is empty or a key of that list, and no procedure throws. -/
theorem resolved (h : Reach D.ClientCalls D.start s) (i : ι) :
    ((s.nodes i).leader = "" ∨ ∃ j, (s.nodes i).leader = D.self j) ∧
    ((∀ j, D.self j ∈ D.keys i) →
      ((s.nodes i).leader = "" ∨ (s.nodes i).leader ∈ D.keys i) ∧
      ∀ (n : ℕ) (p : Activation (Db.withAddr ι)), s.acts[n]? = some p → p.node = i →
        ∀ rep, p.Returned rep → rep.status ≠ .unknown) := by
  have hnames := names_holds h
  have hleader := (hnames.nodes i).leader
  refine ⟨hleader, fun hall ↦ ⟨?_, ?_⟩⟩
  · refine hleader.imp_right ?_
    rintro ⟨j, heq⟩
    exact heq ▸ hall j
  · rintro n p hp rfl rep hret
    refine Discipline.result_of_returned rfl h hnames hp hret ?_ (readsSteadily h hp).steady
    rintro v ⟨j, rfl⟩
    exact hall j

end Runs

end Deployment

/-! ### Runs of two nodes -/

/-- Two nodes, `a:1` and `b:1`, with these lists. -/
def duoConfig (listA listB : List String) : Fin 2 → Config
  | 0 => { ip := "a", portConsensus := 1, portDatabase := 1001, cluster := listA }
  | 1 => { ip := "b", portConsensus := 1, portDatabase := 1001, cluster := listB }

/-- Each node is reached at its own addresses. -/
def duoListener (_ : Fin 2) (address : String) : Fin 2 :=
  if address = "b:1" ∨ address = "b:1001" then 1 else 0

/-- Both nodes list both addresses. -/
def sharedDuo : Deployment (Fin 2) :=
  .of decimal (duoConfig ["a:1", "b:1"] ["b:1", "a:1"]) duoListener (by decide +kernel)

/-- Only the first node lists both addresses. -/
def duo : Deployment (Fin 2) :=
  .of decimal (duoConfig ["a:1", "b:1"] ["b:1"]) duoListener (by decide +kernel)

/-- Both nodes start, and the first one wins an election while the second one still sleeps. Then a
client asks the second one for `k`. -/
def startAndGet : List (Label (Db.withAddr (Fin 2))) :=
  .restart 1 :: .restart 0 :: List.replicate 3 (.step 1 .delivered) ++ [.step 2 .delivered] ++
    List.replicate 9 (.step 3 .delivered) ++ List.replicate 2 (.step 2 .delivered) ++
    List.replicate 3 (.step 1 .delivered) ++ .submit 1 (.get "k") ::
    List.replicate 2 (.step 4 .delivered)

/-- **Lists with all names**: the second node finds the address of its leader. -/
theorem resolved_duo : ∃ s : Net sharedDuo.service, Reach sharedDuo.ClientCalls sharedDuo.start s ∧
    (s.nodes 1).leader = "a:1" ∧ "a:1" ∈ sharedDuo.keys 1 := by
  obtain ⟨s, hs, hleader⟩ : ∃ s : Net sharedDuo.service,
      Reach sharedDuo.ClientCalls sharedDuo.start s ∧ (s.nodes 1).leader = "a:1" :=
    Reach.exists_of_steps (by
      decide +kernel : (sharedDuo.start.steps sharedDuo.ClientCalls startAndGet).any _ = true)
  have hkeys := ((Deployment.resolved hs 1).2 (by decide +kernel)).1
  rw [hleader] at hkeys
  exact ⟨s, hs, hleader, hkeys.resolve_left (by decide)⟩

/-- **A name that is not listed**: the second node has learned of its leader, and throws. -/
theorem not_resolved_duo : ∃ s : Net duo.service, Reach duo.ClientCalls duo.start s ∧
    (s.nodes 1).leader = "a:1" ∧ "a:1" ∉ duo.keys 1 ∧
    ∃ p ∈ s.acts[4]?, p.node = 1 ∧ p.task = .get "k" ∧ p.Returned { status := .unknown } := by
  obtain ⟨s, hs, hleader, hkeys, p, hp, hnode, htask, hret⟩ : ∃ s : Net duo.service,
      Reach duo.ClientCalls duo.start s ∧ (s.nodes 1).leader = "a:1" ∧ "a:1" ∉ duo.keys 1 ∧
      ∃ p ∈ s.acts[4]?, p.node = 1 ∧ p.task = .get "k" ∧
        p.prog.result? = some ({ status := .unknown } : Reply) :=
    Reach.exists_of_steps (by
      decide +kernel : (duo.start.steps duo.ClientCalls startAndGet).any _ = true)
  exact ⟨s, hs, hleader, hkeys, p, hp, hnode, htask, Prog.result?_eq_some_iff.1 hret⟩

end ReplicatedDB
