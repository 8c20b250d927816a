import ReplicatedDB.Model.Evaluation

/-!
# Routing

Which node serves a request of a client, when requests are handled while nothing is lost. A
request goes from register to register until it reaches a node that names itself. If it ends
elsewhere, then the last node that has passed it on is elected and tries again. `Routed` says this
in terms of the nodes only, without the request: where it ends, and what the elections on the way
have made of the nodes.

A `get` or `set` evaluates exactly if it is routed, and then it does at the node it reaches what
the leader does (`evals_routed`, `routed_of_evals`).
-/

namespace ReplicatedDB

open Rpc

/-! ### Attempts and elections -/

/-- No promise is logged. -/
def Tidy (N : String → Replica) : Prop :=
  ∀ d key round, (((N d).log key).entry round).pServerId = 0

/-- The request that an attempt at the node `me` has accepted, when nothing is lost. -/
def carried (cl : Cluster) (me : String) (r : Request) (N : String → Replica) : Request :=
  acceptRequest r (Log.size ((N me).log r.key))
    (proposals cl Plan.prompt (prepareRequest r (Log.size ((N me).log r.key))) cl.memberList N)

/-- The nodes after such an attempt. -/
def committed (cl : Cluster) (me : String) (r : Request) (N : String → Replica) (d : String) :
    Replica :=
  if d ∈ cl.memberList then (N d).commit (carried cl me r N) else N d

/-- The nodes after an election of the node `me`. -/
def elected (cl : Cluster) (me : String) (N : String → Replica) : String → Replica :=
  Function.update (committed cl me (electRequest "leader" me) N) me
    { committed cl me (electRequest "leader" me) N me with
      leader := (carried cl me (electRequest "leader" me) N).value }

section Attempts

variable {cl : Cluster} {me : String} {r : Request} {N M : String → Replica}

@[simp] theorem carried_key : (carried cl me r N).key = r.key := by
  rw [carried, acceptRequest]
  split <;> rfl

theorem pServerId_commit (s : Replica) (q : Request) (key : String) (round : ℤ) :
    (((s.commit q).log key).entry round).pServerId = ((s.log key).entry round).pServerId := by
  rw [Replica.log, show (s.commit q).paxLog =
    s.paxLog.modify q.key q.round fun e ↦ e.accepted q from rfl, PaxLog.entry_modify]
  split
  · rename_i h
    rw [h.1, h.2]
    rfl
  · rfl

theorem log_commit_of_ne (s : Replica) (q : Request) {key : String} (h : key ≠ q.key) :
    (s.commit q).log key = s.log key :=
  PaxLog.rounds_modify_of_ne s.paxLog q.round (fun e ↦ e.accepted q) h

theorem Tidy.committed (h : Tidy N) (me : String) (r : Request) :
    Tidy (committed cl me r N) := by
  intro d key round
  rw [ReplicatedDB.committed]
  split
  · rw [pServerId_commit]
    exact h d key round
  · exact h d key round

theorem Tidy.elected (h : Tidy N) (me : String) : Tidy (elected cl me N) := by
  intro d key round
  rw [ReplicatedDB.elected]
  by_cases hd : d = me
  · subst hd
    rw [Function.update_self]
    exact h.committed d _ d key round
  · rw [Function.update_of_ne hd]
    exact h.committed me _ d key round

/-- An attempt at tidy nodes. -/
theorem evals_attempt_tidy (h : Tidy N) (me : String) (r : Request) :
    Evals (db cl) Plan.prompt me (attemptConsensus cl.memberList r) N
      { response := acceptResponse (carried cl me r N) } (committed cl me r N) := by
  refine evals_attempt_prompt r cl.nodup cl.ne_nil rfl rfl fun d _ ↦ ?_
  rw [Willing, h d]
  exact zero_le_one

/-- An election at tidy nodes. -/
theorem evals_election_tidy (h : Tidy N) (me : String) :
    Evals (db cl) Plan.prompt me (body cl me (.electLeader "leader" me)) N {}
      (elected cl me N) :=
  evals_electLeader (evals_attempt_tidy h me (electRequest "leader" me)) Status.ok_default

/-- An attempt looks at the logs of its key only. -/
theorem carried_congr (h : ∀ d, (M d).log r.key = (N d).log r.key) :
    carried cl me r M = carried cl me r N := by
  have hproposals : ∀ p : Request, p.key = r.key →
      proposals cl Plan.prompt p cl.memberList M = proposals cl Plan.prompt p cl.memberList N := by
    intro p hp
    refine List.foldl_ext _ _ _ fun v d _ ↦ congrArg v.add ?_
    change (propose false p (M d)).1 = (propose false p (N d)).1
    rw [propose_answer, propose_answer, hp, h d]
  rw [carried, carried, h me, hproposals (prepareRequest r _) rfl]

end Attempts

/-! ### Where requests go -/

/-- Where a request goes from a node: to the leader that serves it (`none` if there is none), and
the nodes when it gets there. -/
inductive Routed (cl : Cluster) :
    String → (String → Replica) → Option String → (String → Replica) → Prop where
  /-- No leader is set. -/
  | unset {x : String} {N : String → Replica} (h : (N x).leader = "") : Routed cl x N none N
  /-- The node is the leader. -/
  | serve {x : String} {N : String → Replica} (h : (N x).leader = x) (hne : x ≠ "") :
      Routed cl x N (some x) N
  /-- The leader is unknown. -/
  | unknown {x : String} {N : String → Replica} (h : (N x).leader ∉ cl.memberList)
      (hset : (N x).leader ≠ "") (hne : (N x).leader ≠ x) : Routed cl x N none N
  /-- The leader is another node. -/
  | forward {x y : String} {N N₁ : String → Replica} (h : (N x).leader ∈ cl.memberList)
      (hne : (N x).leader ≠ x) (hserve : Routed cl (N x).leader N (some y) N₁) :
      Routed cl x N (some y) N₁
  /-- The leader does not serve it; an election, and another try. -/
  | retry {x : String} {N N₁ N₂ : String → Replica} {o : Option String}
      (h : (N x).leader ∈ cl.memberList) (hne : (N x).leader ≠ x)
      (hfail : Routed cl (N x).leader N none N₁)
      (hnew : (elected cl x N₁ x).leader ∈ cl.memberList)
      (hserve : Routed cl (elected cl x N₁ x).leader (elected cl x N₁) o N₂) : Routed cl x N o N₂
  /-- The leader does not serve it; an election, of an unknown leader. -/
  | lost {x : String} {N N₁ : String → Replica} (h : (N x).leader ∈ cl.memberList)
      (hne : (N x).leader ≠ x) (hfail : Routed cl (N x).leader N none N₁)
      (hnew : (elected cl x N₁ x).leader ∉ cl.memberList) : Routed cl x N none (elected cl x N₁)

/-- What the leader does for a request. -/
def Task.lead : Task → Program Reply
  | .set key value => do
    let resp ← Local.attemptConsensus { key := key, value := value }
    pure { status := resp.status }
  | .get key => do
    let resp ← Local.getKV key
    if resp.2 ≠ 0 then pure { getResponse := { value := "", error := 1 } }
    else pure { getResponse := { value := resp.1 } }
  | _ => pure {}

/-- What a node that has forwarded a request makes of the answer. -/
def Task.relay : Task → Reply → Reply
  | .get _, rep => { getResponse := rep.getResponse }
  | _, _ => {}

/-- The answer of the leader `y`, and the nodes afterwards. -/
def served (cl : Cluster) (y : String) (N : String → Replica) : Task → Reply × (String → Replica)
  | .set key value => ({}, committed cl y (setRequest key value) N)
  | .get key => ({ getResponse := getAnswer ((N y).kvStore.getKV key) }, N)
  | _ => ({}, N)

/-- The answer to a request that is routed in this way, and the nodes afterwards. -/
def RoutedTo (cl : Cluster) (t : Task) (rep : Reply) (N' : String → Replica) :
    Option String → (String → Replica) → Prop
  | some y, N₁ => rep = (served cl y N₁ t).1 ∧ N' = (served cl y N₁ t).2
  | none, N₁ => ¬ rep.status.Ok ∧ N' = N₁

section Routing

variable {cl : Cluster} {x : String} {t : Task} {N N' N₁ : String → Replica} {o : Option String}
  {rep : Reply}

theorem body_forwarded (ht : t.Forwarded) (x : String) : body cl x t = (do
    let addr ← Local.readLeader
    if addr = "" then pure noLeader
    else if addr = x then t.lead
    else forward cl.memberList x t t.relay) := by
  cases t <;> first | rfl | exact absurd ht id

theorem served_ok (y : String) (N : String → Replica) (t : Task) :
    (served cl y N t).1.status.Ok := by
  cases t <;> exact Status.ok_default

theorem relay_served (y : String) (N : String → Replica) (t : Task) :
    t.relay (served cl y N t).1 = (served cl y N t).1 := by
  cases t <;> rfl

theorem evals_lead (hN : Tidy N) (ht : t.Forwarded) (y : String) :
    Evals (db cl) Plan.prompt y t.lead N (served cl y N t).1 (served cl y N t).2 := by
  cases t with
  | set key value =>
    have hbody : Evals (db cl) Plan.prompt y
        (body cl y (.attemptConsensus (setRequest key value))) N _ _ :=
      evals_attempt_tidy hN y (setRequest key value)
    rw [Task.lead, Prog.run_bind]
    exact .invoke hbody .ret
  | get key =>
    rw [Task.lead, Prog.here_bind]
    refine Evals.read rfl ?_
    rw [served, show ((db cl).act (.getKV key) (N y)).1 = (N y).kvStore.getKV key from rfl,
      getAnswer]
    split <;> exact .ret
  | _ => exact absurd ht id

theorem Routed.tidy (h : Routed cl x N o N₁) (hN : Tidy N) : Tidy N₁ := by
  induction h with
  | unset => exact hN
  | serve => exact hN
  | unknown => exact hN
  | forward _ _ _ ih => exact ih hN
  | retry _ _ _ _ _ ihfail ih => exact ih ((ihfail hN).elected _)
  | lost _ _ _ _ ih => exact (ih hN).elected _

/-- The second try of a request, when the node named in the register has failed. -/
def Task.again (cl : Cluster) (t : Task) (L : String) : Program Reply :=
  memberAt cl.memberList L do
    let newLeader ← Prog.invoke (S := Db) L t
    if ¬ newLeader.status.Ok then
      pure { status := .aborted "New leader was not able to get value." }
    else pure (t.relay newLeader)

/-- A request that fails at the node named in the register. -/
theorem evals_forward_again {N₂ : String → Replica} {rep' : Reply} (hN : Tidy N₁)
    (h : (N x).leader ∈ cl.memberList)
    (hbody : Evals (db cl) Plan.prompt (N x).leader (body cl (N x).leader t) N rep N₁)
    (hrep : ¬ rep.status.Ok)
    (hagain : Evals (db cl) Plan.prompt x (t.again cl (elected cl x N₁ x).leader)
      (elected cl x N₁) rep' N₂) :
    Evals (db cl) Plan.prompt x (forward cl.memberList x t t.relay) N rep' N₂ := by
  rw [forward, Prog.here_bind]
  refine Evals.read rfl ?_
  rw [show ((db cl).act .readLeader (N x)).1 = (N x).leader from rfl, memberAt, if_pos h,
    Prog.invoke_bind]
  refine Evals.invoke hbody ?_
  rw [if_neg hrep, Prog.invoke_bind]
  refine Evals.invoke (evals_election_tidy hN x) ?_
  rw [if_neg (not_not.2 Status.ok_default), Prog.here_bind]
  exact Evals.read rfl hagain

/-- A second try that is routed. -/
theorem evals_again {L : String}
    (hbody : Evals (db cl) Plan.prompt L (body cl L t) N rep N')
    (hrouted : RoutedTo cl t rep N' o N₁) (hL : L ∈ cl.memberList) :
    ∃ rep', Evals (db cl) Plan.prompt x (t.again cl L) N rep' N' ∧ RoutedTo cl t rep' N' o N₁ := by
  have hagain : ∀ rep', Evals (db cl) Plan.prompt x (if ¬ rep.status.Ok then
      pure { status := .aborted "New leader was not able to get value." }
      else pure (t.relay rep)) N' rep' N' →
        Evals (db cl) Plan.prompt x (t.again cl L) N rep' N' := by
    intro rep' hev
    rw [Task.again, memberAt, if_pos hL, Prog.invoke_bind]
    exact .invoke hbody hev
  cases o with
  | some y =>
    obtain ⟨rfl, rfl⟩ := hrouted
    refine ⟨_, hagain _ ?_, rfl, rfl⟩
    rw [if_neg (not_not.2 (served_ok y N₁ t)), relay_served]
    exact .ret
  | none =>
    obtain ⟨hrep, rfl⟩ := hrouted
    refine ⟨{ status := .aborted "New leader was not able to get value." }, hagain _ ?_,
      Status.not_ok_aborted _, rfl⟩
    rw [if_pos hrep]
    exact .ret

/-- **A request that is routed evaluates.** -/
theorem evals_routed (h : Routed cl x N o N₁) (ht : t.Forwarded) (hN : Tidy N) :
    ∃ rep N', Evals (db cl) Plan.prompt x (body cl x t) N rep N' ∧ RoutedTo cl t rep N' o N₁ := by
  -- what a node does that has found another one in its register
  have hforward : ∀ {x : String} {N N' : String → Replica} {rep : Reply}, (N x).leader ≠ "" →
      (N x).leader ≠ x →
      Evals (db cl) Plan.prompt x (forward cl.memberList x t t.relay) N rep N' →
        Evals (db cl) Plan.prompt x (body cl x t) N rep N' := by
    intro x N N' rep hset hne hev
    rw [body_forwarded ht, Prog.here_bind]
    refine Evals.read rfl ?_
    rw [show ((db cl).act .readLeader (N x)).1 = (N x).leader from rfl, if_neg hset, if_neg hne]
    exact hev
  induction h with
  | @unset x N h =>
    refine ⟨noLeader, N, ?_, Status.not_ok_aborted _, rfl⟩
    rw [body_forwarded ht, Prog.here_bind]
    refine Evals.read rfl ?_
    rw [show ((db cl).act .readLeader (N x)).1 = "" from h, if_pos rfl]
    exact .ret
  | @serve x N h hne =>
    refine ⟨_, _, ?_, rfl, rfl⟩
    rw [body_forwarded ht, Prog.here_bind]
    refine Evals.read rfl ?_
    rw [show ((db cl).act .readLeader (N x)).1 = x from h, if_neg hne, if_pos rfl]
    exact evals_lead hN ht x
  | @unknown x N h hset hne =>
    refine ⟨{ status := .unknown }, N, hforward hset hne ?_, Status.not_ok_unknown, rfl⟩
    rw [forward, Prog.here_bind]
    refine Evals.read rfl ?_
    rw [show ((db cl).act .readLeader (N x)).1 = (N x).leader from rfl, memberAt, if_neg h]
    exact .ret
  | @forward x y N N₁ h hne _ ih =>
    obtain ⟨rep, N', hev, rfl, rfl⟩ := ih hN
    refine ⟨_, _, hforward (ne_of_mem_of_not_mem h cl.nonempty) hne ?_, rfl, rfl⟩
    rw [← relay_served]
    exact evals_forward rfl h _ hev (served_ok y N₁ t)
  | @retry x N N₁ N₂ o h hne hfail hnew hserve ihfail ih =>
    obtain ⟨rep, _, hev, hrep, rfl⟩ := ihfail hN
    obtain ⟨rep', N', hev', hrouted⟩ := ih ((hfail.tidy hN).elected x)
    obtain ⟨rep₂, hev₂, hrouted₂⟩ := evals_again hev' hrouted hnew
    exact ⟨rep₂, N', hforward (ne_of_mem_of_not_mem h cl.nonempty) hne
      (evals_forward_again (hfail.tidy hN) h hev hrep hev₂), hrouted₂⟩
  | @lost x N N₁ h hne hfail hnew ihfail =>
    obtain ⟨rep, _, hev, hrep, rfl⟩ := ihfail hN
    refine ⟨{ status := .unknown }, _, hforward (ne_of_mem_of_not_mem h cl.nonempty) hne
      (evals_forward_again (hfail.tidy hN) h hev hrep ?_), Status.not_ok_unknown, rfl⟩
    rw [Task.again, memberAt, if_neg hnew]
    exact .ret

/-- **A request that evaluates is routed.** -/
theorem routed_of_evals (hev : Evals (db cl) Plan.prompt x (body cl x t) N rep N')
    (ht : t.Forwarded) (hN : Tidy N) : ∃ o N₁, Routed cl x N o N₁ ∧ RoutedTo cl t rep N' o N₁ := by
  have hrouted : t.Forwarded → Tidy N → ∃ o N₁, Routed cl x N o N₁ := by
    refine Evals.of_procedures (V := db cl) (t := t) (Q := fun x t N _ _ ↦
      t.Forwarded → Tidy N → ∃ o N₁, Routed cl x N o N₁) ?_ hev
    intro x t N rep N' _ hvia ht hN
    change EvalsVia _ _ _ _ (body cl x t) _ _ _ at hvia
    rw [body_forwarded ht, Prog.here_bind] at hvia
    replace hvia := hvia.of_read rfl
    rw [show ((db cl).act .readLeader (N x)).1 = (N x).leader from rfl] at hvia
    by_cases hunset : (N x).leader = ""
    · exact ⟨_, _, .unset hunset⟩
    by_cases hne : (N x).leader = x
    · exact ⟨_, _, .serve hne (hne ▸ hunset)⟩
    by_cases h : (N x).leader ∈ cl.memberList
    case neg => exact ⟨_, _, .unknown h hunset hne⟩
    rw [if_neg hunset, if_neg hne, forward, Prog.here_bind] at hvia
    replace hvia := hvia.of_read rfl
    rw [show ((db cl).act .readLeader (N x)).1 = (N x).leader from rfl, memberAt, if_pos h,
      Prog.invoke_bind] at hvia
    obtain ⟨r₁, N₁, hev₁, ih₁, hvia⟩ := hvia
    obtain ⟨o, N₂, hrouted₁⟩ := ih₁ ht hN
    obtain ⟨_, _, hev₂, hto⟩ := evals_routed hrouted₁ ht hN
    obtain ⟨rfl, rfl⟩ := hev₁.det hev₂
    cases o with
    | some y => exact ⟨_, _, .forward h hne hrouted₁⟩
    | none =>
      obtain ⟨hfail, rfl⟩ := hto
      beta_reduce at hvia
      rw [if_neg hfail, Prog.invoke_bind] at hvia
      obtain ⟨r₃, N₃, hev₃, -, hvia⟩ := hvia
      obtain ⟨rfl, rfl⟩ := hev₃.det (evals_election_tidy (hrouted₁.tidy hN) x)
      beta_reduce at hvia
      rw [if_neg (not_not.2 Status.ok_default), Prog.here_bind] at hvia
      replace hvia := hvia.of_read rfl
      rw [show ((db cl).act .readLeader (elected cl x N₁ x)).1 = (elected cl x N₁ x).leader from
        rfl, memberAt] at hvia
      by_cases hnew : (elected cl x N₁ x).leader ∈ cl.memberList
      · rw [if_pos hnew, Prog.invoke_bind] at hvia
        obtain ⟨r₄, N₄, -, ih₄, -⟩ := hvia
        obtain ⟨o, N₅, hrouted₂⟩ := ih₄ ht ((hrouted₁.tidy hN).elected x)
        exact ⟨o, N₅, .retry h hne hrouted₁ hnew hrouted₂⟩
      · exact ⟨_, _, .lost h hne hrouted₁ hnew⟩
  obtain ⟨o, N₁, hrouted⟩ := hrouted ht hN
  obtain ⟨_, _, hev', hto⟩ := evals_routed hrouted ht hN
  obtain ⟨rfl, rfl⟩ := hev.det hev'
  exact ⟨o, N₁, hrouted, hto⟩

/-- What a request finds of the nodes does not depend on the way it is routed. -/
theorem Routed.det {o' : Option String} {N₂ : String → Replica} (h : Routed cl x N o N₁)
    (h' : Routed cl x N o' N₂) (hN : Tidy N) : N₁ = N₂ := by
  have hget : ∀ {o N₁}, Routed cl x N o N₁ →
      ∃ rep, Evals (db cl) Plan.prompt x (body cl x (.get "")) N rep N₁ := by
    intro o N₁ h
    obtain ⟨rep, N', hev, hto⟩ := evals_routed h (t := .get "") trivial hN
    cases o <;> obtain ⟨-, rfl⟩ := hto <;> exact ⟨rep, hev⟩
  obtain ⟨_, hev⟩ := hget h
  obtain ⟨_, hev'⟩ := hget h'
  exact (hev.det hev').2

/-- Requests are served by members. -/
theorem Routed.mem {y : String} (h : Routed cl x N (some y) N₁) (hx : x ∈ cl.memberList) :
    y ∈ cl.memberList := by
  obtain ⟨o, ho⟩ : ∃ o, o = some y := ⟨_, rfl⟩
  rw [← ho] at h
  induction h with
  | serve => exact Option.some.inj ho ▸ hx
  | forward h _ _ ih => exact ih h ho
  | retry _ _ _ hnew _ _ ih => exact ih hnew ho
  | _ => cases ho

end Routing

/-! ### What routing leaves alone, and what it depends on -/

section Frame

variable {cl : Cluster} {x y : String} {N M N₁ : String → Replica} {o : Option String} {r : Request}

/-- The nodes agree on everything but the election of leaders. -/
def SameData (M N : String → Replica) : Prop :=
  ∀ d, (M d).kvStore = (N d).kvStore ∧ ∀ key, key ≠ "leader" → (M d).log key = (N d).log key

/-- The nodes agree on the election of leaders. -/
def SameControl (M N : String → Replica) : Prop :=
  ∀ d, (M d).leader = (N d).leader ∧ (M d).log "leader" = (N d).log "leader"

theorem SameData.refl (N : String → Replica) : SameData N N := fun _ ↦ ⟨rfl, fun _ _ ↦ rfl⟩

theorem SameData.trans {M' : String → Replica} (h : SameData M N) (h' : SameData M' M) :
    SameData M' N := fun d ↦
  ⟨(h' d).1.trans (h d).1, fun key hkey ↦ ((h' d).2 key hkey).trans ((h d).2 key hkey)⟩

theorem sameData_elected (x : String) (N : String → Replica) : SameData (elected cl x N) N := by
  have hcommitted : SameData (committed cl x (electRequest "leader" x) N) N := by
    intro d
    rw [committed]
    split
    · exact ⟨if_neg fun h ↦ h.2 carried_key, fun key hkey ↦
        log_commit_of_ne _ _ (by rwa [carried_key])⟩
    · exact ⟨rfl, fun _ _ ↦ rfl⟩
  intro d
  rw [elected]
  by_cases hd : d = x
  · subst hd
    rw [Function.update_self]
    exact hcommitted d
  · rw [Function.update_of_ne hd]
    exact hcommitted d

/-- Routing changes no data. -/
theorem Routed.sameData (h : Routed cl x N o N₁) : SameData N₁ N := by
  induction h with
  | unset => exact .refl _
  | serve => exact .refl _
  | unknown => exact .refl _
  | forward _ _ _ ih => exact ih
  | retry _ _ _ _ _ ihfail ih => exact (ihfail.trans (sameData_elected _ _)).trans ih
  | lost _ _ _ _ ih => exact ih.trans (sameData_elected _ _)

/-- An attempt at another key than that of the leader changes no register. -/
theorem sameControl_committed (hkey : r.key ≠ "leader") (y : String) (N : String → Replica) :
    SameControl (committed cl y r N) N := by
  intro d
  rw [committed]
  split
  · exact ⟨if_neg fun h ↦ hkey (carried_key.symm.trans h.2), log_commit_of_ne _ _ (by
      rw [carried_key]
      exact hkey.symm)⟩
  · exact ⟨rfl, rfl⟩

theorem SameControl.symm (h : SameControl M N) : SameControl N M := fun d ↦
  ⟨(h d).1.symm, (h d).2.symm⟩

/-- Elections depend on the election of leaders only. -/
theorem SameControl.elected (h : SameControl M N) (x : String) :
    SameControl (elected cl x M) (elected cl x N) := by
  have hcarried : carried cl x (electRequest "leader" x) M =
      carried cl x (electRequest "leader" x) N := carried_congr fun d ↦ (h d).2
  have hcommit : ∀ d q, q.key = "leader" →
      ((M d).commit q).leader = ((N d).commit q).leader ∧
        ((M d).commit q).log "leader" = ((N d).commit q).log "leader" := by
    intro d q hq
    have hcur : Current q (M d) ↔ Current q (N d) := by rw [Current, Current, hq, (h d).2]
    refine ⟨?_, ?_⟩
    · rw [Replica.commit, Replica.commit]
      simp only [hcur, (h d).1]
    · have hlog : (M d).paxLog.rounds "leader" = (N d).paxLog.rounds "leader" := (h d).2
      rw [Replica.log, Replica.log, Replica.commit, Replica.commit]
      simp only [hq, PaxLog.rounds_modify_self, hlog]
  have hcommitted : SameControl (committed cl x (electRequest "leader" x) M)
      (committed cl x (electRequest "leader" x) N) := by
    intro d
    rw [committed, committed, hcarried]
    split
    · exact hcommit d _ carried_key
    · exact h d
  intro d
  rw [ReplicatedDB.elected, ReplicatedDB.elected, hcarried]
  by_cases hd : d = x
  · subst hd
    rw [Function.update_self, Function.update_self]
    exact ⟨rfl, (hcommitted d).2⟩
  · rw [Function.update_of_ne hd, Function.update_of_ne hd]
    exact hcommitted d

/-- **Routing depends on the election of leaders only.** -/
theorem Routed.congr (h : Routed cl x N o N₁) :
    ∀ {M : String → Replica}, SameControl M N → ∃ M₁, Routed cl x M o M₁ ∧ SameControl M₁ N₁ := by
  induction h with
  | @unset x N h => exact fun hM ↦ ⟨_, .unset ((hM x).1.trans h), hM⟩
  | @serve x N h hne => exact fun hM ↦ ⟨_, .serve ((hM x).1.trans h) hne, hM⟩
  | @unknown x N h hset hne =>
    intro M hM
    rw [← (hM x).1] at h hset hne
    exact ⟨_, .unknown h hset hne, hM⟩
  | @forward x y N N₁ h hne _ ih =>
    intro M hM
    rw [← (hM x).1] at h hne ih
    obtain ⟨M₁, hrouted, hM₁⟩ := ih hM
    exact ⟨M₁, .forward h hne hrouted, hM₁⟩
  | @retry x N N₁ N₂ o h hne _ hnew _ ihfail ih =>
    intro M hM
    rw [← (hM x).1] at h hne ihfail
    obtain ⟨M₁, hfail, hM₁⟩ := ihfail hM
    have hel : SameControl (elected cl x _) (elected cl x _) := hM₁.elected x
    rw [← (hel x).1] at hnew ih
    obtain ⟨M₂, hrouted, hM₂⟩ := ih hel
    exact ⟨M₂, .retry h hne hfail hnew hrouted, hM₂⟩
  | @lost x N N₁ h hne _ hnew ih =>
    intro M hM
    rw [← (hM x).1] at h hne ih
    obtain ⟨M₁, hfail, hM₁⟩ := ih hM
    have hel : SameControl (elected cl x _) (elected cl x _) := hM₁.elected x
    rw [← (hel x).1] at hnew
    exact ⟨_, .lost h hne hfail hnew, hel⟩

end Frame

end ReplicatedDB
