import ReplicatedDB.Protocol.Agreement
import ReplicatedDB.Rpc.Thread

/-!
# Evaluating an attempt

What `AttemptConsensus` returns and what it does to the nodes, as functions of the plan, which says
what becomes of each request. The big-step rules of `Rpc.BigStep` evaluate a program one call
after another; the stages are loops that send one request to each node of a list without
repetition, so the rule for broadcasts evaluates each stage at once.

* `evals_pingStage`, `evals_proposeStage`, `evals_acceptStage`, `evals_successStage`: a stage
  returns the count, the votes or the answers as `alive`, `proposals` and the like compute them
  from the plan, and leaves the nodes in the states `sentAll`.
* `evals_attempt`: an attempt with a quorum in all stages returns what was accepted. Its round is
  the size of the caller's log, and the value is its own unless a node reports an accepted one.
* `success_accept_propose`: the three requests of one attempt have together the effect of one
  change of the log entry, and of the store or the leader register.

The evaluation rests on the program text alone. `Rpc.Thread` carries it over to the calls that the
network machine handles while nothing else moves.
-/

namespace ReplicatedDB

open Rpc

section Stages

variable (cl : Cluster) (w : Plan Db)

/-- The states of the nodes after `a` was sent to those in the list. -/
def sentAll (a : Act) (l : List String) (N : String → Replica) (d : String) : Replica :=
  if d ∈ l then (w d a).effect (db cl) a (N d) else N d

/-- The nodes that answer a ping. -/
def alive (l : List String) : List String := l.filter fun d ↦ w d .ping = .delivered

/-- What the answers to a proposal add up to. -/
def proposals (p : Request) (l : List String) (N : String → Replica) : Proposals :=
  l.foldl (fun v d ↦ v.add ((w d (.propose p)).reply (db cl) (.propose p) (N d))) {}

/-- The nodes whose acceptance is counted. -/
def voters (q : Request) (l : List String) : List String :=
  l.filter fun d ↦ w d (.accept q) = .delivered

variable {cl w} {me : String} {N : String → Replica} {l : List String}

theorem evals_pingStage (hl : l.Nodup) :
    Evals (db cl) w me (pingStage l) N (alive w l) N := by
  have h : Evals (db cl) w me _ N _ _ := Evals.broadcast (V := db cl) (a := Act.ping)
    (fun (v : List String) d (r : Status) ↦ if r.Ok then v ++ [d] else v) hl [] N
  have hvalue : ∀ v : List String, l.foldl (fun (v : List String) d ↦
      if Status.Ok ((w d .ping).reply (db cl) .ping (N d)) then v ++ [d] else v) v =
        v ++ alive w l := by
    clear hl h
    induction l with
    | nil => simp [alive]
    | cons d l ih =>
      intro v
      rw [List.foldl_cons, ih, alive, alive, List.filter_cons]
      by_cases hd : w d .ping = .delivered
      · have hok : Status.Ok ((w d .ping).reply (db cl) .ping (N d)) := by
          rw [hd]
          exact Status.ok_default
        rw [if_pos hok]
        simp [hd]
      · have hok : ¬ Status.Ok ((w d .ping).reply (db cl) .ping (N d)) := by
          rw [Outcome.reply, if_neg hd]
          exact Status.not_ok_unavailable
        rw [if_neg hok]
        simp [hd]
  have hnodes : (fun d ↦ if d ∈ l then (w d .ping).effect (db cl) .ping (N d) else N d) = N := by
    funext d
    have heffect : (w d .ping).effect (db cl) .ping (N d) = N d := by
      rw [Outcome.effect]
      split <;> rfl
    rw [heffect, ite_self]
  rw [hvalue, hnodes] at h
  exact h

theorem evals_proposeStage (p : Request) (hl : l.Nodup) :
    Evals (db cl) w me (proposeStage p l) N (proposals cl w p l N)
      (sentAll cl w (.propose p) l N) := by
  have h : Evals (db cl) w me _ N _ _ := Evals.broadcast (V := db cl) (a := Act.propose p)
    (fun (v : Proposals) _ (r : Status × Response) ↦ v.add r) hl {} N
  exact h

theorem evals_acceptStage (q : Request) (hl : l.Nodup) :
    Evals (db cl) w me (acceptStage q l) N
      ((voters w q l).length, if voters w q l = [] then {} else acceptResponse q)
      (sentAll cl w (.accept q) l N) := by
  have h : Evals (db cl) w me _ N _ _ := Evals.broadcast (V := db cl) (a := Act.accept q)
    (fun (v : ℕ × Response) _ (r : Status × Response) ↦ if r.1.Ok then (v.1 + 1, r.2) else v) hl
    (0, {}) N
  have hvalue : ∀ v : ℕ × Response, l.foldl (fun (v : ℕ × Response) d ↦
      if Status.Ok ((w d (.accept q)).reply (db cl) (.accept q) (N d)).1 then
        (v.1 + 1, ((w d (.accept q)).reply (db cl) (.accept q) (N d)).2) else v) v =
      (v.1 + (voters w q l).length, if voters w q l = [] then v.2 else acceptResponse q) := by
    clear hl h
    induction l with
    | nil => simp [voters]
    | cons d l ih =>
      intro v
      rw [List.foldl_cons, ih, voters, voters, List.filter_cons]
      by_cases hd : w d (.accept q) = .delivered
      · have hreply : (w d (.accept q)).reply (db cl) (.accept q) (N d) =
            ({}, acceptResponse q) := by
          rw [hd]
          rfl
        rw [hreply, if_pos Status.ok_default]
        simp [hd, Nat.add_assoc, Nat.add_comm 1]
      · have hok : ¬ Status.Ok ((w d (.accept q)).reply (db cl) (.accept q) (N d)).1 := by
          rw [Outcome.reply, if_neg hd]
          exact Status.not_ok_unavailable
        rw [if_neg hok]
        simp [hd]
  rw [hvalue, Nat.zero_add] at h
  exact h

theorem evals_successStage (q : Request) (hl : l.Nodup) :
    Evals (db cl) w me (successStage q l) N () (sentAll cl w (.success q) l N) := by
  have h : Evals (db cl) w me _ N _ _ := Evals.broadcast (V := db cl) (a := Act.success q)
    (fun (_ : Unit) _ _ ↦ ()) hl () N
  exact h

variable (cl w me N l) in
/-- How far an attempt gets: what it returns, and the states it leaves. -/
def attemptOutcome (r : Request) : Reply × (String → Replica) :=
  let round := Log.size ((N me).log r.key)
  let p := prepareRequest r round
  let v := proposals cl w p (alive w l) N
  let q := acceptRequest r round v
  let proposed := sentAll cl w (.propose p) (alive w l) N
  let accepted := sentAll cl w (.accept q) (alive w l) proposed
  if NoQuorum l.length (alive w l).length then (defaultResponse, N)
  else if NoQuorum l.length v.numAcceptedProposals then (defaultResponse, proposed)
  else if NoQuorum l.length (voters w q (alive w l)).length then (defaultResponse, accepted)
  else ({ response := acceptResponse q },
    sentAll cl w (.success (successRequest r.key (acceptResponse q))) l accepted)

/-- **Every attempt comes to an end**, whatever becomes of its requests. -/
theorem evals_attemptOutcome (r : Request) (hl : l.Nodup) (hne : l ≠ []) :
    Evals (db cl) w me (attemptConsensus l r) N (attemptOutcome cl w me N l r).1
      (attemptOutcome cl w me N l r).2 := by
  have halive' : (alive w l).Nodup := hl.filter _
  simp only [attemptOutcome]
  refine Evals.read rfl ((evals_pingStage hl).bind ?_)
  -- what the stages ask for, and what they come to
  obtain ⟨p, hp⟩ : ∃ p, prepareRequest r (Log.size ((N me).log r.key)) = p := ⟨_, rfl⟩
  obtain ⟨v, hv⟩ : ∃ v, proposals cl w p (alive w l) N = v := ⟨_, rfl⟩
  obtain ⟨q, hq⟩ : ∃ q, acceptRequest r (Log.size ((N me).log r.key)) v = q := ⟨_, rfl⟩
  have hpropose : Evals (db cl) w me (proposeStage p (alive w l)) N _ _ :=
    evals_proposeStage p halive'
  have haccept : Evals (db cl) w me (acceptStage q (alive w l))
      (sentAll cl w (.propose p) (alive w l) N) _ _ := evals_acceptStage q halive'
  have hsuccess : Evals (db cl) w me
      (successStage (successRequest r.key (acceptResponse q)) l)
      (sentAll cl w (.accept q) (alive w l) (sentAll cl w (.propose p) (alive w l) N)) _ _ :=
    evals_successStage _ hl
  rw [hv] at hpropose
  rw [hp, hv, hq]
  subst hp hq
  split
  · exact .ret
  refine hpropose.bind ?_
  split
  · exact .ret
  refine haccept.bind ?_
  by_cases hvotes : NoQuorum l.length
      (voters w (acceptRequest r (Log.size ((N me).log r.key)) v) (alive w l)).length
  · simp only [if_pos hvotes]
    exact .ret
  · -- somebody has accepted, so the last acceptance is one
    have hsome : voters w (acceptRequest r (Log.size ((N me).log r.key)) v) (alive w l) ≠ [] := by
      intro hnil
      have h0 := not_noQuorum_iff.1 hvotes
      rw [hnil, List.length_nil] at h0
      exact hne (List.length_eq_zero_iff.1 (by omega))
    simp only [if_neg hvotes, if_neg hsome]
    exact hsuccess.bind .ret

/-- **An attempt that has a quorum in all stages** returns what was accepted. -/
theorem evals_attempt (r : Request) (hl : l.Nodup) (hne : l ≠ []) {p q : Request} {v : Proposals}
    (hp : prepareRequest r (Log.size ((N me).log r.key)) = p)
    (hv : proposals cl w p (alive w l) N = v)
    (hq : acceptRequest r (Log.size ((N me).log r.key)) v = q)
    (halive : ¬ NoQuorum l.length (alive w l).length)
    (hcount : ¬ NoQuorum l.length v.numAcceptedProposals)
    (hvotes : ¬ NoQuorum l.length (voters w q (alive w l)).length) :
    Evals (db cl) w me (attemptConsensus l r) N { response := acceptResponse q }
      (sentAll cl w (.success (successRequest r.key (acceptResponse q))) l
        (sentAll cl w (.accept q) (alive w l) (sentAll cl w (.propose p) (alive w l) N))) := by
  have h : Evals (db cl) w me _ N _ _ := evals_attemptOutcome r hl hne
  simp only [attemptOutcome, hp, hv, hq, if_neg halive, if_neg hcount, if_neg hvotes] at h
  exact h

/-! ### Proposals that nobody refuses -/

/-- The proposal is not refused. -/
def Willing (p : Request) (s : Replica) : Prop :=
  ((s.log p.key).entry p.round).pServerId ≤ p.pserverId

theorem ok_of_willing {p : Request} {s : Replica} (h : Willing p s) :
    (propose false p s).1.1.Ok := by
  rw [propose_answer, if_neg (not_lt.2 h)]
  split <;> exact Status.ok_default

/-- Every proposal that is delivered is counted. -/
theorem proposals_count {p : Request} (hw : ∀ d ∈ l, w d (.propose p) = .delivered)
    (hok : ∀ d ∈ l, Willing p (N d)) :
    (proposals cl w p l N).numAcceptedProposals = l.length := by
  have hadd : ∀ (v : Proposals) (x : Status × Response), x.1.Ok →
      (v.add x).numAcceptedProposals = v.numAcceptedProposals + 1 := by
    intro v x hx
    rw [Proposals.add, if_pos hx]
    split <;> rfl
  have hfold : ∀ v : Proposals, (l.foldl (fun (v : Proposals) d ↦
      v.add ((w d (.propose p)).reply (db cl) (.propose p) (N d))) v).numAcceptedProposals =
        v.numAcceptedProposals + l.length := by
    induction l with
    | nil => exact fun _ ↦ rfl
    | cons d l ih =>
      intro v
      rw [List.foldl_cons, ih (fun d hd ↦ hw d (by simp [hd])) fun d hd ↦ hok d (by simp [hd]),
        hadd, List.length_cons, Nat.add_assoc, Nat.add_comm 1]
      rw [hw d (by simp)]
      exact ok_of_willing (hok d (by simp))
  exact (hfold {}).trans (Nat.zero_add _)

/-- If no entry is accepted yet, then none is adopted. -/
theorem proposals_of_free {p : Request} (hw : ∀ d ∈ l, w d (.propose p) = .delivered)
    (hok : ∀ d ∈ l, Willing p (N d)) (hfree : ∀ d ∈ l, ¬ ((N d).log p.key).Accepted p.round) :
    proposals cl w p l N = { numAcceptedProposals := l.length } := by
  have hfold : ∀ n : ℕ, l.foldl (fun (v : Proposals) d ↦
      v.add ((w d (.propose p)).reply (db cl) (.propose p) (N d))) { numAcceptedProposals := n } =
        { numAcceptedProposals := n + l.length } := by
    induction l with
    | nil => exact fun _ ↦ rfl
    | cons d l ih =>
      intro n
      have hreply : (w d (.propose p)).reply (db cl) (.propose p) (N d) =
          ({}, { round := p.round, pserverId := p.pserverId }) := by
        rw [hw d (by simp)]
        change (propose false p (N d)).1 = _
        rw [propose_answer, if_neg (not_lt.2 (hok d (by simp))), if_neg (hfree d (by simp))]
      rw [List.foldl_cons, hreply, show Proposals.add { numAcceptedProposals := n }
        (({}, { round := p.round, pserverId := p.pserverId }) : Status × Response) =
          { numAcceptedProposals := n + 1 } from rfl,
        ih (fun d hd ↦ hw d (by simp [hd])) (fun d hd ↦ hok d (by simp [hd]))
          fun d hd ↦ hfree d (by simp [hd]), List.length_cons, Nat.add_assoc, Nat.add_comm 1]
  exact (hfold 0).trans (by rw [Nat.zero_add])

/-! ### Attempts all of whose requests are executed and answered -/

@[simp] theorem alive_prompt : alive Plan.prompt l = l := by simp [alive, Plan.prompt]

@[simp] theorem voters_prompt (q : Request) : voters Plan.prompt q l = l := by
  simp [voters, Plan.prompt]

/-- What an attempt does to a node that gets all its requests, where `q` is the one accepted. -/
def Replica.commit (s : Replica) (q : Request) : Replica where
  paxLog := s.paxLog.modify q.key q.round fun e ↦ e.accepted q
  kvStore := if Current q s ∧ q.key ≠ "leader" then s.kvStore.setKV q.key q.value else s.kvStore
  leader := if Current q s ∧ q.key = "leader" then q.value else s.leader

theorem success_accept_propose {p q : Request} (hkey : p.key = q.key) (hround : p.round = q.round)
    (hnonneg : 0 ≤ q.round) (s : Replica) :
    (act (.success (successRequest q.key (acceptResponse q)))
      (act (.accept q) (act (.propose p) s).2).2).2 = s.commit q := by
  have hstate : (act (.accept q) (act (.propose p) s).2).2 =
      { s with paxLog := s.paxLog.modify q.key q.round fun e ↦ e.accepted q } := by
    change (accept false q (propose false p s).2).2 = _
    rw [accept_state, propose_state]
    change ({ s with
      paxLog := (s.paxLog.modify p.key p.round id).modify q.key q.round _ } : Replica) = _
    rw [hkey, hround, PaxLog.modify_modify]
    rfl
  have hcur : Current (successRequest q.key (acceptResponse q))
      { s with paxLog := s.paxLog.modify q.key q.round fun e ↦ e.accepted q } ↔ Current q s := by
    change (∀ r ∈ ((s.paxLog.modify q.key q.round _).rounds q.key).keys, r ≤ q.round) ↔ _
    rw [PaxLog.keys_modify, if_pos rfl, Finset.forall_mem_insert]
    exact and_iff_right le_rfl
  rw [hstate]
  change (success false (successRequest q.key (acceptResponse q)) _).2 = _
  rw [success_state (successRequest q.key (acceptResponse q)) _
    ((by decide : intMin ≤ 0).trans hnonneg), Replica.commit]
  simp only [hcur]
  exact congrArg (fun l ↦ Replica.mk l _ _) (PaxLog.modify_modify _ _ _ _ _)

/-- **An attempt all of whose requests are executed and answered** returns OK. -/
theorem evals_attempt_prompt (r : Request) (hl : l.Nodup) (hne : l ≠ []) {p q : Request}
    (hp : prepareRequest r (Log.size ((N me).log r.key)) = p)
    (hq : acceptRequest r (Log.size ((N me).log r.key)) (proposals cl Plan.prompt p l N) = q)
    (hok : ∀ d ∈ l, Willing p (N d)) :
    Evals (db cl) Plan.prompt me (attemptConsensus l r) N { response := acceptResponse q }
      (fun d ↦ if d ∈ l then (N d).commit q else N d) := by
  have hcount : (proposals cl Plan.prompt p l N).numAcceptedProposals = l.length :=
    proposals_count (fun _ _ ↦ rfl) hok
  have h : Evals (db cl) Plan.prompt me _ N _ _ := evals_attempt r hl hne hp (q := q)
    (by rw [alive_prompt]) hq (by rw [alive_prompt]; exact not_noQuorum_self _)
    (by rw [hcount]; exact not_noQuorum_self _)
    (by rw [alive_prompt, voters_prompt]; exact not_noQuorum_self _)
  have hslot : q.key = r.key ∧ q.round = Log.size ((N me).log r.key) := by
    rw [← hq, acceptRequest]
    split <;> exact ⟨rfl, rfl⟩
  convert h using 1
  funext d
  by_cases hd : d ∈ l
  · simp only [sentAll, alive_prompt, if_pos hd]
    rw [← hslot.1]
    refine (success_accept_propose (p := p) ?_ ?_ ?_ (N d)).symm
    · rw [← hp, hslot.1]
      rfl
    · rw [← hp, hslot.2]
      rfl
    · rw [hslot.2]
      exact Int.natCast_nonneg _
  · simp only [sentAll, alive_prompt, if_neg hd]

end Stages

/-! ### Requests of clients -/

/-- The answer of a node that knows no leader. -/
def noLeader : Reply := { status := .aborted "No leader set" }

section Requests

variable {cl : Cluster} {w : Plan Db} {me L key value : String} {N N' : String → Replica}
  {rep : Reply}

theorem evals_set_noLeader (h : (N me).leader = "") :
    Evals (db cl) w me (body cl me (.set key value)) N noLeader N := by
  rw [body, set, Prog.here_bind]
  refine Evals.read rfl ?_
  rw [show ((db cl).act .readLeader (N me)).1 = "" from h, if_pos rfl]
  exact .ret

theorem evals_get_noLeader (h : (N me).leader = "") :
    Evals (db cl) w me (body cl me (.get key)) N noLeader N := by
  rw [body, get, Prog.here_bind]
  refine Evals.read rfl ?_
  rw [show ((db cl).act .readLeader (N me)).1 = "" from h, if_pos rfl]
  exact .ret

/-- A set at a node that regards itself as the leader is an attempt. -/
theorem evals_set_leader (h : (N me).leader = me) (hne : me ≠ "")
    (hatt : Evals (db cl) w me (attemptConsensus cl.memberList (setRequest key value)) N rep N') :
    Evals (db cl) w me (body cl me (.set key value)) N { status := rep.status } N' := by
  rw [body, set, Prog.here_bind]
  refine Evals.read rfl ?_
  rw [show ((db cl).act .readLeader (N me)).1 = me from h, if_neg hne, if_pos rfl]
  exact .invoke hatt .ret

/-- A get at a node that regards itself as the leader reads its store. -/
theorem evals_get_leader (h : (N me).leader = me) (hne : me ≠ "") :
    Evals (db cl) w me (body cl me (.get key)) N
      { getResponse := getAnswer ((N me).kvStore.getKV key) } N := by
  rw [body, get, Prog.here_bind]
  refine Evals.read rfl ?_
  rw [show ((db cl).act .readLeader (N me)).1 = me from h, if_neg hne, if_pos rfl, Prog.here_bind]
  refine Evals.read rfl ?_
  rw [show ((db cl).act (.getKV key) (N me)).1 = (N me).kvStore.getKV key from rfl, getAnswer]
  split <;> exact .ret

/-- A request that another node answers with OK is forwarded. -/
theorem evals_forward (h : (N me).leader = L) (hL : L ∈ cl.memberList) {task : Task}
    (answer : Reply → Reply) (hbody : Evals (db cl) w L (body cl L task) N rep N')
    (hok : rep.status.Ok) :
    Evals (db cl) w me (forward cl.memberList me task answer) N (answer rep) N' := by
  rw [forward, Prog.here_bind]
  refine Evals.read rfl ?_
  rw [show ((db cl).act .readLeader (N me)).1 = L from h, memberAt, if_pos hL, Prog.invoke_bind]
  refine Evals.invoke hbody ?_
  rw [if_pos hok]
  exact .ret

theorem evals_set_forward (h : (N me).leader = L) (hL : L ∈ cl.memberList) (hne : L ≠ me)
    (hbody : Evals (db cl) w L (body cl L (.set key value)) N rep N') (hok : rep.status.Ok) :
    Evals (db cl) w me (body cl me (.set key value)) N {} N' := by
  rw [body, set, Prog.here_bind]
  refine Evals.read rfl ?_
  rw [show ((db cl).act .readLeader (N me)).1 = L from h,
    if_neg (ne_of_mem_of_not_mem hL cl.nonempty), if_neg hne]
  exact evals_forward h hL (fun _ ↦ {}) hbody hok

theorem evals_get_forward (h : (N me).leader = L) (hL : L ∈ cl.memberList) (hne : L ≠ me)
    (hbody : Evals (db cl) w L (body cl L (.get key)) N rep N') (hok : rep.status.Ok) :
    Evals (db cl) w me (body cl me (.get key)) N { getResponse := rep.getResponse } N' := by
  rw [body, get, Prog.here_bind]
  refine Evals.read rfl ?_
  rw [show ((db cl).act .readLeader (N me)).1 = L from h,
    if_neg (ne_of_mem_of_not_mem hL cl.nonempty), if_neg hne]
  exact evals_forward h hL (fun rep ↦ { getResponse := rep.getResponse }) hbody hok

/-- An election whose attempt returns OK makes the value returned the leader of its node. -/
theorem evals_electLeader
    (hatt : Evals (db cl) w me (attemptConsensus cl.memberList (electRequest key value)) N rep N')
    (hok : rep.status.Ok) :
    Evals (db cl) w me (body cl me (.electLeader key value)) N { status := rep.status }
      (Function.update N' me { N' me with leader := rep.response.value }) := by
  rw [body, electLeader, Prog.run_bind]
  refine Evals.invoke hatt ?_
  rw [if_pos hok, Prog.here_bind]
  exact Evals.here .ret

end Requests

end ReplicatedDB
