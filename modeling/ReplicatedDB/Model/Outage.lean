import ReplicatedDB.Model.Evaluation
import ReplicatedDB.Rpc.Machine

/-!
# Evaluating procedures while nodes are down

How the procedures evaluate while only some nodes are up: an attempt needs a quorum of them
(`evals_attempt_refused`), a request that is forwarded to a node that is down makes its node run an
election and try once more (`evalsAmong_forward_retry`), and a node that starts copies the store of
the leader that the others name (`evalsAmong_coordinate_copy`).
-/

namespace ReplicatedDB

open Rpc

/-! ### Copies -/

namespace KVStore

theorem lookup_foldl_setKV_of_notMem {key : String} :
    ∀ {l : List (String × String)} (kv : KVStore), key ∉ l.map Prod.fst →
      (l.foldl (fun kv e ↦ kv.setKV e.1 e.2) kv).lookup key = kv.lookup key
  | [], _, _ => rfl
  | e :: l, kv, h => by
    rw [List.map_cons, List.mem_cons, not_or] at h
    rw [List.foldl_cons, lookup_foldl_setKV_of_notMem _ h.2, lookup_setKV_of_ne _ _ h.1]

theorem lookup_foldl_setKV_of_mem {key value : String} :
    ∀ {l : List (String × String)} (kv : KVStore), (l.map Prod.fst).Nodup → (key, value) ∈ l →
      (l.foldl (fun kv e ↦ kv.setKV e.1 e.2) kv).lookup key = some value
  | [], _, _, h => absurd h List.not_mem_nil
  | e :: l, kv, hnodup, h => by
    obtain ⟨hnotMem, hnodup⟩ := List.nodup_cons.1 hnodup
    rw [List.foldl_cons]
    rcases List.mem_cons.1 h with rfl | h
    · rw [lookup_foldl_setKV_of_notMem _ hnotMem, lookup_setKV_self]
    · exact lookup_foldl_setKV_of_mem _ hnodup h

/-- **A store that is copied** to an empty one, pair by pair, is the same store. -/
theorem foldl_entries (kv : KVStore) : kv.entries.foldl (fun kv e ↦ kv.setKV e.1 e.2) ∅ = kv := by
  refine Finmap.ext_lookup fun key ↦ ?_
  rcases h : kv.lookup key with _ | value
  · rw [lookup_foldl_setKV_of_notMem _ fun hmem ↦ ?_, Finmap.lookup_empty]
    obtain ⟨⟨key', value⟩, he, rfl⟩ := List.mem_map.1 hmem
    cases h.symm.trans (mem_entries.1 he)
  · exact lookup_foldl_setKV_of_mem _ kv.nodup_entries (mem_entries.2 h)

end KVStore

/-! ### Attempts -/

/-- An attempt calls no procedures. -/
theorem attemptConsensus_direct (members : List String) (r : Request) :
    (attemptConsensus members r).Direct := by
  have hping : (pingStage members).Direct := by
    refine .foldlM (fun _ _ ↦ ?_) members _
    exact fun _ ↦ trivial
  have hpropose : ∀ p l, (proposeStage p l).Direct := fun p l ↦ by
    refine .foldlM (fun _ _ ↦ ?_) l _
    exact fun _ ↦ trivial
  have haccept : ∀ q l, (acceptStage q l).Direct := fun q l ↦ by
    refine .foldlM (fun _ _ ↦ ?_) l _
    exact fun _ ↦ trivial
  have hsuccess : ∀ q l, (successStage q l).Direct := fun q l ↦ by
    refine .foldlM (fun _ _ ↦ ?_) l _
    exact fun _ ↦ trivial
  intro log
  refine hping.bind fun liveNodes ↦ .ite trivial ?_
  refine (hpropose _ _).bind fun v ↦ .ite trivial ?_
  refine (haccept _ _).bind fun a ↦ .ite trivial ?_
  exact (hsuccess _ _).bind fun _ ↦ trivial

section Attempts

variable {cl : Cluster} {up : Finset String} {me : String} {N : String → Replica}

/-- The nodes that answer a ping are those that are up. -/
theorem alive_among (l : List String) : alive (Plan.among up) l = l.filter (· ∈ up) := by
  refine List.filter_congr fun d _ ↦ ?_
  by_cases hd : d ∈ up
  · simp [Plan.among, hd]
  · simp [Plan.among, hd]

theorem voters_among (q : Request) {l : List String} (hl : ∀ d ∈ l, d ∈ up) :
    voters (Plan.among up) q l = l :=
  List.filter_eq_self.2 fun d hd ↦ decide_eq_true (among_of_mem (hl d hd) (Act.accept q))

/-- As many members are up as there are nodes up. -/
theorem length_filter_up {members : List String} (hnodup : members.Nodup)
    (hup : up ⊆ members.toFinset) : (members.filter (· ∈ up)).length = up.card := by
  have hset : (members.filter (· ∈ up)).toFinset = up := by
    ext d
    simp only [List.mem_toFinset, List.mem_filter, decide_eq_true_eq]
    exact ⟨fun h ↦ h.2, fun h ↦ ⟨List.mem_toFinset.1 (hup h), h⟩⟩
  rw [← List.toFinset_card_of_nodup (hnodup.filter _), hset]

/-- **An attempt without a quorum** of nodes that are up is given up, and changes nothing. -/
theorem evals_attempt_refused (hup : up ⊆ cl.memberList.toFinset)
    (hquorum : NoQuorum cl.memberList.length up.card) (r : Request) :
    Evals (db cl) (Plan.among up) me (attemptConsensus cl.memberList r) N defaultResponse N := by
  have h : Evals (db cl) (Plan.among up) me _ N _ _ := evals_attemptOutcome r cl.nodup cl.ne_nil
  simp only [attemptOutcome, alive_among, length_filter_up cl.nodup hup, if_pos hquorum] at h
  exact h

/-- The states after an attempt that all nodes `up` commit. -/
def committedAt (up : Finset String) (q : Request) (N : String → Replica) (d : String) : Replica :=
  if d ∈ up then (N d).commit q else N d

/-- **An attempt with a quorum** of nodes that are up commits what it has accepted at all of them,
if none of them refuses its proposal. -/
theorem evals_attempt_up (hup : up ⊆ cl.memberList.toFinset)
    (hquorum : ¬ NoQuorum cl.memberList.length up.card) (r : Request) {p q : Request}
    (hp : prepareRequest r (Log.size ((N me).log r.key)) = p)
    (hq : acceptRequest r (Log.size ((N me).log r.key))
      (proposals cl (Plan.among up) p (cl.memberList.filter (· ∈ up)) N) = q)
    (hok : ∀ d ∈ up, Willing p (N d)) :
    Evals (db cl) (Plan.among up) me (attemptConsensus cl.memberList r) N
      { response := acceptResponse q } (committedAt up q N) := by
  have hmem : ∀ d ∈ cl.memberList.filter (· ∈ up), d ∈ up := fun d hd ↦
    of_decide_eq_true (List.mem_filter.1 hd).2
  have halive : alive (Plan.among up) cl.memberList = cl.memberList.filter (· ∈ up) :=
    alive_among _
  have hcount : (proposals cl (Plan.among up) p (cl.memberList.filter (· ∈ up)) N
      ).numAcceptedProposals = (cl.memberList.filter (· ∈ up)).length :=
    proposals_count (fun d hd ↦ among_of_mem (S := Db) (hmem d hd) _) fun d hd ↦ hok d (hmem d hd)
  rw [← length_filter_up cl.nodup hup] at hquorum
  have hev : Evals (db cl) (Plan.among up) me _ N _ _ :=
    evals_attempt r cl.nodup cl.ne_nil hp rfl (q := q) (by rw [halive]; exact hq)
      (by rwa [halive]) (by rwa [halive, hcount]) (by rwa [halive, voters_among _ hmem])
  -- the accepted request is in the slot that was proposed
  have hslot : q.key = r.key ∧ q.round = Log.size ((N me).log r.key) := by
    rw [← hq, acceptRequest]
    split <;> exact ⟨rfl, rfl⟩
  convert hev using 1
  funext d
  rw [halive, committedAt]
  by_cases hd : d ∈ up
  · have hl : d ∈ cl.memberList := List.mem_toFinset.1 (hup hd)
    have hdl : d ∈ cl.memberList.filter (· ∈ up) := List.mem_filter.2 ⟨hl, decide_eq_true hd⟩
    have hgot : ∀ act : Act, Plan.among (S := Db) up d act = .delivered :=
      among_of_mem (S := Db) hd
    simp only [sentAll, if_pos hd, if_pos hdl, if_pos hl, hgot]
    rw [← hslot.1]
    refine (success_accept_propose (p := p) ?_ ?_ ?_ (N d)).symm
    · rw [← hp, hslot.1]
      rfl
    · rw [← hp, hslot.2]
      rfl
    · rw [hslot.2]
      exact Int.natCast_nonneg _
  · have hdl : d ∉ cl.memberList.filter (· ∈ up) := fun hdl ↦ hd (hmem d hdl)
    have hlost : ∀ act : Act, Plan.among (S := Db) up d act = .requestLost :=
      among_of_notMem (S := Db) hd
    simp only [sentAll, if_neg hd, if_neg hdl, hlost]
    exact (ite_self _).symm

/-- The answer to a proposal is OK, and if it carries an accepted value, then this one. -/
def Offers (op : Operation) (value : String) (x : Status × Response) : Prop :=
  x.1.Ok ∧ (0 < x.2.aserverId → x.2.aserverId = 1 ∧ x.2.op = op ∧ x.2.value = value)

section Offers

variable {op : Operation} {value : String} {xs : List (Status × Response)}

/-- A value that is adopted stays. -/
theorem foldl_add_adopted (h : ∀ x ∈ xs, Offers op value x) (n : ℕ) :
    xs.foldl Proposals.add ⟨n, 1, value, op⟩ = ⟨n + xs.length, 1, value, op⟩ := by
  induction xs generalizing n with
  | nil => rfl
  | cons x xs ih =>
    obtain ⟨hok, hval⟩ := h x (by simp)
    have hle : ¬ x.2.aserverId > 1 := fun hlt ↦ by
      have hone := (hval (by omega)).1
      omega
    have hadd : Proposals.add ⟨n, 1, value, op⟩ x = ⟨n + 1, 1, value, op⟩ := by
      rw [Proposals.add, if_pos hok, if_neg hle]
    rw [List.foldl_cons, hadd, ih fun x hx ↦ h x (by simp [hx]), List.length_cons, Nat.add_assoc,
      Nat.add_comm 1]

/-- A value that is offered is adopted. -/
theorem foldl_add_offered (h : ∀ x ∈ xs, Offers op value x) (hsome : ∃ x ∈ xs, 0 < x.2.aserverId)
    (n : ℕ) : xs.foldl Proposals.add { numAcceptedProposals := n } =
      ⟨n + xs.length, 1, value, op⟩ := by
  induction xs generalizing n with
  | nil => exact absurd hsome.choose_spec.1 List.not_mem_nil
  | cons x xs ih =>
    obtain ⟨hok, hval⟩ := h x (by simp)
    rw [List.foldl_cons, List.length_cons, ← Nat.add_assoc, Nat.add_right_comm, Proposals.add,
      if_pos hok]
    by_cases hpos : 0 < x.2.aserverId
    · obtain ⟨hid, hop, hvalue⟩ := hval hpos
      rw [if_pos hpos, hid, hop, hvalue]
      exact foldl_add_adopted (fun x hx ↦ h x (by simp [hx])) (n + 1)
    · rw [if_neg hpos]
      refine ih (fun x hx ↦ h x (by simp [hx])) ?_ (n + 1)
      obtain ⟨y, hy, hpos'⟩ := hsome
      exact ⟨y, (List.mem_cons.1 hy).resolve_left fun heq ↦ hpos (heq ▸ hpos'), hpos'⟩

end Offers

/-- **If somebody has accepted a value** in the slot of a proposal, and nobody another one, then it
is adopted. -/
theorem proposals_of_adopted {w : Plan Db} {p : Request} {op : Operation} {value : String}
    {l : List String} (hw : ∀ d ∈ l, w d (.propose p) = .delivered) (hok : ∀ d ∈ l, Willing p (N d))
    (hagree : ∀ d ∈ l, ((N d).log p.key).Accepted p.round →
      ∃ promise, ((N d).log p.key).entry p.round = ⟨promise, 1, op, value⟩)
    (hsome : ∃ d ∈ l, ((N d).log p.key).Accepted p.round) :
    proposals cl w p l N = ⟨l.length, 1, value, op⟩ := by
  have hreply : ∀ d ∈ l, (w d (.propose p)).reply (db cl) (.propose p) (N d) =
      if ((N d).log p.key).Accepted p.round then ({}, { aserverId := 1, op := op, value := value })
      else ({}, { round := p.round, pserverId := p.pserverId }) := by
    intro d hd
    rw [hw d hd]
    change (propose false p (N d)).1 = _
    rw [propose_answer, if_neg (not_lt.2 (hok d hd))]
    split
    · rename_i hacc
      obtain ⟨promise, hentry⟩ := hagree d hd hacc
      rw [hentry]
    · rfl
  have hoffers : ∀ x ∈ l.map fun d ↦ (w d (.propose p)).reply (db cl) (.propose p) (N d),
      Offers op value x := by
    refine List.forall_mem_map.2 fun d hd ↦ ?_
    rw [hreply d hd]
    split
    · exact ⟨Status.ok_default, fun _ ↦ ⟨rfl, rfl, rfl⟩⟩
    · exact ⟨Status.ok_default, fun hpos ↦ absurd hpos (lt_irrefl 0)⟩
  have hoffered : ∃ x ∈ l.map fun d ↦ (w d (.propose p)).reply (db cl) (.propose p) (N d),
      0 < x.2.aserverId := by
    obtain ⟨d, hd, hacc⟩ := hsome
    refine ⟨_, List.mem_map_of_mem hd, ?_⟩
    rw [hreply d hd, if_pos hacc]
    exact one_pos
  have hfold := foldl_add_offered hoffers hoffered 0
  rw [List.foldl_map, List.length_map, Nat.zero_add] at hfold
  exact hfold

end Attempts

/-! ### Requests of clients -/

/-- The answer of a node that finds no leader that answers its request, and is not elected. -/
def noSuitableLeader : Reply := { status := .aborted "Could not find a suitable leader." }

section Requests

variable {cl : Cluster} {up : Finset String} {me L : String} {N N' N₁ N₂ : String → Replica}
  {rep e : Reply} {key value : String}

theorem evalsAmong_set_noLeader (h : (N me).leader = "") :
    EvalsAmong (db cl) up me (body cl me (.set key value)) N noLeader N := by
  rw [body, set, Prog.here_bind]
  refine EvalsAmong.read rfl ?_
  rw [show ((db cl).act .readLeader (N me)).1 = "" from h, if_pos rfl]
  exact .ret

theorem evalsAmong_get_noLeader (h : (N me).leader = "") :
    EvalsAmong (db cl) up me (body cl me (.get key)) N noLeader N := by
  rw [body, get, Prog.here_bind]
  refine EvalsAmong.read rfl ?_
  rw [show ((db cl).act .readLeader (N me)).1 = "" from h, if_pos rfl]
  exact .ret

/-- A set at a node that regards itself as the leader is an attempt. -/
theorem evalsAmong_set_leader (h : (N me).leader = me) (hne : me ≠ "")
    (hatt : Evals (db cl) (Plan.among up) me
      (attemptConsensus cl.memberList (setRequest key value)) N rep N') :
    EvalsAmong (db cl) up me (body cl me (.set key value)) N { status := rep.status } N' := by
  rw [body, set, Prog.here_bind]
  refine EvalsAmong.read rfl ?_
  rw [show ((db cl).act .readLeader (N me)).1 = me from h, if_neg hne, if_pos rfl]
  exact .run (hatt.among (attemptConsensus_direct _ _)) .ret

/-- A get at a node that regards itself as the leader reads its store. -/
theorem evalsAmong_get_leader (h : (N me).leader = me) (hne : me ≠ "") :
    EvalsAmong (db cl) up me (body cl me (.get key)) N
      { getResponse := getAnswer ((N me).kvStore.getKV key) } N := by
  rw [body, get, Prog.here_bind]
  refine EvalsAmong.read rfl ?_
  rw [show ((db cl).act .readLeader (N me)).1 = me from h, if_neg hne, if_pos rfl, Prog.here_bind]
  refine EvalsAmong.read rfl ?_
  rw [show ((db cl).act (.getKV key) (N me)).1 = (N me).kvStore.getKV key from rfl, getAnswer]
  split <;> exact .ret

theorem evalsAmong_set_forward (h : (N me).leader = L) (hL : L ∈ cl.memberList) (hne : L ≠ me)
    (hforward : EvalsAmong (db cl) up me
      (forward cl.memberList me (.set key value) fun _ ↦ {}) N rep N') :
    EvalsAmong (db cl) up me (body cl me (.set key value)) N rep N' := by
  rw [body, set, Prog.here_bind]
  refine EvalsAmong.read rfl ?_
  rw [show ((db cl).act .readLeader (N me)).1 = L from h,
    if_neg (ne_of_mem_of_not_mem hL cl.nonempty), if_neg hne]
  exact hforward

theorem evalsAmong_get_forward (h : (N me).leader = L) (hL : L ∈ cl.memberList) (hne : L ≠ me)
    (hforward : EvalsAmong (db cl) up me
      (forward cl.memberList me (.get key) fun rep ↦ { getResponse := rep.getResponse }) N rep N') :
    EvalsAmong (db cl) up me (body cl me (.get key)) N rep N' := by
  rw [body, get, Prog.here_bind]
  refine EvalsAmong.read rfl ?_
  rw [show ((db cl).act .readLeader (N me)).1 = L from h,
    if_neg (ne_of_mem_of_not_mem hL cl.nonempty), if_neg hne]
  exact hforward

/-- An election that succeeds makes the value returned the leader of its node. -/
theorem evalsAmong_electLeader
    (hatt : Evals (db cl) (Plan.among up) me
      (attemptConsensus cl.memberList (electRequest key value)) N rep N')
    (hok : rep.status.Ok) :
    EvalsAmong (db cl) up me (body cl me (.electLeader key value)) N { status := rep.status }
      (Function.update N' me { N' me with leader := rep.response.value }) := by
  rw [body, electLeader, Prog.run_bind]
  refine EvalsAmong.run (hatt.among (attemptConsensus_direct _ _)) ?_
  rw [if_pos hok, Prog.here_bind]
  exact EvalsAmong.here .ret

/-- An election that fails changes nothing more. -/
theorem evalsAmong_electLeader_refused
    (hatt : Evals (db cl) (Plan.among up) me
      (attemptConsensus cl.memberList (electRequest key value)) N rep N')
    (hok : ¬ rep.status.Ok) :
    EvalsAmong (db cl) up me (body cl me (.electLeader key value)) N { status := rep.status }
      N' := by
  rw [body, electLeader, Prog.run_bind]
  refine EvalsAmong.run (hatt.among (attemptConsensus_direct _ _)) ?_
  rw [if_neg hok]
  exact .ret

/-- What the node `L` answers to a call of `t`: the result of `t`, if it is up. -/
def AnswersCall (cl : Cluster) (up : Finset String) (L : String) (t : Task)
    (N : String → Replica) (rep : Reply) (N' : String → Replica) : Prop :=
  (L ∈ up ∧ EvalsAmong (db cl) up L (body cl L t) N rep N') ∨
    (L ∉ up ∧ rep = { status := .unavailable } ∧ N' = N)

theorem AnswersCall.evals {t : Task} (h : AnswersCall cl up L t N rep N₁)
    {k : Reply → Program Reply} (hk : EvalsAmong (db cl) up me (k rep) N₁ e N') :
    EvalsAmong (db cl) up me (.call (.invoke (some L) t) k) N e N' := by
  rcases h with ⟨hL, hbody⟩ | ⟨hL, rfl, rfl⟩
  · exact .reached hL hbody hk
  · exact .unreached hL hk

variable {task : Task} {answer : Reply → Reply}

/-- A request that is answered with OK is forwarded once. -/
theorem evalsAmong_forward (h : (N me).leader = L) (hL : L ∈ cl.memberList)
    (hcall : AnswersCall cl up L task N rep N') (hok : rep.status.Ok) :
    EvalsAmong (db cl) up me (forward cl.memberList me task answer) N (answer rep) N' := by
  rw [forward, Prog.here_bind]
  refine EvalsAmong.read rfl ?_
  rw [show ((db cl).act .readLeader (N me)).1 = L from h, memberAt, if_pos hL, Prog.invoke_bind]
  refine hcall.evals ?_
  rw [if_pos hok]
  exact .ret

/-- A request that is not answered with OK makes its node run an election. If this fails, nothing
more is done. -/
theorem evalsAmong_forward_refused (h : (N me).leader = L) (hL : L ∈ cl.memberList)
    (hcall : AnswersCall cl up L task N rep N₁) (hok : ¬ rep.status.Ok)
    (helect : AnswersCall cl up me (.electLeader "leader" me) N₁ e N') (he : ¬ e.status.Ok) :
    EvalsAmong (db cl) up me (forward cl.memberList me task answer) N noSuitableLeader N' := by
  rw [forward, Prog.here_bind]
  refine EvalsAmong.read rfl ?_
  rw [show ((db cl).act .readLeader (N me)).1 = L from h, memberAt, if_pos hL, Prog.invoke_bind]
  refine hcall.evals ?_
  rw [if_neg hok, Prog.invoke_bind]
  refine helect.evals ?_
  rw [if_pos he]
  exact .ret

/-- ... and if it succeeds, the request is sent to the new leader. -/
theorem evalsAmong_forward_retry {L' : String} {rep' : Reply} (h : (N me).leader = L)
    (hL : L ∈ cl.memberList) (hcall : AnswersCall cl up L task N rep N₁) (hok : ¬ rep.status.Ok)
    (helect : AnswersCall cl up me (.electLeader "leader" me) N₁ e N₂) (he : e.status.Ok)
    (h' : (N₂ me).leader = L') (hL' : L' ∈ cl.memberList)
    (hcall' : AnswersCall cl up L' task N₂ rep' N') (hok' : rep'.status.Ok) :
    EvalsAmong (db cl) up me (forward cl.memberList me task answer) N (answer rep') N' := by
  rw [forward, Prog.here_bind]
  refine EvalsAmong.read rfl ?_
  rw [show ((db cl).act .readLeader (N me)).1 = L from h, memberAt, if_pos hL, Prog.invoke_bind]
  refine hcall.evals ?_
  rw [if_neg hok, Prog.invoke_bind]
  refine helect.evals ?_
  rw [if_neg (not_not_intro he), Prog.here_bind]
  refine EvalsAmong.read rfl ?_
  rw [show ((db cl).act .readLeader (N₂ me)).1 = L' from h', memberAt, if_pos hL', Prog.invoke_bind]
  refine hcall'.evals ?_
  rw [if_neg (not_not_intro hok')]
  exact .ret

end Requests

/-! ### Start-up -/

section Coordinate

variable {cl : Cluster} {up : Finset String} {me L : String} {N N' : String → Replica}
  {rep : Reply}

/-- One more answer to `get_leader`. -/
def addLeader (v : List String × List String) (key : String) (res : Status × String) :
    List String × List String :=
  if res.1.Ok then (if res.2 = "" then v.1 else v.1.insert res.2, v.2.insert key) else v

/-- What the answers of a list of nodes to `get_leader` add up to. -/
def askedLeaders (up : Finset String) (N : String → Replica) (l : List String)
    (v : List String × List String) : List String × List String :=
  l.foldl (fun v d ↦ if d ∈ up then addLeader v d ({}, (N d).leader) else v) v

theorem evalsAmong_askLeaders (hl : cl.memberList.Nodup) :
    EvalsAmong (db cl) up me (askLeaders cl.memberList) N
      (askedLeaders up N cl.memberList ([], [])) N := by
  have h : Evals (db cl) (Plan.among up) me (askLeaders cl.memberList) N _ _ :=
    Evals.broadcast (V := db cl) (a := Act.getLeader) addLeader hl ([], []) N
  have hvalue : ∀ v, cl.memberList.foldl (fun v d ↦ addLeader v d
      ((Plan.among (S := Db) up d .getLeader).reply (db cl) .getLeader (N d))) v =
        askedLeaders up N cl.memberList v := by
    intro v
    refine List.foldl_ext _ _ _ fun v d _ ↦ ?_
    by_cases hd : d ∈ up
    · rw [among_of_mem (S := Db) hd, if_pos hd]
      rfl
    · rw [among_of_notMem (S := Db) hd, if_neg hd]
      exact if_neg Status.not_ok_unavailable
  have hnodes : (fun d ↦ if d ∈ cl.memberList then
      (Plan.among (S := Db) up d .getLeader).effect (db cl) .getLeader (N d) else N d) = N := by
    funext d
    have heffect :
        (Plan.among (S := Db) up d .getLeader).effect (db cl) .getLeader (N d) = N d := by
      rw [Outcome.effect]
      split <;> rfl
    rw [heffect, ite_self]
  rw [hvalue, hnodes] at h
  refine h.among (.foldlM (fun _ _ ↦ ?_) _ _)
  exact fun _ ↦ trivial

/-- If nobody knows a leader, none is named. -/
theorem askedLeaders_of_noLeader : ∀ {l : List String} {v : List String × List String},
    (∀ d ∈ l, d ∈ up → (N d).leader = "") → (askedLeaders up N l v).1 = v.1
  | [], _, _ => rfl
  | d :: l, v, h => by
    rw [askedLeaders, List.foldl_cons]
    refine (askedLeaders_of_noLeader fun d' hd' ↦ h d' (List.mem_cons_of_mem _ hd')).trans ?_
    split
    · rename_i hd
      rw [addLeader, if_pos Status.ok_default, if_pos (h d (by simp) hd)]
    · rfl

/-- If all that know a leader know the same one, at most that one is named; it is named if somebody
knows it. -/
theorem askedLeaders_of_leader (hL : L ≠ "") : ∀ {l : List String} {v : List String × List String},
    (∀ d ∈ l, d ∈ up → (N d).leader = "" ∨ (N d).leader = L) →
      (v.1 = [] ∨ v.1 = [L]) →
      ((askedLeaders up N l v).1 = [] ∨ (askedLeaders up N l v).1 = [L]) ∧
        (v.1 = [L] ∨ (∃ d ∈ l, d ∈ up ∧ (N d).leader = L) → (askedLeaders up N l v).1 = [L])
  | [], v, _, hv => ⟨hv, fun h ↦ h.resolve_right fun ⟨_, hd, _⟩ ↦ absurd hd List.not_mem_nil⟩
  | d :: l, v, h, hv => by
    obtain ⟨v', hv'⟩ : ∃ v', v' = if d ∈ up then addLeader v d ({}, (N d).leader) else v := ⟨_, rfl⟩
    have hnext : askedLeaders up N (d :: l) v = askedLeaders up N l v' := by rw [hv']; rfl
    -- one more answer
    have hone : (v'.1 = [] ∨ v'.1 = [L]) ∧
        (v.1 = [L] ∨ (d ∈ up ∧ (N d).leader = L) → v'.1 = [L]) := by
      by_cases hd : d ∈ up
      · rw [if_pos hd, addLeader, if_pos Status.ok_default] at hv'
        rcases h d (by simp) hd with hnone | hsome
        · rw [if_pos hnone] at hv'
          rw [hv']
          exact ⟨hv, fun hor ↦ hor.resolve_right fun ⟨_, heq⟩ ↦ hL (heq ▸ hnone)⟩
        · rw [hsome, if_neg hL] at hv'
          have hinsert : v'.1 = [L] := by
            rw [hv']
            rcases hv with hv | hv <;> rw [hv]
            · rfl
            · exact List.insert_of_mem (List.mem_singleton_self L)
          exact ⟨.inr hinsert, fun _ ↦ hinsert⟩
      · rw [if_neg hd] at hv'
        rw [hv']
        exact ⟨hv, fun hor ↦ hor.resolve_right fun ⟨hmem, _⟩ ↦ hd hmem⟩
    obtain ⟨hle, hge⟩ :=
      askedLeaders_of_leader hL (fun d' hd' ↦ h d' (List.mem_cons_of_mem _ hd')) hone.1
    rw [hnext]
    refine ⟨hle, fun hor ↦ hge ?_⟩
    rcases hor with hv | ⟨d', hd', hup', hd'L⟩
    · exact .inl (hone.2 (.inl hv))
    · rcases List.mem_cons.1 hd' with rfl | hd'
      · exact .inl (hone.2 (.inr ⟨hup', hd'L⟩))
      · exact .inr ⟨d', hd', hup', hd'L⟩

/-- The nodes that are up are found. -/
theorem mem_askedLeaders {d : String} : ∀ {l : List String} {v : List String × List String},
    d ∈ (askedLeaders up N l v).2 ↔ d ∈ v.2 ∨ (d ∈ l ∧ d ∈ up)
  | [], v => by simp [askedLeaders]
  | d' :: l, v => by
    rw [askedLeaders, List.foldl_cons]
    refine mem_askedLeaders.trans ?_
    by_cases hd' : d' ∈ up
    · rw [if_pos hd', addLeader, if_pos Status.ok_default]
      simp only [List.mem_insert_iff, List.mem_cons]
      constructor
      · rintro ((rfl | hv) | ⟨hl, hup⟩)
        · exact .inr ⟨.inl rfl, hd'⟩
        · exact .inl hv
        · exact .inr ⟨.inr hl, hup⟩
      · rintro (hv | ⟨rfl | hl, hup⟩)
        · exact .inl (.inr hv)
        · exact .inl (.inl rfl)
        · exact .inr ⟨hl, hup⟩
    · rw [if_neg hd']
      simp only [List.mem_cons]
      refine or_congr_right ⟨fun ⟨hl, hup⟩ ↦ ⟨.inr hl, hup⟩, ?_⟩
      rintro ⟨rfl | hl, hup⟩
      · exact absurd hup hd'
      · exact ⟨hl, hup⟩

/-- A node that knows no leader does not recover. -/
theorem evalsAmong_recover_none (h : (N me).leader = "") :
    EvalsAmong (db cl) up me (recover cl.memberList me) N {} N := by
  rw [recover, Prog.here_bind]
  refine EvalsAmong.read rfl ?_
  rw [show ((db cl).act .readLeader (N me)).1 = "" from h, if_pos rfl]
  exact .ret

/-- Nor does the leader. -/
theorem evalsAmong_recover_leader (h : (N me).leader = me) :
    EvalsAmong (db cl) up me (recover cl.memberList me) N {} N := by
  rw [recover, Prog.here_bind]
  refine EvalsAmong.read rfl ?_
  split
  · exact .ret
  · rw [Prog.here_bind]
    refine EvalsAmong.read rfl ?_
    rw [show ((db cl).act .readLeader (N me)).1 = me from h, if_pos rfl]
    exact .ret

/-- The store of the own node after a copy. -/
theorem evalsAmong_copy : ∀ (l : List (String × String)) (N : String → Replica),
    EvalsAmong (db cl) up me (l.foldlM (fun _ e ↦ Local.setKV e.1 e.2) ()) N ()
      (Function.update N me
        { N me with kvStore := l.foldl (fun kv e ↦ kv.setKV e.1 e.2) (N me).kvStore })
  | [], N => by
    change EvalsAmong (db cl) up me (.ret ()) N () (Function.update N me (N me))
    rw [Function.update_eq_self]
    exact .ret
  | e :: l, N => by
    rw [List.foldlM_cons, Prog.here_bind]
    refine EvalsAmong.here ?_
    have h := evalsAmong_copy l (Function.update N me ((db cl).act (.setKV e.1 e.2) (N me)).2)
    rwa [Function.update_self, Function.update_idem] at h

/-- **All others copy the store of the leader**, if it is up. -/
theorem evalsAmong_recover (h : (N me).leader = L) (hL : L ∈ cl.memberList) (hne : L ≠ me)
    (hup : L ∈ up) (hempty : (N me).kvStore = ∅) :
    EvalsAmong (db cl) up me (recover cl.memberList me) N {}
      (Function.update N me { N me with kvStore := (N L).kvStore }) := by
  have hread : ((db cl).act .readLeader (N me)).1 = L := h
  rw [recover, Prog.here_bind]
  refine EvalsAmong.read rfl ?_
  rw [hread, if_neg (ne_of_mem_of_not_mem hL cl.nonempty), Prog.here_bind]
  refine EvalsAmong.read rfl ?_
  rw [hread, if_neg hne, Prog.here_bind]
  refine EvalsAmong.read rfl ?_
  rw [hread, memberAt, if_pos hL, Prog.send_bind]
  refine .act ?_
  rw [outcome_some, among_of_mem (S := Db) hup, reply_delivered, effect_delivered, Option.getD_some,
    show Function.update N L ((db cl).act .getDB (N L)).2 = N from Function.update_eq_self _ _]
  have hcopy : EvalsAmong (db cl) up me _ N () _ := evalsAmong_copy (N L).kvStore.entries N
  rw [hempty, KVStore.foldl_entries] at hcopy
  exact hcopy.bind .ret

/-- **A node that starts** while the others name a leader that is up takes it, and then recovers. -/
theorem evalsAmong_coordinate_named (hflag : (cl.flags me).leader = false) (hL : L ∈ cl.memberList)
    (hup : L ∈ up) (hnamed : ∀ d ∈ up, (N d).leader = "" ∨ (N d).leader = L)
    (hsome : ∃ d ∈ cl.memberList, d ∈ up ∧ (N d).leader = L)
    (hrecover : EvalsAmong (db cl) up me (recover cl.memberList me)
      (Function.update N me { N me with leader := L }) rep N') :
    EvalsAmong (db cl) up me (body cl me .coordinate) N rep N' := by
  have hnames : (askedLeaders up N cl.memberList ([], [])).1 = [L] :=
    (askedLeaders_of_leader (ne_of_mem_of_not_mem hL cl.nonempty) (fun d _ ↦ hnamed d) (.inl rfl)).2
      (.inr hsome)
  rw [body, coordinate, if_neg (by simp [hflag])]
  refine (evalsAmong_askLeaders cl.nodup).bind ?_
  obtain ⟨v, hv⟩ : ∃ v, askedLeaders up N cl.memberList ([], []) = v := ⟨_, rfl⟩
  have hlive : L ∈ v.2 := hv ▸ mem_askedLeaders.2 (.inr ⟨hL, hup⟩)
  rw [hv] at hnames ⊢
  obtain ⟨leaders, liveReplicas⟩ := v
  obtain rfl : leaders = [L] := hnames
  simp only [if_pos hlive]
  exact EvalsAmong.here hrecover

/-- It copies the store of the leader, -/
theorem evalsAmong_coordinate_copy (hflag : (cl.flags me).leader = false) (hL : L ∈ cl.memberList)
    (hne : L ≠ me) (hup : L ∈ up) (hempty : (N me).kvStore = ∅)
    (hnamed : ∀ d ∈ up, (N d).leader = "" ∨ (N d).leader = L)
    (hsome : ∃ d ∈ cl.memberList, d ∈ up ∧ (N d).leader = L) :
    EvalsAmong (db cl) up me (body cl me .coordinate) N {}
      (Function.update N me { N me with leader := L, kvStore := (N L).kvStore }) := by
  refine evalsAmong_coordinate_named hflag hL hup hnamed hsome ?_
  obtain ⟨N₁, hN₁⟩ : ∃ N₁, N₁ = Function.update N me { N me with leader := L } := ⟨_, rfl⟩
  have hme : N₁ me = { N me with leader := L } := by rw [hN₁, Function.update_self]
  have hleader : (N₁ me).leader = L := by rw [hme]
  have hstore : (N₁ me).kvStore = ∅ := by rw [hme]; exact hempty
  have hrecover : EvalsAmong (db cl) up me _ N₁ _ _ :=
    evalsAmong_recover hleader hL hne hup hstore
  rwa [hme, hN₁, Function.update_of_ne hne, Function.update_idem] at hrecover

/-- unless the others name itself. -/
theorem evalsAmong_coordinate_leader (hflag : (cl.flags me).leader = false)
    (hme : me ∈ cl.memberList) (hup : me ∈ up)
    (hnamed : ∀ d ∈ up, (N d).leader = "" ∨ (N d).leader = me)
    (hsome : ∃ d ∈ cl.memberList, d ∈ up ∧ (N d).leader = me) :
    EvalsAmong (db cl) up me (body cl me .coordinate) N {}
      (Function.update N me { N me with leader := me }) :=
  evalsAmong_coordinate_named hflag hme hup hnamed hsome
    (evalsAmong_recover_leader (by rw [Function.update_self]))

/-- A node that starts while nobody knows a leader runs an election, if it is to. -/
theorem evalsAmong_coordinate_elect (hflag : (cl.flags me).leader = false)
    (hnone : ∀ d ∈ up, (N d).leader = "")
    (helect : EvalsAmong (db cl) up me
      (coordinate.orElect cl.memberList me (cl.flags me).election) N rep N') :
    EvalsAmong (db cl) up me (body cl me .coordinate) N rep N' := by
  have hnames : (askedLeaders up N cl.memberList ([], [])).1 = [] :=
    askedLeaders_of_noLeader fun d _ ↦ hnone d
  rw [body, coordinate, if_neg (by simp [hflag])]
  refine (evalsAmong_askLeaders cl.nodup).bind ?_
  obtain ⟨v, hv⟩ : ∃ v, askedLeaders up N cl.memberList ([], []) = v := ⟨_, rfl⟩
  rw [hv] at hnames ⊢
  obtain ⟨leaders, liveReplicas⟩ := v
  obtain rfl : leaders = [] := hnames
  exact helect

end Coordinate

end ReplicatedDB
