import ReplicatedDB.Protocol.Agreement
import ReplicatedDB.Rpc.Traffic

/-!
# Attempts under contention

Attempts for the same slot may run against each other at any number of nodes. Nevertheless none
can hold up another one: an attempt only waits for the answers to its own requests, of which there
are at most four for each member, and nobody refuses them, since nothing is ever promised.

`Course` says what the calls of an attempt and its result are, given the answers. It follows that
an attempt returns after a bounded number of its own steps, and returns OK exactly when at least
half of the members have answered OK in each of the three voting phases (`available`), whatever else
goes on. Only calls that fail are not answered OK (`supporters_eq_responders`).
-/

namespace ReplicatedDB

open Rpc Rpc.Net

/-! ### The course of an attempt -/

/-- The nodes that answer the ping. -/
def live (xs : List (String × Status)) : List String :=
  (xs.filter fun x ↦ decide x.2.Ok).map Prod.fst

/-- The answers that are OK. -/
def yes (xs : List (String × (Status × Response))) : List (String × (Status × Response)) :=
  xs.filter fun x ↦ decide x.2.1.Ok

/-- What the proposal stage makes of the answers. -/
def votes (ys : List (String × (Status × Response))) : Proposals :=
  ys.foldl (fun v y ↦ v.add y.2) {}

/-- What the accept stage makes of the answers. -/
def acceptances (zs : List (String × (Status × Response))) : ℕ × Response :=
  zs.foldl (fun v z ↦ if z.2.1.Ok then (v.1 + 1, z.2.2) else v) (0, {})

/-- The history of an attempt that has pinged the members. -/
def pinged (key : String) (log : Log) (xs : List (String × Status)) : History :=
  ⟨.act none (Act.getLog key), log⟩ :: exchange (S := Db) Act.ping xs

/-- The history of an attempt that has proposed. -/
def proposed (r : Request) (log : Log) (xs : List (String × Status))
    (ys : List (String × (Status × Response))) : History :=
  pinged r.key log xs ++ exchange (S := Db) (Act.propose (prepareRequest r (Log.size log))) ys

/-- The history of an attempt that has asked for acceptance. -/
def askedAll (r : Request) (log : Log) (xs : List (String × Status))
    (ys zs : List (String × (Status × Response))) : History :=
  proposed r log xs ys ++
    exchange (S := Db) (Act.accept (acceptRequest r (Log.size log) (votes ys))) zs

/-- **The courses of an attempt**: it stops after the phase that misses its quorum, or it informs
all members. -/
inductive Course (members : List String) (r : Request) : History → Reply → Prop
  | unreached {log : Log} {xs : List (String × Status)} (hxs : xs.map Prod.fst = members)
      (hno : NoQuorum members.length (live xs).length) :
      Course members r (pinged r.key log xs) defaultResponse
  | unanswered {log : Log} {xs : List (String × Status)} {ys : List (String × (Status × Response))}
      (hxs : xs.map Prod.fst = members) (hlive : ¬ NoQuorum members.length (live xs).length)
      (hys : ys.map Prod.fst = live xs) (hno : NoQuorum members.length (yes ys).length) :
      Course members r (proposed r log xs ys) defaultResponse
  | unaccepted {log : Log} {xs : List (String × Status)}
      {ys zs : List (String × (Status × Response))} (hxs : xs.map Prod.fst = members)
      (hlive : ¬ NoQuorum members.length (live xs).length) (hys : ys.map Prod.fst = live xs)
      (hyes : ¬ NoQuorum members.length (yes ys).length) (hzs : zs.map Prod.fst = live xs)
      (hno : NoQuorum members.length (yes zs).length) :
      Course members r (askedAll r log xs ys zs) defaultResponse
  | committed {log : Log} {xs : List (String × Status)}
      {ys zs : List (String × (Status × Response))} {ws : List (String × Status)}
      (hxs : xs.map Prod.fst = members) (hlive : ¬ NoQuorum members.length (live xs).length)
      (hys : ys.map Prod.fst = live xs) (hyes : ¬ NoQuorum members.length (yes ys).length)
      (hzs : zs.map Prod.fst = live xs) (hzyes : ¬ NoQuorum members.length (yes zs).length)
      (hws : ws.map Prod.fst = members) :
      Course members r (askedAll r log xs ys zs ++
          exchange (S := Db) (Act.success (successRequest r.key (acceptances zs).2)) ws)
        { response := (acceptances zs).2 }

section Folds

theorem live_eq : ∀ (xs : List (String × Status)) (nodes : List String),
    xs.foldl (fun nodes x ↦ if x.2.Ok then nodes ++ [x.1] else nodes) nodes = nodes ++ live xs
  | [], nodes => (List.append_nil nodes).symm
  | x :: xs, nodes => by
    rw [List.foldl_cons, live_eq xs, live]
    by_cases hok : x.2.Ok
    · simp [live, hok]
    · simp [live, hok]

theorem length_yes_append_one (ys : List (String × (Status × Response)))
    (y : String × (Status × Response)) :
    (yes (ys ++ [y])).length = (yes ys).length + if y.2.1.Ok then 1 else 0 := by
  rw [yes, List.filter_append, List.length_append, yes]
  by_cases hok : y.2.1.Ok
  · simp [hok]
  · simp [hok]

theorem Proposals.add_numAcceptedProposals (v : Proposals) (x : Status × Response) :
    (v.add x).numAcceptedProposals = v.numAcceptedProposals + if x.1.Ok then 1 else 0 := by
  rw [Proposals.add]
  by_cases hok : x.1.Ok
  · rw [if_pos hok, if_pos hok]
    split <;> rfl
  · rw [if_neg hok, if_neg hok]
    rfl

theorem numAcceptedProposals_votes (ys : List (String × (Status × Response))) :
    (votes ys).numAcceptedProposals = (yes ys).length := by
  induction ys using List.reverseRecOn with
  | nil => rfl
  | append_singleton ys y ih =>
    rw [votes, List.foldl_append, length_yes_append_one, ← ih]
    exact (votes ys).add_numAcceptedProposals y.2

theorem acceptances_fst (zs : List (String × (Status × Response))) :
    (acceptances zs).1 = (yes zs).length := by
  induction zs using List.reverseRecOn with
  | nil => rfl
  | append_singleton zs z ih =>
    rw [acceptances, List.foldl_append, length_yes_append_one, ← ih]
    show (if z.2.1.Ok then ((acceptances zs).1 + 1, z.2.2) else acceptances zs).1 = _
    split <;> rfl

end Folds

section Lengths

variable {members : List String} {r : Request} {log : Log} {xs : List (String × Status)}
  {ys zs : List (String × (Status × Response))}

theorem length_live_le (xs : List (String × Status)) : (live xs).length ≤ xs.length := by
  rw [live, List.length_map]
  exact List.length_filter_le _ _

@[simp] theorem length_pinged : (pinged r.key log xs).length = xs.length + 1 := by simp [pinged]

@[simp] theorem length_proposed : (proposed r log xs ys).length = xs.length + 1 + ys.length := by
  simp [proposed]

@[simp] theorem length_askedAll :
    (askedAll r log xs ys zs).length = xs.length + 1 + ys.length + zs.length := by
  simp [askedAll]

end Lengths

section Stages

variable {bound : ℕ} {h : History} {nodes : List String}

theorem pingStage_course {returns : History → List String → Prop}
    (hlen : h.length + nodes.length ≤ bound + 1)
    (hret : ∀ xs, xs.map Prod.fst = nodes →
      returns (h ++ exchange (S := Db) Act.ping xs) (live xs)) :
    Sat (fun _ _ ↦ True) (fun h _ ↦ h.length ≤ bound) returns (pingStage nodes) h := by
  refine Sat.broadcast_of_length (S := Db) Act.ping
    (fun nodes d (res : Status) ↦ if res.Ok then nodes ++ [d] else nodes) hlen fun xs hxs ↦ ?_
  rw [live_eq xs [], List.nil_append]
  exact hret xs hxs

theorem proposeStage_course {returns : History → Proposals → Prop} {p : Request}
    (hlen : h.length + nodes.length ≤ bound + 1)
    (hret : ∀ ys, ys.map Prod.fst = nodes →
      returns (h ++ exchange (S := Db) (Act.propose p) ys) (votes ys)) :
    Sat (fun _ _ ↦ True) (fun h _ ↦ h.length ≤ bound) returns (proposeStage p nodes) h :=
  Sat.broadcast_of_length (S := Db) (Act.propose p)
    (fun (v : Proposals) _ (x : Status × Response) ↦ v.add x) hlen hret

theorem acceptStage_course {returns : History → ℕ × Response → Prop} {q : Request}
    (hlen : h.length + nodes.length ≤ bound + 1)
    (hret : ∀ zs, zs.map Prod.fst = nodes →
      returns (h ++ exchange (S := Db) (Act.accept q) zs) (acceptances zs)) :
    Sat (fun _ _ ↦ True) (fun h _ ↦ h.length ≤ bound) returns (acceptStage q nodes) h :=
  Sat.broadcast_of_length (S := Db) (Act.accept q)
    (fun v _ (x : Status × Response) ↦ if x.1.Ok then (v.1 + 1, x.2) else v) hlen hret

theorem successStage_course {returns : History → Unit → Prop} {q : Request}
    (hlen : h.length + nodes.length ≤ bound + 1)
    (hret : ∀ ws, ws.map Prod.fst = nodes →
      returns (h ++ exchange (S := Db) (Act.success q) ws) ()) :
    Sat (fun _ _ ↦ True) (fun h _ ↦ h.length ≤ bound) returns (successStage q nodes) h :=
  Sat.broadcast_of_length (S := Db) (Act.success q) (fun _ _ (_ : Status) ↦ ()) hlen hret

end Stages

/-- **`AttemptConsensus` takes one of these courses**, with at most four requests for a member. -/
theorem attemptConsensus_course (members : List String) (r : Request) :
    Sat (fun _ _ ↦ True) (fun h _ ↦ h.length ≤ 4 * members.length) (Course members r)
      (attemptConsensus members r) [] := by
  rw [attemptConsensus, Prog.here_bind]
  refine ⟨Nat.zero_le _, fun log _ ↦ Sat.bind (pingStage_course ?_ fun xs hxs ↦ ?_)⟩
  · show 1 + members.length ≤ _
    omega
  have hlenx : xs.length = members.length := by rw [← hxs, List.length_map]
  have hlenl := length_live_le xs
  refine Sat.ite (fun hno ↦ .unreached hxs hno) fun hlive ↦
    Sat.bind (proposeStage_course ?_ fun ys hys ↦ ?_)
  · show (pinged r.key log xs).length + _ ≤ _
    rw [length_pinged]
    omega
  have hleny : ys.length = (live xs).length := by rw [← hys, List.length_map]
  rw [numAcceptedProposals_votes]
  refine Sat.ite (fun hno ↦ .unanswered hxs hlive hys hno) fun hyes ↦
    Sat.bind (acceptStage_course ?_ fun zs hzs ↦ ?_)
  · show (proposed r log xs ys).length + _ ≤ _
    rw [length_proposed]
    omega
  have hlenz : zs.length = (live xs).length := by rw [← hzs, List.length_map]
  rw [acceptances_fst]
  refine Sat.ite (fun hno ↦ .unaccepted hxs hlive hys hyes hzs hno) fun hzyes ↦
    Sat.bind (successStage_course ?_ fun ws hws ↦ ?_)
  · show (askedAll r log xs ys zs).length + _ ≤ _
    rw [length_askedAll]
    omega
  exact .committed hxs hlive hys hyes hzs hzyes hws

/-- The contract that says which course attempts take. -/
def courseContract (cl : Cluster) : Rpc.Contract (db cl) where
  rely _ _ := True
  emits _
    | .attemptConsensus _ => fun h _ ↦ h.length ≤ 4 * cl.memberList.length
    | _ => fun _ _ ↦ True
  returns _
    | .attemptConsensus r => Course cl.memberList r
    | _ => fun _ _ ↦ True
  rely_act _ _ _ := trivial
  rely_lost _ _ := trivial
  rely_invoke _ _ _ := trivial
  body_sat me t := by
    cases t with
    | attemptConsensus r => exact attemptConsensus_course cl.memberList r
    | _ => exact Sat.of_forall (fun _ _ ↦ trivial) (fun _ _ ↦ trivial) _ _

/-! ### Who has answered -/

/-- The voting phases of an attempt. -/
inductive Ballot where
  | ping
  | propose
  | accept
deriving DecidableEq

/-- The node whose answer in the phase has reached its attempt: the call did not fail. -/
def Ballot.voice? : Ballot → Event Db → Option String
  | .ping, ⟨.act (some d) .ping, st⟩ => if st = lost .ping then none else some d
  | .propose, ⟨.act (some d) (.propose q), x⟩ => if x = lost (.propose q) then none else some d
  | .accept, ⟨.act (some d) (.accept q), x⟩ => if x = lost (.accept q) then none else some d
  | _, _ => none

/-- The node whose answer in the phase is OK. -/
def Ballot.vote? : Ballot → Event Db → Option String
  | .ping, ⟨.act (some d) .ping, (st : Status)⟩ => if st.Ok then some d else none
  | .propose, ⟨.act (some d) (.propose _), (x : Status × Response)⟩ =>
    if x.1.Ok then some d else none
  | .accept, ⟨.act (some d) (.accept _), (x : Status × Response)⟩ =>
    if x.1.Ok then some d else none
  | _, _ => none

/-- The nodes that have answered an attempt in a phase, -/
def responders (ph : Ballot) (h : History) : Finset String := (h.filterMap ph.voice?).toFinset

/-- and those that have answered OK. -/
def supporters (ph : Ballot) (h : History) : Finset String := (h.filterMap ph.vote?).toFinset

/-- The answer is OK or the call has failed. -/
def OkOrLost : (c : Call Db) → c.Ret → Prop
  | .act (some _) .ping, (st : Status) => st.Ok ∨ st = .unavailable
  | .act (some _) (.propose _), (x : Status × Response) => x.1.Ok ∨ x = (.unavailable, {})
  | .act (some _) (.accept _), (x : Status × Response) => x.1.Ok ∨ x = (.unavailable, {})
  | _, _ => True

/-- A call that has failed is one that has got no answer. -/
theorem ite_ok_eq {A : Type} {ok : Prop} [Decidable ok] [DecidableEq A] {x y : A}
    (h : ok ∨ x = y) (hy : x = y → ¬ ok) (d : String) :
    (if ok then some d else none) = if x = y then none else some d := by
  by_cases hok : ok
  · rw [if_pos hok, if_neg fun heq ↦ hy heq hok]
  · rw [if_neg hok, if_pos (h.resolve_left hok)]

theorem vote?_eq_voice? {e : Event Db} (h : OkOrLost e.1 e.2) (ph : Ballot) :
    ph.vote? e = ph.voice? e := by
  have hvote : ∀ {x : Status × Response}, x = (.unavailable, {}) → ¬ x.1.Ok := by
    rintro x rfl
    exact Status.not_ok_unavailable
  obtain ⟨⟨_ | d, a⟩ | _, x⟩ := e
  · cases ph <;> rfl
  · cases a with
    | ping =>
      cases ph with
      | ping => exact ite_ok_eq h (fun heq ↦ heq ▸ Status.not_ok_unavailable) d
      | _ => rfl
    | propose q =>
      cases ph with
      | propose => exact ite_ok_eq h hvote d
      | _ => rfl
    | accept q =>
      cases ph with
      | accept => exact ite_ok_eq h hvote d
      | _ => rfl
    | _ => cases ph <;> rfl
  · cases ph <;> rfl

section Votes

variable {members : List String} {r : Request} {key : String} {log : Log}
  {xs : List (String × Status)} {ys zs : List (String × (Status × Response))} {ph : Ballot}

/-- Who has answered a broadcast with OK. -/
theorem votes_exchange {a : Act} (ok : String × a.Ret → Prop) [DecidablePred ok]
    (h : ∀ x, ph.vote? ⟨.act (some x.1) a, x.2⟩ = if ok x then some x.1 else none)
    (xs : List (String × a.Ret)) :
    (exchange (S := Db) a xs).filterMap ph.vote? =
      (xs.filter fun x ↦ decide (ok x)).map Prod.fst := by
  induction xs with
  | nil => rfl
  | cons x xs ih =>
    have hx := h x
    rw [show exchange (S := Db) a (x :: xs) = ⟨.act (some x.1) a, x.2⟩ :: exchange a xs from rfl]
    by_cases hok : ok x
    · rw [if_pos hok] at hx
      rw [List.filterMap_cons_some hx, ih, List.filter_cons_of_pos (by simpa using hok),
        List.map_cons]
    · rw [if_neg hok] at hx
      rw [List.filterMap_cons_none hx, ih, List.filter_cons_of_neg (by simpa using hok)]

/-- Nobody has answered in another phase. -/
theorem votes_exchange_of_ne {a : Act} {xs : List (String × a.Ret)}
    (h : ∀ d x, ph.vote? ⟨.act (some d) a, x⟩ = none) :
    (exchange (S := Db) a xs).filterMap ph.vote? = [] := by
  rw [votes_exchange (fun _ ↦ False) fun x ↦ h x.1 x.2]
  simp

/-- The answers of a broadcast are in the history. -/
theorem mem_exchange {a : Act} {xs : List (String × a.Ret)} {x : String × a.Ret} (hx : x ∈ xs) :
    (⟨.act (some x.1) a, x.2⟩ : Event Db) ∈ exchange (S := Db) a xs := List.mem_map_of_mem hx

theorem votes_pinged (ph : Ballot) :
    (pinged key log xs).filterMap ph.vote? = if ph = .ping then live xs else [] := by
  have hfirst : ph.vote? ⟨.act none (Act.getLog key), log⟩ = none := by cases ph <;> rfl
  rw [pinged, List.filterMap_cons_none hfirst]
  match ph with
  | .ping => exact votes_exchange (a := Act.ping) (fun x ↦ x.2.Ok) (fun _ ↦ rfl) xs
  | .propose | .accept => exact votes_exchange_of_ne fun _ _ ↦ rfl

theorem votes_proposed (ph : Ballot) :
    (proposed r log xs ys).filterMap ph.vote? = match ph with
      | .ping => live xs
      | .propose => (yes ys).map Prod.fst
      | .accept => [] := by
  rw [proposed, List.filterMap_append, votes_pinged]
  match ph with
  | .ping =>
    rw [votes_exchange_of_ne fun _ _ ↦ rfl, List.append_nil]
    rfl
  | .propose => exact votes_exchange (a := Act.propose _) (fun y ↦ y.2.1.Ok) (fun _ ↦ rfl) ys
  | .accept => exact votes_exchange_of_ne fun _ _ ↦ rfl

theorem votes_askedAll (ph : Ballot) :
    (askedAll r log xs ys zs).filterMap ph.vote? = match ph with
      | .ping => live xs
      | .propose => (yes ys).map Prod.fst
      | .accept => (yes zs).map Prod.fst := by
  rw [askedAll, List.filterMap_append, votes_proposed]
  match ph with
  | .ping | .propose => rw [votes_exchange_of_ne fun _ _ ↦ rfl, List.append_nil]
  | .accept => exact votes_exchange (a := Act.accept _) (fun z ↦ z.2.1.Ok) (fun _ ↦ rfl) zs

/-- Some of the members, each once, are a quorum if there are enough of them. -/
theorem isQuorum_toFinset {l : List String} (hl : l.Sublist members) (hnodup : members.Nodup) :
    IsQuorum members l.toFinset ↔ ¬ NoQuorum members.length l.length := by
  rw [not_noQuorum_iff, IsQuorum, List.toFinset_card_of_nodup (hnodup.sublist hl)]
  exact and_iff_right fun d hd ↦ List.mem_toFinset.2 (hl.subset (List.mem_toFinset.1 hd))

theorem live_sublist (hxs : xs.map Prod.fst = members) : (live xs).Sublist members :=
  hxs ▸ List.filter_sublist.map Prod.fst

theorem yes_sublist {nodes : List String} (hys : ys.map Prod.fst = nodes) :
    ((yes ys).map Prod.fst).Sublist nodes := hys ▸ List.filter_sublist.map Prod.fst

end Votes

/-- **The result of an attempt depends on who has answered OK.** -/
theorem Course.ok_iff {members : List String} {r : Request} {h : History} {rep : Reply}
    (hc : Course members r h rep) (hnodup : members.Nodup) :
    rep.status.Ok ↔ ∀ ph, IsQuorum members (supporters ph h) := by
  -- a phase that misses its quorum
  have hmissed : ∀ (ph : Ballot) {l : List String}, h.filterMap ph.vote? = l → l.Sublist members →
      NoQuorum members.length l.length → ¬ ∀ ph, IsQuorum members (supporters ph h) := by
    rintro ph l rfl hl hno hall
    exact (isQuorum_toFinset hl hnodup).1 (hall ph) hno
  cases hc with
  | unreached hxs hno =>
    exact iff_of_false (Status.not_ok_aborted _)
      (hmissed .ping (votes_pinged .ping) (live_sublist hxs) hno)
  | unanswered hxs _ hys hno =>
    rw [← List.length_map (f := Prod.fst)] at hno
    exact iff_of_false (Status.not_ok_aborted _) (hmissed .propose (votes_proposed .propose)
      ((yes_sublist hys).trans (live_sublist hxs)) hno)
  | unaccepted hxs _ _ _ hzs hno =>
    rw [← List.length_map (f := Prod.fst)] at hno
    exact iff_of_false (Status.not_ok_aborted _) (hmissed .accept (votes_askedAll .accept)
      ((yes_sublist hzs).trans (live_sublist hxs)) hno)
  | @committed log xs ys zs ws hxs hlive hys hyes hzs hzyes _ =>
    refine iff_of_true Status.ok_default fun ph ↦ ?_
    rw [supporters, List.filterMap_append, votes_askedAll]
    rw [← List.length_map (f := Prod.fst)] at hyes hzyes
    match ph with
    | .ping =>
      rw [votes_exchange_of_ne fun _ _ ↦ rfl, List.append_nil]
      exact (isQuorum_toFinset (live_sublist hxs) hnodup).2 hlive
    | .propose =>
      rw [votes_exchange_of_ne fun _ _ ↦ rfl, List.append_nil]
      exact (isQuorum_toFinset ((yes_sublist hys).trans (live_sublist hxs)) hnodup).2 hyes
    | .accept =>
      rw [votes_exchange_of_ne fun _ _ ↦ rfl, List.append_nil]
      exact (isQuorum_toFinset ((yes_sublist hzs).trans (live_sublist hxs)) hnodup).2 hzyes

/-! ### Runs -/

section Runs

variable {cl : Cluster} {C : Net (db cl) → Label Db → Prop} {nodes : String → Replica}
  {s : Net (db cl)} {j : ℕ} {p : Activation Db} {r : Request}

/-- **Nobody refuses**: a vote that is not OK is one that did not arrive. -/
theorem okOrLost (hlog : ∀ d, (nodes d).paxLog = ∅) (h : Reach C (cl.start nodes) s) :
    ∀ (j : ℕ) (p : Activation Db), s.acts[j]? = some p → ∀ e ∈ p.hist, OkOrLost e.1 e.2 := by
  refine h.answered rfl (P := fun _ _ e ↦ OkOrLost e.1 e.2)
    (fun _ _ _ _ _ _ _ _ _ _ _ _ hok ↦ hok) ?_
  intro s l s' hr _ hl hs j p c k x hp _ hc hans
  rcases c with ⟨_ | d, a⟩ | ⟨dest, t⟩
  · trivial
  case invoke => trivial
  rcases hans.lost_or_executed hp hc with ⟨-, rfl⟩ | ⟨-, -, rfl⟩
  · cases a <;> first | exact .inr rfl | trivial
  cases a with
  | ping => exact .inl Status.ok_default
  | accept q => exact .inl Status.ok_default
  | propose q =>
    have hsound := sound_of_requested rfl rfl hr (.inl ⟨j, p, some d, k, hp, hc, rfl⟩)
    have hpromise : ¬ (((s.nodes d).log q.key).entry q.round).pServerId > q.pserverId := by
      rw [pServerId_eq_zero hlog hr, hsound.1]
      decide
    left
    show Status.Ok (propose false q (s.nodes d)).1.1
    rw [propose_answer, if_neg hpromise]
    split <;> exact Status.ok_default
  | _ => trivial

/-- An attempt makes at most four calls for a member, and one for the round. -/
theorem length_hist_le (h : Reach C (cl.start nodes) s) (hp : s.acts[j]? = some p)
    (ht : p.task = .attemptConsensus r) : p.hist.length ≤ 4 * cl.memberList.length + 1 := by
  rcases List.eq_nil_or_concat p.hist with hnil | ⟨h₁, ⟨c, x⟩, heq⟩
  · rw [hnil]
    exact Nat.zero_le _
  · rw [List.concat_eq_append] at heq
    have hlen := (((courseContract cl).lawful rfl h j p hp).past h₁ c x [] heq).1
    simp only [courseContract, ht] at hlen
    rw [heq, List.length_append]
    exact Nat.succ_le_succ hlen

/-- An attempt never has to wait. -/
theorem exists_step (h : Reach C (cl.start nodes) s) (hp : s.acts[j]? = some p)
    (ht : p.task = .attemptConsensus r) (halive : p.alive = true) :
    (∃ rep, p.Returned rep) ∨ ∃ s', s.step (.step j .delivered) = some s' := by
  rcases hprog : p.prog with rep | ⟨⟨dest, a⟩ | ⟨dest, t⟩, k⟩
  · exact .inl ⟨rep, hprog⟩
  · right
    simp only [Net.step, hp, Option.bind_some, if_pos halive, hprog, advance, or_true, if_true,
      Option.map_some]
    exact ⟨_, rfl⟩
  · have hemit := ((contract cl).lawful rfl h j p hp).emits hprog
    rw [ht] at hemit
    cases dest <;> exact absurd hemit id

/-- Who has answered has answered OK. -/
theorem supporters_eq_responders (hlog : ∀ d, (nodes d).paxLog = ∅)
    (h : Reach C (cl.start nodes) s) (hp : s.acts[j]? = some p) (ph : Ballot) :
    supporters ph p.hist = responders ph p.hist := by
  rw [supporters, responders, List.filterMap_congr fun e he ↦
    vote?_eq_voice? (okOrLost hlog h j p hp e he) ph]

/-- **Attempts are wait-free, and only lost messages stop them**: in every run, whatever else goes
on, an attempt returns after at most `4 * n + 1` steps of its own, none of which is ever blocked,
and its result is OK exactly when at least half of the members have answered OK in each phase. And
everybody whose answer has arrived has answered OK. -/
theorem available (hlog : ∀ d, (nodes d).paxLog = ∅) (h : Reach C (cl.start nodes) s)
    (hp : s.acts[j]? = some p) (ht : p.task = .attemptConsensus r) :
    p.hist.length ≤ 4 * cl.memberList.length + 1 ∧
    (p.alive = true →
      (∃ rep, p.Returned rep) ∨ ∃ s', s.step (.step j .delivered) = some s') ∧
    (∀ rep, p.Returned rep →
      (rep.status.Ok ↔ ∀ ph, IsQuorum cl.memberList (supporters ph p.hist))) ∧
    ∀ ph, supporters ph p.hist = responders ph p.hist := by
  refine ⟨length_hist_le h hp ht, exists_step h hp ht, fun rep hret ↦ ?_,
    supporters_eq_responders hlog h hp⟩
  have hcourse := ((courseContract cl).lawful rfl h j p hp).returns hret
  simp only [courseContract, ht] at hcourse
  exact hcourse.ok_iff cl.nodup

end Runs

/-- `a:1` and `b:1` attempt the same round, and the first accept request of `b:1` is lost. -/
theorem available_trio : ∃ s, Reach (fun _ _ ↦ True) (trio.start fun _ ↦ {}) s ∧
    ∃ p ∈ s.acts[3]?, responders .accept p.hist = {"b:1", "c:1"} ∧
      supporters .accept p.hist = responders .accept p.hist ∧
      ∃ rep, p.Returned rep ∧
        (rep.status.Ok ↔ ∀ ph, IsQuorum trio.memberList (supporters ph p.hist)) := by
  obtain ⟨s, hs, p, hp, htask, hvotes, hret⟩ : ∃ s,
      Reach (fun _ _ ↦ True) (trio.start fun _ ↦ {}) s ∧
      ∃ p ∈ s.acts[3]?, p.task = .attemptConsensus (electRequest "leader" "b:1") ∧
        responders .accept p.hist = {"b:1", "c:1"} ∧ p.prog.result?.isSome :=
    Reach.exists_of_steps (by
      decide +kernel : ((trio.start fun _ ↦ {}).steps (fun _ _ ↦ True)
        (twoElections ++ calls 6 2 ++ calls 6 3 ++ calls 3 2 ++
          .step 3 .requestLost :: calls 5 3)).any _ = true)
  obtain ⟨rep, hrep⟩ := Option.isSome_iff_exists.1 hret
  have hrep := Prog.result?_eq_some_iff.1 hrep
  obtain ⟨-, -, hok, hsame⟩ := available (fun _ ↦ rfl) hs hp htask
  exact ⟨s, hs, p, hp, hvotes, hsame .accept, rep, hrep, hok rep hrep⟩

end ReplicatedDB
