import Mathlib.Data.Int.ConditionallyCompleteOrder
import ReplicatedDB.Protocol.Agreement

/-!
# Which value is accepted

An attempt proposes to the nodes that answered its ping, one after the other, and each may answer
that it has accepted something in this round. The attempt keeps the answer with the greatest id it
has seen so far. After the loop that is the first of the answers with the greatest id
(`Proposals.Kept`), and the accept requests carry its operation and value (`selection`).
-/

namespace ReplicatedDB

open Rpc Rpc.Net

/-! ### The first maximum -/

section FirstMax

variable {α β : Type} [Preorder β] {score : α → β} {l : List α} {a b : α}

/-- The first element of a list with the greatest score. -/
def FirstMax (score : α → β) (l : List α) (a : α) : Prop :=
  ∃ pre post, l = pre ++ a :: post ∧ (∀ b ∈ pre, score b < score a) ∧
    ∀ b ∈ post, score b ≤ score a

/-- It stays so if nothing greater comes. -/
theorem FirstMax.concat (h : FirstMax score l a) (hb : score b ≤ score a) :
    FirstMax score (l ++ [b]) a := by
  obtain ⟨pre, post, rfl, hpre, hpost⟩ := h
  refine ⟨pre, post ++ [b], by simp, hpre, fun c hc ↦ ?_⟩
  rcases List.mem_append.1 hc with hc | hc
  · exact hpost c hc
  · exact List.mem_singleton.1 hc ▸ hb

/-- Something greater comes. -/
theorem firstMax_concat (h : ∀ a ∈ l, score a < score b) : FirstMax score (l ++ [b]) b :=
  ⟨l, [], rfl, h, by simp⟩

theorem FirstMax.le (h : FirstMax score l a) (hb : b ∈ l) : score b ≤ score a := by
  obtain ⟨pre, post, rfl, hpre, hpost⟩ := h
  rcases List.mem_append.1 hb with hb | hb
  · exact (hpre b hb).le
  · rcases List.mem_cons.1 hb with rfl | hb
    · exact le_rfl
    · exact hpost b hb

end FirstMax

/-! ### The answers to the proposals -/

/-- The node that has answered a ping with OK. -/
def alive? : Event Db → Option String
  | ⟨.act (some d) .ping, st⟩ => if Status.Ok st then some d else none
  | _ => none

/-- A proposal, and what it was answered. -/
def proposal? : Event Db → Option (String × (Status × Response))
  | ⟨.act (some d) (.propose _), x⟩ => some (d, x)
  | _ => none

/-- The live nodes, in their order. -/
def liveNodes (h : History) : List String := h.filterMap alive?

/-- The proposals that were sent, in their order, with their answers. -/
def asked (h : History) : List (String × (Status × Response)) := h.filterMap proposal?

/-- The answers with OK, in their order. -/
def okReplies (xs : List (Status × Response)) : List Response :=
  (xs.filter fun x ↦ decide x.1.Ok).map Prod.snd

/-- The answers to the proposals that are OK. -/
def replies (h : History) : List Response := okReplies ((asked h).map Prod.snd)

/-- What the variables of the proposal stage keep of the answers. -/
def Proposals.Kept (v : Proposals) (xs : List Response) : Prop :=
  (v.acceptedId = 0 ∧ ∀ x ∈ xs, x.aserverId ≤ 0) ∨
    ∃ x, FirstMax Response.aserverId xs x ∧ 0 < x.aserverId ∧ v.acceptedId = x.aserverId ∧
      v.acceptedOp = x.op ∧ v.acceptedValue = x.value

/-- **One more answer.** -/
theorem Proposals.Kept.add {v : Proposals} {xs : List (Status × Response)}
    (h : v.Kept (okReplies xs)) (x : Status × Response) :
    (v.add x).Kept (okReplies (xs ++ [x])) := by
  by_cases hok : x.1.Ok
  · have happend : okReplies (xs ++ [x]) = okReplies xs ++ [x.2] := by
      simp [okReplies, hok]
    rw [happend, Proposals.add, if_pos hok]
    by_cases hgt : x.2.aserverId > v.acceptedId
    · rw [if_pos hgt]
      -- the new answer is greater than all before
      have hmax : 0 ≤ v.acceptedId ∧ ∀ y ∈ okReplies xs, y.aserverId ≤ v.acceptedId := by
        rcases h with ⟨hzero, hall⟩ | ⟨y, hy, hpos, hid, -⟩
        · exact ⟨hzero.ge, fun y hy ↦ hzero ▸ hall y hy⟩
        · exact ⟨hid ▸ hpos.le, fun z hz ↦ hid ▸ hy.le hz⟩
      exact .inr ⟨x.2, firstMax_concat fun y hy ↦ (hmax.2 y hy).trans_lt hgt,
        hmax.1.trans_lt hgt, rfl, rfl, rfl⟩
    · rw [if_neg hgt]
      rcases h with ⟨hzero, hall⟩ | ⟨y, hy, hpos, hid, hop, hvalue⟩
      · refine .inl ⟨hzero, fun y hy ↦ ?_⟩
        rcases List.mem_append.1 hy with hy | hy
        · exact hall y hy
        · rw [List.mem_singleton.1 hy, ← hzero]
          exact not_lt.1 hgt
      · exact .inr ⟨y, hy.concat (hid ▸ not_lt.1 hgt), hpos, hid, hop, hvalue⟩
  · have happend : okReplies (xs ++ [x]) = okReplies xs := by
      simp [okReplies, hok]
    rw [happend, Proposals.add, if_neg hok]
    exact h

/-- **The operation and value of an accept request**, from the answers to the proposals: those of
the first answer with the greatest positive id, or else those of the attempt's own request. -/
def Selects (r : Request) (xs : List Response) (q : Request) : Prop :=
  (∃ x, FirstMax Response.aserverId xs x ∧ 0 < x.aserverId ∧ q.op = x.op ∧ q.value = x.value) ∨
    (∀ x ∈ xs, x.aserverId ≤ 0) ∧ q.op = r.op ∧ q.value = r.value

theorem Proposals.Kept.selects {v : Proposals} {xs : List Response} (h : v.Kept xs) (r : Request)
    (round : ℤ) : Selects r xs (acceptRequest r round v) := by
  rw [acceptRequest]
  rcases h with ⟨hzero, hall⟩ | ⟨x, hx, hpos, hid, hop, hvalue⟩
  · rw [if_neg (by omega)]
    exact .inr ⟨hall, rfl, rfl⟩
  · rw [if_pos (by omega)]
    exact .inl ⟨x, hx, hpos, hop, hvalue⟩

/-! ### The contract -/

/-- Accept requests are sent when all live nodes were sent a proposal, and select from what these
have answered. -/
def selectEmits (r : Request) (h : History) : Call Db → Prop
  | .act (some _) (.accept q) => (asked h).map Prod.fst = liveNodes h ∧ Selects r (replies h) q
  | _ => True

section Attempt

variable {r : Request} {h : History} {d : String}

@[simp] theorem liveNodes_ping (st : Status) :
    liveNodes (h ++ [⟨.act (some d) Act.ping, st⟩]) =
      if st.Ok then liveNodes h ++ [d] else liveNodes h := by
  rw [liveNodes, filterMap_concat, alive?]
  by_cases hst : st.Ok
  · rw [if_pos hst, if_pos hst]
    rfl
  · rw [if_neg hst, if_neg hst]
    exact List.append_nil _

@[simp] theorem asked_ping (st : Status) :
    asked (h ++ [⟨.act (some d) Act.ping, st⟩]) = asked h :=
  (filterMap_concat proposal? h _).trans (List.append_nil _)

@[simp] theorem liveNodes_propose (q : Request) (x : Status × Response) :
    liveNodes (h ++ [⟨.act (some d) (Act.propose q), x⟩]) = liveNodes h :=
  (filterMap_concat alive? h _).trans (List.append_nil _)

@[simp] theorem asked_propose (q : Request) (x : Status × Response) :
    asked (h ++ [⟨.act (some d) (Act.propose q), x⟩]) = asked h ++ [(d, x)] :=
  filterMap_concat proposal? h _

@[simp] theorem liveNodes_accept (q : Request) (x : Status × Response) :
    liveNodes (h ++ [⟨.act (some d) (Act.accept q), x⟩]) = liveNodes h :=
  (filterMap_concat alive? h _).trans (List.append_nil _)

@[simp] theorem asked_accept (q : Request) (x : Status × Response) :
    asked (h ++ [⟨.act (some d) (Act.accept q), x⟩]) = asked h :=
  (filterMap_concat proposal? h _).trans (List.append_nil _)

theorem pingStage_selects (members : List String) (hh : liveNodes h = [] ∧ asked h = []) :
    Sat rely (selectEmits r) (fun h' nodes ↦ liveNodes h' = nodes ∧ asked h' = [])
      (pingStage members) h := by
  refine Sat.foldlM (fun _ nodes h' ↦ liveNodes h' = nodes ∧ asked h' = []) ?_ members [] h hh
  rintro d _ nodes h' ⟨hlive, hprop⟩
  refine ⟨trivial, fun st _ ↦ ⟨?_, (asked_ping st).trans hprop⟩⟩
  rw [liveNodes_ping, hlive]

theorem proposeStage_selects {q : Request} {nodes : List String}
    (hh : liveNodes h = nodes ∧ asked h = []) :
    Sat rely (selectEmits r) (fun h' (v : Proposals) ↦ liveNodes h' = nodes ∧
        (asked h').map Prod.fst = nodes ∧ v.Kept (replies h'))
      (proposeStage q nodes) h := by
  refine (Sat.foldlM (fun rest (v : Proposals) h' ↦ liveNodes h' = nodes ∧
    (asked h').map Prod.fst ++ rest = nodes ∧ v.Kept (replies h')) ?_ nodes {} h
      ⟨hh.1, by rw [hh.2]; rfl, ?_⟩).mono ?_
  · -- one more proposal
    rintro d rest v h' ⟨hlive, hasked, hkept⟩
    refine ⟨trivial, fun x _ ↦ ⟨(liveNodes_propose q x).trans hlive, ?_, ?_⟩⟩
    · rw [asked_propose]
      simpa using hasked
    · rw [replies, asked_propose, List.map_append]
      exact hkept.add x
  · rw [replies, hh.2]
    exact .inl ⟨rfl, by simp [okReplies]⟩
  · rintro h' v ⟨hlive, hasked, hkept⟩
    exact ⟨hlive, by simpa using hasked, hkept⟩

theorem acceptStage_selects {q : Request} (nodes : List String)
    (hasked : (asked h).map Prod.fst = liveNodes h) (hselects : Selects r (replies h) q) :
    Sat rely (selectEmits r) (fun _ _ ↦ True) (acceptStage q nodes) h := by
  refine (Sat.foldlM (fun _ _ h' ↦ (asked h').map Prod.fst = liveNodes h' ∧
    Selects r (replies h') q) ?_ nodes (0, ({} : Response)) h ⟨hasked, hselects⟩).mono
      fun _ _ _ ↦ trivial
  rintro d _ v h' hh'
  refine ⟨hh', fun x _ ↦ ?_⟩
  show (asked (h' ++ [⟨.act (some d) (Act.accept q), x⟩])).map Prod.fst =
    liveNodes (h' ++ [⟨.act (some d) (Act.accept q), x⟩]) ∧
      Selects r (replies (h' ++ [⟨.act (some d) (Act.accept q), x⟩])) q
  rw [replies, asked_accept, liveNodes_accept]
  exact hh'

theorem successStage_selects (q : Request) (members : List String) (h : History) :
    Sat rely (selectEmits r) (fun _ _ ↦ True) (successStage q members) h := by
  refine Sat.foldlM (fun _ _ _ ↦ True) ?_ members () h trivial
  intro d _ _ h' _
  exact ⟨trivial, fun _ _ ↦ trivial⟩

/-- **`AttemptConsensus` selects.** -/
theorem attemptConsensus_selects (members : List String) (r : Request) :
    Sat rely (selectEmits r) (fun _ _ ↦ True) (attemptConsensus members r) [] := by
  rw [attemptConsensus, Prog.here_bind]
  refine ⟨trivial, fun log _ ↦ Sat.bind ((pingStage_selects members ⟨rfl, rfl⟩).mono ?_)⟩
  rintro h₁ nodes hping
  refine Sat.ite (fun _ ↦ trivial) fun _ ↦ Sat.bind ((proposeStage_selects hping).mono ?_)
  rintro h₂ v ⟨hlive, hasked, hkept⟩
  refine Sat.ite (fun _ ↦ trivial) fun _ ↦ Sat.bind
    ((acceptStage_selects nodes (hasked.trans hlive.symm) (hkept.selects r _)).mono ?_)
  rintro h₃ a -
  exact Sat.ite (fun _ ↦ trivial) fun _ ↦ Sat.bind
    ((successStage_selects _ members h₃).mono fun _ _ _ ↦ trivial)

end Attempt

/-- The contract that says what attempts select. -/
def selectContract (cl : Cluster) : Rpc.Contract (db cl) where
  rely := rely
  emits _
    | .attemptConsensus r => selectEmits r
    | _ => fun _ _ ↦ True
  returns _ _ _ _ := True
  rely_act := (contract cl).rely_act
  rely_lost := (contract cl).rely_lost
  rely_invoke := (contract cl).rely_invoke
  body_sat me t := by
    cases t with
    | attemptConsensus r => exact attemptConsensus_selects cl.memberList r
    | _ => exact Sat.of_forall (fun _ _ ↦ trivial) (fun _ _ ↦ trivial) _ _

/-! ### Runs -/

theorem alive?_isSome_iff {e : Event Db} : (alive? e).isSome ↔
    ∃ d, ∃ st : Status, e = ⟨.act (some d) Act.ping, st⟩ ∧ st.Ok := by
  obtain ⟨c, r⟩ := e
  rcases c with ⟨_ | d, a⟩ | ⟨dest, t⟩
  · simp [alive?]
  · cases a with
    | ping =>
      by_cases hst : Status.Ok r
      · exact iff_of_true (by simp [alive?, hst]) ⟨d, r, rfl, hst⟩
      · refine iff_of_false (by simp [alive?, hst]) ?_
        rintro ⟨d', st, heq, hok⟩
        obtain ⟨-, hr⟩ := Sigma.mk.inj heq
        exact hst (eq_of_heq hr ▸ hok)
    | _ => simp [alive?]
  · simp [alive?]

theorem proposal?_isSome_iff {e : Event Db} : (proposal? e).isSome ↔
    ∃ d q, ∃ x : Status × Response, e = ⟨.act (some d) (Act.propose q), x⟩ := by
  obtain ⟨c, r⟩ := e
  rcases c with ⟨_ | d, a⟩ | ⟨dest, t⟩
  · simp [proposal?]
  · cases a with
    | propose q => exact iff_of_true rfl ⟨d, q, r, rfl⟩
    | _ => simp [proposal?]
  · simp [proposal?]

section Runs

variable {cl : Cluster} {p : Activation Db} {r : Request}

/-- **The voting is over** when the first accept request is sent: nobody is pinged any more, and
nobody is sent a proposal. -/
theorem proposals_of_accept (hp : (contract cl).Lawful p) (ht : p.task = .attemptConsensus r)
    {pre post : History} {d : String} {q : Request} {x : Status × Response}
    (heq : p.hist = pre ++ ⟨.act (some d) (Act.accept q), x⟩ :: post) :
    liveNodes p.hist = liveNodes pre ∧ asked p.hist = asked pre := by
  have hemits : ∀ {h₁ : History} {c : Call Db} {y : c.Ret} {h₂ : History},
      p.hist = h₁ ++ ⟨c, y⟩ :: h₂ → attemptEmits cl.memberList r h₁ c := by
    intro h₁ c y h₂ h
    have := (hp.past h₁ c y h₂ h).1
    rwa [ht] at this
  have hacc := hemits heq
  -- what comes after the accept request
  have hafter : ∀ e ∈ post, alive? e = none ∧ proposal? e = none := by
    intro e he
    obtain ⟨mid, rest, rfl⟩ := List.append_of_mem he
    have hsplit : p.hist = (pre ++ ⟨.act (some d) (Act.accept q), x⟩ :: mid) ++ e :: rest := by
      rw [heq]
      simp
    have hsub : pre ⊆ pre ++ ⟨.act (some d) (Act.accept q), x⟩ :: mid :=
      List.subset_append_left _ _
    constructor
    · rw [← Option.not_isSome_iff_eq_none, alive?_isSome_iff]
      rintro ⟨d', st, rfl, -⟩
      obtain ⟨d'', hs⟩ := hacc.2.2.1.1
      exact (hemits hsplit).2.2 d'' _ (hs.mono hsub)
    · rw [← Option.not_isSome_iff_eq_none, proposal?_isSome_iff]
      rintro ⟨d', q', y, rfl⟩
      exact (hemits hsplit).2.2.2 d q ⟨x, by simp [Heard]⟩
  have hlive : post.filterMap alive? = [] :=
    List.filterMap_eq_nil_iff.2 fun e he ↦ (hafter e he).1
  have hprop : post.filterMap proposal? = [] :=
    List.filterMap_eq_nil_iff.2 fun e he ↦ (hafter e he).2
  constructor
  · rw [heq, liveNodes, List.filterMap_append, List.filterMap_cons_none rfl, hlive,
      List.append_nil]
    rfl
  · rw [heq, asked, List.filterMap_append, List.filterMap_cons_none rfl, hprop,
      List.append_nil]
    rfl

/-- All accept requests of an attempt are the same. -/
theorem accept_eq_of_sent (hp : (contract cl).Lawful p) (ht : p.task = .attemptConsensus r)
    {d d' : String} {q q' : Request} (hs : Sent p.hist d (.accept q))
    (hs' : Sent p.hist d' (.accept q')) : q' = q := by
  obtain ⟨x, hx⟩ := hs
  obtain ⟨y, hy⟩ := hs'
  obtain ⟨pre, post, heq⟩ := List.append_of_mem hx
  have hacc := (hp.past _ _ _ _ heq).1
  rw [ht] at hacc
  rw [Heard, heq] at hy
  rcases List.mem_append.1 hy with hy | hy
  · exact hacc.2.2.2.1 d' q' ⟨y, hy⟩
  · rcases List.mem_cons.1 hy with hy | hy
    · obtain ⟨hc, -⟩ := Sigma.mk.inj hy
      exact Act.accept.inj (Call.act.inj hc).2
    · -- the other one came later
      obtain ⟨mid, rest, rfl⟩ := List.append_of_mem hy
      have hsplit : p.hist = (pre ++ ⟨.act (some d) (Act.accept q), x⟩ :: mid) ++
          ⟨.act (some d') (Act.accept q'), y⟩ :: rest := by
        rw [heq]
        simp
      have hacc' := (hp.past _ _ _ _ hsplit).1
      rw [ht] at hacc'
      exact (hacc'.2.2.2.1 d q ⟨x, by simp [Heard]⟩).symm

/-- **Which value is accepted.** In every run, whatever else goes on in the network: the accept
requests of an attempt carry the operation and the value of the first OK answer to its proposals
with the greatest id, in the order of the live nodes, if some id is positive, and otherwise those
of its own request; and its success requests carry what the accept requests do. -/
theorem selection {C : Net (db cl) → Label Db → Prop} {s₀ s : Net (db cl)} (hinit : s₀.acts = [])
    (h : Reach C s₀ s) {j : ℕ} (hp : s.acts[j]? = some p) (ht : p.task = .attemptConsensus r) :
    (∀ d q, Sent p.hist d (.accept q) →
      (asked p.hist).map Prod.fst = liveNodes p.hist ∧ Selects r (replies p.hist) q) ∧
    ∀ d q, Sent p.hist d (.success q) → (∃ d' qa, Sent p.hist d' (.accept qa)) ∧
      ∀ d' qa, Sent p.hist d' (.accept qa) →
        q.key = qa.key ∧ q.round = qa.round ∧ q.op = qa.op ∧ q.value = qa.value := by
  have hlaw := (contract cl).lawful hinit h j p hp
  refine ⟨fun d q hs ↦ ?_, fun d q hs ↦ ?_⟩
  · obtain ⟨x, hx⟩ := hs
    obtain ⟨pre, post, heq⟩ := List.append_of_mem hx
    obtain ⟨hlive, hprop⟩ := proposals_of_accept hlaw ht heq
    have hsel := (((selectContract cl).lawful hinit h j p hp).past _ _ _ _ heq).1
    simp only [selectContract, ht] at hsel
    rw [replies, hprop, hlive]
    exact hsel
  · obtain ⟨x, hx⟩ := hs
    obtain ⟨h₁, hpre, hemits, -⟩ := hlaw.emits_of_mem hx
    rw [ht] at hemits
    obtain ⟨-, -, qa, ⟨hadopts, -, Q, hQ, hvotes⟩, rfl⟩ := hemits
    obtain ⟨d', hd'⟩ := hQ.nonempty cl.ne_nil
    obtain ⟨y, hy, -⟩ := hvotes d' hd'
    have hsent : Sent p.hist d' (.accept qa) := hy.sent.mono hpre.subset
    refine ⟨⟨d', qa, hsent⟩, fun d'' qa' hs' ↦ ?_⟩
    obtain rfl := accept_eq_of_sent hlaw ht hsent hs'
    exact ⟨hadopts.key.symm, rfl, rfl, rfl⟩

end Runs

/-- Fresh nodes, but `b:1` has accepted a value in round 0. -/
def acceptedAtB (d : String) : Replica :=
  if d = "b:1" then (accept false { key := "k", value := "v", pserverId := 1, op := .set } {}).2
  else {}

/-- An attempt with another value hears of it, asks for it to be accepted, and informs `c:1`. -/
theorem selection_trio : ∃ s, Reach (fun _ _ ↦ True) (trio.start acceptedAtB) s ∧
    ∃ p ∈ s.acts[0]?, (replies p.hist).map Response.aserverId = [0, 1, 0] ∧
      ∃ d q q', Sent p.hist d (.accept q) ∧ Sent p.hist "c:1" (.success q') ∧ q'.value = "v" ∧
        (asked p.hist).map Prod.fst = liveNodes p.hist ∧
        Selects { key := "k", value := "w" } (replies p.hist) q ∧
        q'.key = q.key ∧ q'.round = q.round ∧ q'.op = q.op ∧ q'.value = q.value := by
  obtain ⟨s, hs, p, hp, htask, hids, e, he, ⟨c, q'⟩, hm, rfl, hvalue⟩ :
      ∃ s, Reach (fun _ _ ↦ True) (trio.start acceptedAtB) s ∧
        ∃ p ∈ s.acts[0]?, p.task = .attemptConsensus { key := "k", value := "w" } ∧
          (replies p.hist).map Response.aserverId = [0, 1, 0] ∧
            ∃ e ∈ p.hist, ∃ m ∈ sentSuccess? e, m.1 = "c:1" ∧ m.2.value = "v" :=
    Reach.exists_of_steps (by
      decide +kernel : ((trio.start acceptedAtB).steps (fun _ _ ↦ True)
        (.submit "a:1" (.attemptConsensus { key := "k", value := "w" }) ::
          calls 13 0)).any _ = true)
  obtain ⟨x, rfl⟩ := sentSuccess?_eq_some_iff.1 hm
  have hsuccess : Sent p.hist "c:1" (.success q') := ⟨x, he⟩
  obtain ⟨⟨d, q, haccept⟩, hsame⟩ := (selection rfl hs hp htask).2 "c:1" q' hsuccess
  obtain ⟨hlive, hselects⟩ := (selection rfl hs hp htask).1 d q haccept
  exact ⟨s, hs, p, hp, hids, d, q, q', haccept, hsuccess, hvalue, hlive, hselects,
    hsame d q haccept⟩

end ReplicatedDB
