import Mathlib.Algebra.BigOperators.Ring.List
import Mathlib.Algebra.Order.BigOperators.Group.List
import ReplicatedDB.Model.Statistics
import ReplicatedDB.Protocol.Availability
import ReplicatedDB.Protocol.Convergence

/-!
# What the statistics say

If the increments of a node do not overlap, its counters agree with the requests of the run: what it
has sent is what its procedures have called (`shown_outgoing`), and what it has received is what was
sent to it, less what is in flight or lost (`shown_incoming`). Where increments do overlap, some of
them are lost, and the counters show at most that.

So the cost of the protocol can be read off. When all attempts have returned, each has sent `n`
pings, and `n` success messages if it has committed and none otherwise, with at most `n` proposals
and accept requests in between (`messageCount`). When everything arrives, each costs `4 * n`
messages, `n` of each kind, and all members have received the same number (`messageCount_prompt`).
-/

namespace ReplicatedDB

open Rpc Rpc.Net

/-! ### Counters and requests -/

section Counters

variable {cl : Cluster} {debug : String → Bool} {behind : ℕ → RpcType → String → ℕ}
  {nodes : String → Replica} {s : Net (db cl)} {g : String → List Statistics}
  {C : Net (db cl) → Label Db → Prop} {a d : String}

/-- The runs whose steps satisfy `C`, with the statistics of all nodes. -/
abbrev Metered (cl : Cluster) (debug : String → Bool) (behind : ℕ → RpcType → String → ℕ)
    (C : Net (db cl) → Label Db → Prop) (nodes : String → Replica) (s : Net (db cl))
    (g : String → List Statistics) : Prop :=
  ReachWith (fun s _ l ↦ C s l) (count debug behind) (cl.start nodes, fun _ ↦ []) (s, g)

theorem Metered.reach (h : Metered cl debug behind C nodes s g) : Reach C (cl.start nodes) s :=
  have hC : ∀ (s : Net (db cl)) (_ : String → List Statistics) (l : Label Db), C s l → C s l :=
    fun _ _ _ hl ↦ hl
  ReachWith.reach hC h

/-- **The invariant rule** for the counters. -/
theorem Metered.invariant (h : Metered cl debug behind C nodes s g)
    {I : Net (db cl) → (String → List Statistics) → Prop} (hinit : I (cl.start nodes) fun _ ↦ [])
    (hstep : ∀ s g l s', I s g → C s l → Step s l s' → I s' (count debug behind s l s' g)) :
    I s g :=
  have hC : ∀ (s : Net (db cl)) (_ : String → List Statistics) (l : Label Db), C s l → C s l :=
    fun _ _ _ hl ↦ hl
  ReachWith.invariant hC h hinit fun s g l s' _ _ ih hl hs ↦ hstep s g l s' ih hl hs

/-- What the newest counters of a node show. -/
def shown (versions : List Statistics) (t : RpcType) (name : String) : ℕ :=
  (version versions 0).shown t name

/-- **A node has counted what it has sent.** -/
theorem shown_outgoing (hC : ∀ s l, C s l → l.NoRestart) (ha : debug a = true)
    (hserial : Serial behind a) (m : Method) (h : Metered cl debug behind C nodes s g) :
    shown (g a) .outgoing m.wrapper = s.sent (leaving a m) := by
  refine h.invariant (I := fun s g ↦ shown (g a) .outgoing m.wrapper = s.sent (leaving a m)) ?_ ?_
  · rfl
  intro s g l s' ih hl hs
  rw [shown, shown_count ha hserial (hC s l hl), ← shown, ih, hs.sent]
  exact congrArg (s.sent (leaving a m) + ·) (countP_outgoing s l a m)

/-- **A node has counted at most what it has sent**, however its increments overlap. -/
theorem shown_outgoing_le (hC : ∀ s l, C s l → l.NoRestart) (ha : debug a = true) (m : Method)
    (h : Metered cl debug behind C nodes s g) :
    shown (g a) .outgoing m.wrapper ≤ s.sent (leaving a m) := by
  have hall : ∀ j, (version (g a) j).shown .outgoing m.wrapper ≤ s.sent (leaving a m) := by
    refine h.invariant (I := fun s g ↦
      ∀ j, (version (g a) j).shown .outgoing m.wrapper ≤ s.sent (leaving a m)) ?_ ?_
    · exact fun _ ↦ Nat.le_refl 0
    intro s g l s' ih hl hs j
    obtain ⟨j', hle⟩ : ∃ j', (version (count debug behind s l s' g a) j).shown .outgoing m.wrapper ≤
        (version (g a) j').shown .outgoing m.wrapper + tally a m.wrapper (outgoing? s l) :=
      shown_count_le ha (hC s l hl) .outgoing m.wrapper j
    have hsent := countP_outgoing s l a m
    rw [hs.sent, ← hsent]
    exact hle.trans (Nat.add_le_add_right (ih j') _)
  exact hall 0

/-- **A node has counted at most what was sent to it**, less what is in flight. -/
theorem shown_incoming_le (hC : ∀ s l, C s l → l.NoRestart) (hd : debug d = true) (m : Method)
    (h : Metered cl debug behind C nodes s g) :
    shown (g d) .incoming m.handler + s.late.countP (arriving d m) ≤
      s.sent fun x ↦ arriving d m (x.dest, x.act) := by
  have hall : ∀ j, (version (g d) j).shown .incoming m.handler + s.late.countP (arriving d m) ≤
      s.sent fun x ↦ arriving d m (x.dest, x.act) := by
    refine h.invariant (I := fun s g ↦ ∀ j, (version (g d) j).shown .incoming m.handler +
      s.late.countP (arriving d m) ≤ s.sent fun x ↦ arriving d m (x.dest, x.act)) ?_ ?_
    · exact fun _ ↦ Nat.le_refl 0
    intro s g l s' ih hl hs j
    obtain ⟨j', hle⟩ : ∃ j', (version (count debug behind s l s' g d) j).shown .incoming m.handler ≤
        (version (g d) j').shown .incoming m.handler + tally d m.handler (incoming? s l) :=
      shown_count_le hd (hC s l hl) .incoming m.handler j
    have hreceives := countP_incoming s l d m
    have hold := ih j'
    have haccount := (hs.account (arriving d m)).1
    rw [hreceives] at hle
    rw [hs.sent]
    omega
  exact hall 0

/-- **A node has counted what was sent to it**, when nothing is lost, less what is in flight. -/
theorem shown_incoming (hC : ∀ s l, C s l → l.NoRestart ∧ l.Lossless) (hd : debug d = true)
    (hserial : Serial behind d) (m : Method) (h : Metered cl debug behind C nodes s g) :
    shown (g d) .incoming m.handler + s.late.countP (arriving d m) =
      s.sent fun x ↦ arriving d m (x.dest, x.act) := by
  refine h.invariant (I := fun s g ↦ shown (g d) .incoming m.handler +
    s.late.countP (arriving d m) = s.sent fun x ↦ arriving d m (x.dest, x.act)) ?_ ?_
  · rfl
  intro s g l s' ih hl hs
  have heq := (hs.account (arriving d m)).2 (hC s l hl).2
  have hreceives : tally d m.handler (noted? s l .incoming) = _ := countP_incoming s l d m
  rw [shown, shown_count hd hserial (hC s l hl).1, ← shown, hreceives, hs.sent]
  omega

end Counters

/-! ### What attempts send -/

/-- The requests of one kind. -/
def kind (m : Method) (a : Act) : Bool := decide (a.method? = some m)

section Courses

variable {members : List String} {r : Request} {h : History} {rep : Reply} {m m' : Method}
  {log : Log} {xs ws : List (String × Status)} {ys zs : List (String × (Status × Response))}

theorem recipients_kind {a : Act} (ha : a.method? = some m') (xs : List (String × a.Ret)) :
    recipients (kind m) (exchange (S := Db) a xs) = if m' = m then xs.map Prod.fst else [] := by
  rw [recipients_exchange, kind, ha]
  simp only [decide_eq_true_eq, Option.some.injEq]

theorem recipients_pinged : recipients (kind m) (pinged r.key log xs) =
    if .ping = m then xs.map Prod.fst else [] := recipients_kind (a := Act.ping) rfl xs

theorem recipients_proposed : recipients (kind m) (proposed r log xs ys) =
    (if .ping = m then xs.map Prod.fst else []) ++
      if .propose = m then ys.map Prod.fst else [] := by
  rw [proposed, recipients_append, recipients_pinged, recipients_kind rfl]

theorem recipients_askedAll : recipients (kind m) (askedAll r log xs ys zs) =
    ((if .ping = m then xs.map Prod.fst else []) ++ if .propose = m then ys.map Prod.fst else []) ++
      if .accept = m then zs.map Prod.fst else [] := by
  rw [askedAll, recipients_append, recipients_proposed, recipients_kind rfl]

/-- **What an attempt has sent** when it returns. -/
theorem Course.sends (hc : Course members r h rep) :
    recipients (kind .ping) h = members ∧
    recipients (kind .success) h = (if rep.status.Ok then members else []) ∧
    (recipients (kind .accept) h).Sublist (recipients (kind .propose) h) ∧
    (recipients (kind .propose) h).Sublist members ∧
    (rep.status.Ok → members.length ≤ 2 * (recipients (kind .accept) h).length) := by
  have hfails : ∀ {l l' : List String}, (if defaultResponse.status.Ok then l else l') = l' :=
    if_neg (Status.not_ok_aborted _)
  have hno : ∀ {P : Prop}, defaultResponse.status.Ok → P :=
    fun hok ↦ absurd hok (Status.not_ok_aborted _)
  cases hc with
  | unreached hxs _ =>
    simp only [recipients_pinged, hfails, hxs, reduceCtorEq, if_true, if_false, true_and]
    exact ⟨.refl _, List.nil_sublist _, hno⟩
  | unanswered hxs _ hys _ =>
    simp only [recipients_proposed, hfails, hxs, hys, reduceCtorEq, if_true, if_false,
      List.append_nil, List.nil_append, true_and]
    exact ⟨List.nil_sublist _, live_sublist hxs, hno⟩
  | unaccepted hxs _ hys _ hzs _ =>
    simp only [recipients_askedAll, hfails, hxs, hys, hzs, reduceCtorEq, if_true, if_false,
      List.append_nil, List.nil_append, true_and]
    exact ⟨.refl _, live_sublist hxs, hno⟩
  | @committed log xs ys zs ws hxs hlive hys _ hzs _ hws =>
    have hsuccess : ∀ m, recipients (kind m) (exchange (S := Db)
        (Act.success (successRequest r.key (acceptances zs).2)) ws) =
          if .success = m then ws.map Prod.fst else [] :=
      fun m ↦ recipients_kind (a := Act.success _) rfl ws
    simp only [recipients_append, recipients_askedAll, hsuccess, hxs, hys, hzs, hws, reduceCtorEq,
      if_true, if_false, List.append_nil, List.nil_append, Status.ok_default, true_and]
    exact ⟨.refl _, live_sublist hxs, fun _ ↦ not_noQuorum_iff.1 hlive⟩

/-- **What an attempt has sent** when everything arrives. -/
theorem Course.sends_of_ok (hc : Course members r h rep)
    (hok : ∀ d, ∀ e ∈ h, AnswerOk d e.1 e.2) : rep.status.Ok ∧
      ∀ m ∈ [Method.ping, .propose, .accept, .success], recipients (kind m) h = members := by
  have hlive : ∀ {key : String} {log : Log} {xs : List (String × Status)},
      (∀ e ∈ pinged key log xs, e ∈ h) → xs.map Prod.fst = members → live xs = members := by
    rintro key log xs hsub rfl
    rw [live, List.filter_eq_self.2 fun x hx ↦ decide_eq_true ?_]
    exact hok x.1 _ (hsub _ (List.mem_cons_of_mem _ (mem_exchange hx))) rfl
  -- the votes of all of them are counted
  have hvotes : ∀ {ys : List (String × (Status × Response))}, ys.map Prod.fst = members →
      (∀ y ∈ ys, y.2.1.Ok) → ¬ NoQuorum members.length (yes ys).length := by
    rintro ys rfl hall
    rw [yes, List.filter_eq_self.2 fun y hy ↦ decide_eq_true (hall y hy), List.length_map]
    exact not_noQuorum_self _
  cases hc with
  | unreached hxs hno =>
    rw [hlive (fun e he ↦ he) hxs] at hno
    exact absurd hno (not_noQuorum_self _)
  | unanswered hxs _ hys hno =>
    rw [hlive (fun e he ↦ List.mem_append_left _ he) hxs] at hys
    exact absurd hno (hvotes hys fun y hy ↦
      hok y.1 _ (List.mem_append_right _ (mem_exchange hy)) rfl)
  | unaccepted hxs _ hys _ hzs hno =>
    rw [hlive (fun e he ↦ List.mem_append_left _ (List.mem_append_left _ he)) hxs] at hzs
    exact absurd hno (hvotes hzs fun z hz ↦
      hok z.1 _ (List.mem_append_right _ (mem_exchange hz)) rfl)
  | @committed log xs ys zs ws hxs _ hys _ hzs _ hws =>
    have hall := hlive (fun e he ↦ List.mem_append_left _ (List.mem_append_left _
      (List.mem_append_left _ he))) hxs
    refine ⟨Status.ok_default, fun m hm ↦ ?_⟩
    have hsuccess : recipients (kind m) (exchange (S := Db)
        (Act.success (successRequest r.key (acceptances zs).2)) ws) =
          if .success = m then ws.map Prod.fst else [] :=
      recipients_kind (a := Act.success _) rfl ws
    rw [recipients_append, recipients_askedAll, hsuccess, hxs, hys, hzs, hws, hall]
    simp only [List.mem_cons, List.not_mem_nil, or_false] at hm
    rcases hm with rfl | rfl | rfl | rfl <;> simp

end Courses

/-! ### What all activations send -/

/-- An activation of `AttemptConsensus`. -/
def isAttempt (p : Activation Db) : Bool := p.task.request?.isSome

/-- An attempt that has returned OK. -/
def hasCommitted (p : Activation Db) : Bool :=
  isAttempt p && p.prog.result?.any fun rep ↦ decide rep.status.Ok

/-- The number of attempts at a node, -/
def attempts {cl : Cluster} (s : Net (db cl)) (a : String) : ℕ :=
  s.acts.countP fun p ↦ decide (p.node = a) && isAttempt p

/-- and of those that have returned OK. -/
def commits {cl : Cluster} (s : Net (db cl)) (a : String) : ℕ :=
  s.acts.countP fun p ↦ decide (p.node = a) && hasCommitted p

/-- All attempts have returned. -/
def AtRest {cl : Cluster} (s : Net (db cl)) : Prop :=
  ∀ p ∈ s.acts, isAttempt p = true → p.prog.result?.isSome = true

instance {cl : Cluster} (s : Net (db cl)) : Decidable (AtRest s) :=
  inferInstanceAs (Decidable (∀ p ∈ s.acts, _ → _))

section Activations

variable {cl : Cluster} {C : Net (db cl) → Label Db → Prop} {nodes : String → Replica}
  {s : Net (db cl)} {p : Activation Db} {m : Method} {a d : String}

theorem isAttempt_iff : isAttempt p = true ↔ ∃ r, p.task = .attemptConsensus r := by
  rw [isAttempt, Option.isSome_iff_exists]
  exact exists_congr fun r ↦ request?_eq_some_iff

/-- The other procedures only ask for the leader and for its store. -/
theorem method_of_emits {me : String} {t : Task} {h : History} {act : Act}
    (he : emits cl me t h (.act (some d) act)) :
    (∃ r, t = .attemptConsensus r) ∨ act = .getLeader ∨ act = .getDB := by
  match t with
  | .attemptConsensus r => exact .inl ⟨r, rfl⟩
  | .electLeader _ _ | .set _ _ => exact absurd he id
  | .get _ => cases act <;> exact absurd he id
  | .coordinate =>
    right
    cases act <;> first | exact .inl rfl | exact .inr rfl | exact absurd he id

theorem recipients_of_not_attempt (hp : (contract cl).Lawful p) (hno : ¬ isAttempt p = true)
    (hm : m ≠ .getLeader ∧ m ≠ .getDB) : recipients (kind m) p.hist = [] := by
  refine List.filterMap_eq_nil_iff.2 fun e he ↦ ?_
  obtain ⟨c, x⟩ := e
  obtain ⟨h₁, -, hemit, -⟩ := hp.emits_of_mem he
  rcases c with ⟨_ | d, act⟩ | ⟨dest, t⟩
  · rfl
  · refine if_neg fun hkind ↦ ?_
    rcases method_of_emits hemit with hattempt | rfl | rfl
    · exact hno (isAttempt_iff.2 hattempt)
    · exact hm.1 (Option.some.inj (of_decide_eq_true hkind)).symm
    · exact hm.2 (Option.some.inj (of_decide_eq_true hkind)).symm
  · rfl

/-- **What an activation has sent** when all attempts have returned. -/
theorem sends_of_atRest (h : Reach C (cl.start nodes) s) (hrest : AtRest s) (hp : p ∈ s.acts) :
    recipients (kind .ping) p.hist = (if isAttempt p then cl.memberList else []) ∧
    recipients (kind .success) p.hist = (if hasCommitted p then cl.memberList else []) ∧
    (recipients (kind .accept) p.hist).Sublist (recipients (kind .propose) p.hist) ∧
    (recipients (kind .propose) p.hist).Sublist (if isAttempt p then cl.memberList else []) ∧
    (hasCommitted p → cl.memberList.length ≤ 2 * (recipients (kind .accept) p.hist).length) := by
  obtain ⟨j, hj⟩ := List.getElem?_of_mem hp
  by_cases hattempt : isAttempt p = true
  · obtain ⟨r, ht⟩ := isAttempt_iff.1 hattempt
    obtain ⟨rep, hrep⟩ := Option.isSome_iff_exists.1 (hrest p hp hattempt)
    have hcourse := ((courseContract cl).lawful rfl h j p hj).returns
      (Prog.result?_eq_some_iff.1 hrep)
    simp only [courseContract, ht] at hcourse
    have hcommitted : hasCommitted p = decide rep.status.Ok := by
      rw [hasCommitted, hattempt, hrep]
      rfl
    simp only [hattempt, hcommitted, if_true, decide_eq_true_eq]
    exact hcourse.sends
  · have hnone := fun m hm ↦
      recipients_of_not_attempt (m := m) ((contract cl).lawful rfl h j p hj) hattempt hm
    have hcommitted : ¬ hasCommitted p = true := fun hc ↦
      hattempt (Bool.and_eq_true_iff.1 hc).1
    rw [hnone .ping (by decide), hnone .success (by decide), hnone .accept (by decide),
      hnone .propose (by decide), if_neg hattempt, if_neg hcommitted]
    exact ⟨rfl, rfl, .refl _, .refl _, fun hc ↦ absurd hc hcommitted⟩

theorem sent_leaving (s : Net (db cl)) (a : String) (m : Method) : s.sent (leaving a m) =
    (s.acts.map fun p ↦ if p.node = a then (recipients (kind m) p.hist).length else 0).sum := by
  refine congrArg List.sum (List.map_congr_left fun p _ ↦ ?_)
  refine (p.countP_messages (kind m) fun b _ ↦ decide (b = a)).trans ?_
  split
  · rename_i heq
    rw [decide_eq_true heq, List.countP_true]
  · rename_i hne
    rw [decide_eq_false hne, List.countP_false]
    rfl

theorem sent_arriving (s : Net (db cl)) (d : String) (m : Method) :
    s.sent (fun x ↦ arriving d m (x.dest, x.act)) =
      (s.acts.map fun p ↦ (recipients (kind m) p.hist).count d).sum :=
  congrArg List.sum (List.map_congr_left fun p _ ↦
    p.countP_messages (kind m) fun _ b ↦ decide (b = d))

/-- An activation that sends something to all members, or to nobody. -/
theorem sum_eq_mul_countP (s : Net (db cl)) {f : Activation Db → ℕ} {P : Activation Db → Bool}
    {n : ℕ} (hf : ∀ p ∈ s.acts, f p = if P p then n else 0) :
    (s.acts.map f).sum = n * s.acts.countP P :=
  (congrArg List.sum (List.map_congr_left hf)).trans (sum_map_ite P n s.acts)

/-- ... and one that sends at most so much. -/
theorem sum_le_mul_countP (s : Net (db cl)) {f : Activation Db → ℕ} {P : Activation Db → Bool}
    {n : ℕ} (hf : ∀ p ∈ s.acts, f p ≤ if P p then n else 0) :
    (s.acts.map f).sum ≤ n * s.acts.countP P :=
  (List.sum_le_sum hf).trans_eq (sum_map_ite P n s.acts)

end Activations

/-! ### The cost of consensus -/

section Cost

variable {cl : Cluster} {debug : String → Bool} {behind : ℕ → RpcType → String → ℕ}
  {nodes : String → Replica} {s : Net (db cl)} {g : String → List Statistics}
  {C : Net (db cl) → Label Db → Prop} {d : String}

/-- What `get_stats` answers about the wrappers, -/
def reportedOut (versions : List Statistics) (m : Method) : ℕ :=
  (getStats true (version versions 0) (version versions 0)).1.2.read m.wrapper

/-- and about the handlers. -/
def reportedIn (versions : List Statistics) (m : Method) : ℕ :=
  (getStats true (version versions 0) (version versions 0)).1.1.read m.handler

theorem reportedOut_eq (versions : List Statistics) (m : Method) :
    reportedOut versions m = shown versions .outgoing m.wrapper :=
  (read_getStats true _ _ (by cases m <;> decide)).2

theorem reportedIn_eq (versions : List Statistics) (m : Method) :
    reportedIn versions m = shown versions .incoming m.handler :=
  (read_getStats true _ _ (by cases m <;> decide)).1

/-- What arrives is not lost. -/
theorem prompt_lossless {l : Label Db} (h : l.Prompt) : l.Lossless := by
  match l with
  | .step i o =>
    obtain rfl : o = .delivered := h
    exact nofun
  | .submit _ _ => trivial
  | .deliver _ | .restart _ => exact absurd h id

/-- What a node reports to have sent is what its activations have sent, -/
theorem reportedOut_eq_sum (hC : ∀ s l, C s l → l.NoRestart) (hd : debug d = true)
    (hserial : Serial behind d) (h : Metered cl debug behind C nodes s g) (m : Method) :
    reportedOut (g d) m =
      (s.acts.map fun p ↦ if p.node = d then (recipients (kind m) p.hist).length else 0).sum := by
  rw [reportedOut_eq, shown_outgoing hC hd hserial m h, sent_leaving]

/-- or less, if increments overlap, -/
theorem reportedOut_le_sum (hC : ∀ s l, C s l → l.NoRestart) (hd : debug d = true)
    (h : Metered cl debug behind C nodes s g) (m : Method) : reportedOut (g d) m ≤
      (s.acts.map fun p ↦ if p.node = d then (recipients (kind m) p.hist).length else 0).sum := by
  rw [reportedOut_eq, ← sent_leaving]
  exact shown_outgoing_le hC hd m h

/-- and what it reports to have received, all of them have sent to it. -/
theorem reportedIn_le_sum (hC : ∀ s l, C s l → l.NoRestart) (hd : debug d = true)
    (h : Metered cl debug behind C nodes s g) (m : Method) : reportedIn (g d) m ≤
      (s.acts.map fun p ↦ (recipients (kind m) p.hist).count d).sum := by
  rw [reportedIn_eq, ← sent_arriving]
  exact (Nat.le_add_right _ _).trans (shown_incoming_le hC hd m h)

variable (cl) in
/-- Who sends something to all members, at the node `d`. -/
theorem length_ite (p : Activation Db) (b : Bool) :
    (if p.node = d then (if b then cl.memberList else []).length else 0) =
      if decide (p.node = d) && b then cl.memberList.length else 0 := by
  by_cases hnode : p.node = d
  · cases b <;> simp [hnode]
  · simp [hnode]

variable (cl) in
/-- At most one of the members is the node `d`. -/
theorem count_le_one {l : List String} {b : Bool}
    (hl : l.Sublist (if b then cl.memberList else [])) : l.count d ≤ if b then 1 else 0 := by
  have hle := hl.count_le d
  match b with
  | true => exact hle.trans (List.nodup_iff_count_le_one.1 cl.nodup d)
  | false => exact hle

/-- What a node has sent and received at most, by its counters. -/
structure CostsAtMost (s : Net (db cl)) (versions : List Statistics) (d : String) : Prop where
  sent : ∀ m ∈ [Method.ping, .propose, .accept],
    reportedOut versions m ≤ cl.memberList.length * attempts s d
  sent_success : reportedOut versions .success ≤ cl.memberList.length * commits s d
  received : ∀ m ∈ [Method.ping, .propose, .accept],
    reportedIn versions m ≤ s.acts.countP isAttempt
  received_success : reportedIn versions .success ≤ s.acts.countP hasCommitted

/-- What a node has sent, by its counters. -/
structure CostsExactly (s : Net (db cl)) (versions : List Statistics) (d : String) : Prop where
  ping : reportedOut versions .ping = cl.memberList.length * attempts s d
  success : reportedOut versions .success = cl.memberList.length * commits s d
  accept_le : reportedOut versions .accept ≤ reportedOut versions .propose
  propose_le : reportedOut versions .propose ≤ reportedOut versions .ping
  half : cl.memberList.length * commits s d ≤ 2 * reportedOut versions .accept

/-- An attempt sends at most one request of each kind to a member. -/
theorem sublist_of_atRest (h : Reach C (cl.start nodes) s) (hrest : AtRest s) {p : Activation Db}
    (hp : p ∈ s.acts) {m : Method} (hm : m ∈ [Method.ping, .propose, .accept]) :
    (recipients (kind m) p.hist).Sublist (if isAttempt p then cl.memberList else []) := by
  obtain ⟨hping, -, haccept, hpropose, -⟩ := sends_of_atRest h hrest hp
  rcases List.mem_cons.1 hm with rfl | hm
  · rw [hping]
  rcases List.mem_cons.1 hm with rfl | hm
  · exact hpropose
  · rw [List.mem_singleton.1 hm]
    exact haccept.trans hpropose

section Restless

variable (hd : debug d = true) (h : Metered cl debug behind (fun _ l ↦ l.NoRestart) nodes s g)
  (hrest : AtRest s)
include hd h hrest

/-- **At most** so much is counted, -/
theorem costsAtMost : CostsAtMost s (g d) d where
  sent m hm := by
    refine (reportedOut_le_sum (fun _ _ hl ↦ hl) hd h m).trans (sum_le_mul_countP s fun p hp ↦ ?_)
    rw [← length_ite]
    split
    · exact (sublist_of_atRest h.reach hrest hp hm).length_le
    · exact Nat.le_refl 0
  sent_success := by
    refine (reportedOut_le_sum (fun _ _ hl ↦ hl) hd h .success).trans_eq ?_
    refine sum_eq_mul_countP s fun p hp ↦ ?_
    rw [(sends_of_atRest h.reach hrest hp).2.1, length_ite]
  received m hm := by
    refine (reportedIn_le_sum (fun _ _ hl ↦ hl) hd h m).trans ?_
    rw [← Nat.one_mul (s.acts.countP isAttempt)]
    exact sum_le_mul_countP s fun p hp ↦
      count_le_one cl (sublist_of_atRest h.reach hrest hp hm)
  received_success := by
    refine (reportedIn_le_sum (fun _ _ hl ↦ hl) hd h .success).trans ?_
    rw [← Nat.one_mul (s.acts.countP hasCommitted)]
    refine sum_le_mul_countP s fun p hp ↦ count_le_one cl ?_
    rw [(sends_of_atRest h.reach hrest hp).2.1]

/-- and exactly so much, if no increment is lost. -/
theorem costsExactly (hserial : Serial behind d) : CostsExactly s (g d) d := by
  have hsends := fun p hp ↦ sends_of_atRest (p := p) h.reach hrest hp
  have hout := reportedOut_eq_sum (fun _ _ hl ↦ hl) hd hserial h
  have hping : reportedOut (g d) .ping = cl.memberList.length * attempts s d := by
    rw [hout]
    refine sum_eq_mul_countP s fun p hp ↦ ?_
    rw [(hsends p hp).1, length_ite]
  have hatMost := costsAtMost hd h hrest
  refine ⟨hping, ?_, ?_, ?_, ?_⟩
  · rw [hout]
    refine sum_eq_mul_countP s fun p hp ↦ ?_
    rw [(hsends p hp).2.1, length_ite]
  · rw [hout, hout]
    refine List.sum_le_sum fun p hp ↦ ?_
    split
    · exact (hsends p hp).2.2.1.length_le
    · exact Nat.le_refl 0
  · rw [hping]
    exact hatMost.sent .propose (by decide)
  · rw [hout, commits, ← sum_map_ite, ← List.sum_map_mul_left]
    refine List.sum_le_sum fun p hp ↦ ?_
    by_cases hc : p.node = d ∧ hasCommitted p = true
    · rw [if_pos (by simp [hc]), if_pos hc.1]
      exact (hsends p hp).2.2.2.2 hc.2
    · rw [if_neg (by simpa using hc)]
      exact Nat.zero_le _

end Restless

/-- **The cost of consensus**, as a node reports it when all attempts have returned, whatever was
lost. If its increments do not overlap, it has sent `n` pings for each of its attempts, and `n`
success messages for each one that has committed and none for the others; at most as many accept
requests as proposals, and proposals as pings, and at least `n / 2` accept requests for each one
that has committed. If they do overlap, it never reports more than `n` requests of each kind. It
has received at most one request of each kind from each attempt, and successes only from those that
have committed. -/
theorem messageCount (hd : debug d = true)
    (h : Metered cl debug behind (fun _ l ↦ l.NoRestart) nodes s g) (hrest : AtRest s) :
    CostsAtMost s (g d) d ∧ (Serial behind d → CostsExactly s (g d) d) :=
  ⟨costsAtMost hd h hrest, costsExactly hd h hrest⟩

/-- The attempt of `a:1` commits; the one of `b:1` loses two pings and gives up. At `b:1` every
thread has missed the last increment, and the counter shows two pings of three. -/
theorem messageCount_trio : ∃ behind s g, Metered trio (fun _ ↦ true) behind
    (fun _ l ↦ l.NoRestart) (fun _ ↦ {}) s g ∧ commits s "a:1" = 1 ∧ attempts s "b:1" = 1 ∧
    commits s "b:1" = 0 ∧ CostsExactly s (g "a:1") "a:1" ∧ CostsAtMost s (g "b:1") "b:1" ∧
    reportedOut (g "b:1") .ping = 2 := by
  let behind : ℕ → RpcType → String → ℕ := fun _ _ d ↦ if d = "b:1" then 1 else 0
  obtain ⟨⟨s, g⟩, hs, hrest, ha, hb, hno, hout⟩ :
      ∃ x : Net (db trio) × (String → List Statistics),
        ReachWith (fun _ _ l ↦ l.NoRestart) (count (fun _ ↦ true) behind)
          (trio.start fun _ ↦ {}, fun _ ↦ []) x ∧ AtRest x.1 ∧ commits x.1 "a:1" = 1 ∧
          attempts x.1 "b:1" = 1 ∧ commits x.1 "b:1" = 0 ∧ reportedOut (x.2 "b:1") .ping = 2 :=
    ReachWith.exists_of_steps (by
      decide +kernel : (stepsWith (fun _ _ l ↦ l.NoRestart) (count (fun _ ↦ true) behind)
        (trio.start fun _ ↦ {}, fun _ ↦ []) (twoElections ++ calls 12 2 ++
          [.step 3 .requestLost, .step 3 .replyLost, .step 3 .delivered])).any _ = true)
  have hserial : Serial behind "a:1" := fun _ _ ↦ if_neg (by decide)
  exact ⟨behind, s, g, hs, ha, hb, hno, (messageCount (d := "a:1") rfl hs hrest).2 hserial,
    (messageCount (d := "b:1") rfl hs hrest).1, hout⟩

/-- When everything arrives, all attempts commit, with one request of each kind to every member. -/
theorem sends_of_prompt (hlog : ∀ d, (nodes d).paxLog = ∅)
    (h : Reach (fun _ l ↦ l.Prompt) (cl.start nodes) s) (hrest : AtRest s) {p : Activation Db}
    (hp : p ∈ s.acts) : hasCommitted p = isAttempt p ∧
      ∀ m ∈ [Method.ping, .propose, .accept, .success],
        recipients (kind m) p.hist = if isAttempt p then cl.memberList else [] := by
  obtain ⟨j, hj⟩ := List.getElem?_of_mem hp
  by_cases hattempt : isAttempt p = true
  · obtain ⟨r, ht⟩ := isAttempt_iff.1 hattempt
    obtain ⟨rep, hrep⟩ := Option.isSome_iff_exists.1 (hrest p hp hattempt)
    have hcourse := ((courseContract cl).lawful rfl h j p hj).returns
      (Prog.result?_eq_some_iff.1 hrep)
    simp only [courseContract, ht] at hcourse
    obtain ⟨hok, hall⟩ := hcourse.sends_of_ok fun d ↦ answerOk rfl rfl hlog
      (fun s l hl ↦ attemptsReach_of_deliversTo (deliversTo_of_prompt hl d)) h j p hj
    refine ⟨?_, fun m hm ↦ by rw [hall m hm, if_pos hattempt]⟩
    rw [hasCommitted, hattempt, hrep]
    exact decide_eq_true hok
  · refine ⟨?_, fun m hm ↦ ?_⟩
    · rw [hasCommitted, Bool.eq_false_iff.2 hattempt, Bool.false_and]
    · rw [if_neg hattempt]
      refine recipients_of_not_attempt ((contract cl).lawful rfl h j p hj) hattempt ?_
      constructor <;> rintro rfl <;> exact absurd hm (by decide)

/-- **The cost of consensus when everything arrives**: every attempt commits. It costs `4 * n`
messages, of which each member receives one of each kind, and all members whose increments do not
overlap report that. -/
theorem messageCount_prompt (hlog : ∀ d, (nodes d).paxLog = ∅)
    (h : Metered cl debug behind (fun _ l ↦ l.Prompt) nodes s g) (hrest : AtRest s) :
    (∀ d, commits s d = attempts s d) ∧
      ∀ d ∈ cl.memberList, debug d = true → Serial behind d →
        ∀ m ∈ [Method.ping, .propose, .accept, .success],
          reportedOut (g d) m = cl.memberList.length * attempts s d ∧
          reportedIn (g d) m = s.acts.countP isAttempt := by
  have hsends := fun p hp ↦ sends_of_prompt (p := p) hlog h.reach hrest hp
  refine ⟨fun d ↦ List.countP_congr fun p hp ↦ ?_, fun d hmem hd hserial m hm ↦ ⟨?_, ?_⟩⟩
  · rw [(hsends p hp).1]
  · rw [reportedOut_eq_sum (fun _ _ hl ↦ prompt_noRestart hl) hd hserial h]
    refine sum_eq_mul_countP s fun p hp ↦ ?_
    rw [(hsends p hp).2 m hm, length_ite]
  · have hin := shown_incoming (C := fun _ l ↦ l.Prompt)
      (fun _ l hl ↦ ⟨prompt_noRestart hl, prompt_lossless hl⟩) hd hserial m h
    rw [h.reach.late_eq_nil rfl fun _ _ hl ↦ prompt_noLate hl, List.countP_nil, Nat.add_zero,
      sent_arriving] at hin
    rw [reportedIn_eq, hin, ← Nat.one_mul (s.acts.countP isAttempt)]
    refine sum_eq_mul_countP s fun p hp ↦ ?_
    rw [(hsends p hp).2 m hm]
    split
    · exact List.count_eq_one_of_mem cl.nodup hmem
    · rfl

/-- `a:1` runs for leader. -/
theorem messageCount_prompt_trio : ∃ s g, Metered trio (fun _ ↦ true) (fun _ _ _ ↦ 0)
    (fun _ l ↦ l.Prompt) (fun _ ↦ {}) s g ∧ attempts s "a:1" = 1 ∧
    commits s "a:1" = attempts s "a:1" ∧
    reportedIn (g "a:1") .accept = s.acts.countP isAttempt := by
  obtain ⟨⟨s, g⟩, hs, hrest, hone⟩ : ∃ x : Net (db trio) × (String → List Statistics),
      ReachWith (fun _ _ l ↦ l.Prompt) (count (fun _ ↦ true) fun _ _ _ ↦ 0)
        (trio.start fun _ ↦ {}, fun _ ↦ []) x ∧ AtRest x.1 ∧ attempts x.1 "a:1" = 1 :=
    ReachWith.exists_of_steps (by
      decide +kernel : (stepsWith (fun _ _ l ↦ l.Prompt) (count (fun _ ↦ true) fun _ _ _ ↦ 0)
        (trio.start fun _ ↦ {}, fun _ ↦ [])
        (.submit "a:1" (.electLeader "leader" "a:1") :: calls 1 0 ++ calls 13 1)).any _ = true)
  obtain ⟨hcommits, hkinds⟩ := messageCount_prompt (fun _ ↦ rfl) hs hrest
  have hreported := hkinds "a:1" (by decide) rfl (fun _ _ ↦ rfl) .accept (by decide)
  exact ⟨s, g, hs, hone, hcommits "a:1", hreported.2⟩

end Cost

end ReplicatedDB
