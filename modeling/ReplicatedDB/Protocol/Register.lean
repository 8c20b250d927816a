import ReplicatedDB.Protocol.Deposed

/-!
# The newest election

A node learns of an election from the success message of its round, which it refuses once it has
logged a larger round, or by running the election itself. At the end of its own election
`elect_leader` assigns the leader register without such a test, so a node that hears of a later
election between the success message of its own one and that assignment goes back to the older
leader (`not_followsNewest_trio`). And a node that misses its own success message has not set its
register when its attempt returns OK (`not_followsNewest_of_lost_trio`).

If neither happens (`Undisturbed`), the register is always the leader of the newest election that
the node has learned of (`followsNewest_of_undisturbed`): it then sets the register with its own
success message, and the assignment of `elect_leader` changes nothing (`leader_of_assigned`).
-/

namespace ReplicatedDB

open Rpc Rpc.Net

variable {cl : Cluster}

/-! ### What a node has learned -/

/-- The round and the leader of a success message that the node `a` has answered with OK. -/
def told? (a : String) : Served Db → Option (ℤ × String)
  | ⟨d, .success q, (st : Status), _⟩ =>
    if d = a ∧ q.key = "leader" ∧ st.Ok then some (q.round, q.value) else none
  | _ => none

/-- The round and the leader of an election that the node `a` has run itself: an attempt of its own
for the register that has returned OK. -/
def won? (a : String) (p : Activation Db) : Option (ℤ × String) :=
  match p.task.request?, p.prog.result? with
  | some r, some rep =>
    if p.node = a ∧ r.key = "leader" ∧ rep.status.Ok then
      some (rep.response.round, rep.response.value)
    else none
  | _, _ => none

/-- The elections that the node was told of. -/
def told (s : Net (db cl)) (a : String) : List (ℤ × String) := s.served.filterMap (told? a)

/-- The elections that the node has run itself. -/
def won (s : Net (db cl)) (a : String) : List (ℤ × String) := s.acts.filterMap (won? a)

/-- The elections that the node has learned of: their rounds and their leaders. -/
def learned (s : Net (db cl)) (a : String) : List (ℤ × String) := told s a ++ won s a

/-- Of these elections, `x` is one in the highest round, and its leader is the one given. -/
def Newest (xs : List (ℤ × String)) (leader : String) (x : ℤ × String) : Prop :=
  x ∈ xs ∧ x.2 = leader ∧ ∀ y ∈ xs, y.1 ≤ x.1

/-- The register of the node names the leader of this election, and the node has learned of none in
a higher round. -/
def Follows (s : Net (db cl)) (a : String) (x : ℤ × String) : Prop :=
  Newest (learned s a) (s.nodes a).leader x

/-- **The register follows the newest election** that the node has learned of, if there is one. -/
def FollowsNewest (a : String) (s : Net (db cl)) : Prop :=
  learned s a = [] ∧ (s.nodes a).leader = "" ∨ ∃ x, Follows s a x

/-! ### What a node learns in a step -/

/-- The election of a success message that the node accepts in this step. -/
def hears? (a : String) (s : Net (db cl)) (l : Label Db) : Option (ℤ × String) :=
  match s.executed? l with
  | some (d, .success q) =>
    if d = a ∧ q.key = "leader" ∧ Current q (s.nodes a) then some (q.round, q.value) else none
  | _ => none

/-- The success message for the register that the node sends to itself is executed while its attempt
waits, and the node has not logged a larger round. -/
def HearsItself (a : String) (s : Net (db cl)) : Label Db → Prop
  | .step i o => ∀ p ∈ s.acts[i]?, p.node = a → ∀ m ∈ p.prog.action?, m.1 = some a →
      ∀ q ∈ m.2.success?, q.key = "leader" → o.Executed ∧ Current q (s.nodes a)
  | _ => True

/-- The activation is the attempt of an election of the node `a`. It has sent its success message to
the node itself, and `elect_leader` has not assigned the register yet. -/
def Electing (a : String) (s : Net (db cl)) (p : Activation Db) : Prop :=
  p.node = a ∧ p.task = .attemptConsensus (electRequest "leader" a) ∧
    (∃ e ∈ p.hist, ∃ m ∈ sentSuccess? e, m.1 = a) ∧ ∃ i ∈ p.origin, ∃ p' ∈ s.acts[i]?, ¬ p'.Done

/-- While the node is electing, it accepts no success message for the register. -/
def NotBetween (a : String) (s : Net (db cl)) (l : Label Db) : Prop :=
  (hears? a s l).isSome → ∀ p ∈ s.acts, ¬ Electing a s p

instance (a : String) (s : Net (db cl)) : DecidablePred (HearsItself a s)
  | .step i o => inferInstanceAs (Decidable (∀ p ∈ s.acts[i]?, p.node = a →
      ∀ m ∈ p.prog.action?, m.1 = some a → ∀ q ∈ m.2.success?, q.key = "leader" →
        o.Executed ∧ Current q (s.nodes a)))
  | .submit _ _ | .deliver _ | .restart _ => inferInstanceAs (Decidable True)

instance (a : String) (s : Net (db cl)) (p : Activation Db) : Decidable (Electing a s p) :=
  inferInstanceAs (Decidable (_ ∧ _ ∧ (∃ e ∈ p.hist, ∃ m ∈ sentSuccess? e, m.1 = a) ∧
    ∃ i ∈ p.origin, ∃ p' ∈ s.acts[i]?, ¬ p'.Done))

instance (a : String) (s : Net (db cl)) (l : Label Db) : Decidable (NotBetween a s l) :=
  inferInstanceAs (Decidable (_ → _))

/-- Clients call the procedures, and no node restarts. -/
def Calls (s : Net (db cl)) (l : Label Db) : Prop := l.NoRestart ∧ ClientCalls s l

instance (s : Net (db cl)) (l : Label Db) : Decidable (Calls s l) :=
  inferInstanceAs (Decidable (_ ∧ _))

/-- **The elections of the node are not disturbed.** -/
def Undisturbed (a : String) (s : Net (db cl)) (l : Label Db) : Prop :=
  Calls s l ∧ HearsItself a s l ∧ NotBetween a s l

instance (a : String) (s : Net (db cl)) (l : Label Db) : Decidable (Undisturbed a s l) :=
  inferInstanceAs (Decidable (_ ∧ _ ∧ _))

section Runs

variable {C : Net (db cl) → Label Db → Prop} {s s' : Net (db cl)} {l : Label Db} {a : String}

theorem hears?_eq_some_iff {x : ℤ × String} : hears? a s l = some x ↔
    ∃ q, s.executed? l = some (a, .success q) ∧ q.key = "leader" ∧ Current q (s.nodes a) ∧
      x = (q.round, q.value) := by
  constructor
  · intro h
    rw [hears?] at h
    split at h
    · rename_i d q hex
      obtain ⟨⟨rfl, hkey, hcur⟩, hx⟩ := Option.ite_none_right_eq_some.1 h
      exact ⟨q, hex, hkey, hcur, (Option.some.inj hx).symm⟩
    · cases h
  · rintro ⟨q, hex, hkey, hcur, rfl⟩
    rw [hears?, hex]
    exact if_pos ⟨rfl, hkey, hcur⟩

/-- Nobody runs `coordinate` in a run without restarts. -/
theorem Calls.task_ne_coordinate (h : Reach Calls (cl.start fun _ ↦ {}) s) {i : ℕ}
    {p : Activation Db} (hp : s.acts[i]? = some p) : p.task ≠ .coordinate :=
  ReplicatedDB.task_ne_coordinate rfl (fun _ _ hl ↦ hl.1)
    (fun _ _ _ hl ↦ ofClient_ne_coordinate hl.2) h hp

/-- Every node elects itself. -/
theorem Calls.electLeader (h : Reach Calls (cl.start fun _ ↦ {}) s) {i : ℕ} {p : Activation Db}
    (hp : s.acts[i]? = some p) {key value : String} (ht : p.task = .electLeader key value) :
    key = "leader" ∧ value = p.node := by
  refine h.invariant (I := fun s ↦ ∀ (i : ℕ) (p : Activation Db), s.acts[i]? = some p →
    p.task = .electLeader key value → key = "leader" ∧ value = p.node) (by simp) ?_ i p hp ht
  rintro s l s' hr - ih hl hs i p' hp' ht
  rcases hs.activation hp' with hp | ⟨-, n, t, origin, rfl, hopen⟩ | ⟨p, hp, rfl, -⟩ |
    ⟨p, hp, rfl, -⟩ | ⟨p, c, k, r, hp, -, -, rfl, -⟩
  · exact ih i p' hp ht
  · obtain rfl : t = .electLeader key value := ht
    show key = "leader" ∧ value = n
    rcases hopen with ⟨rfl, -⟩ | ⟨rfl, -⟩ | ⟨i, p, dest, k, -, hp, -, hc, -, rfl, -⟩
    · exact hl.2
    · exact absurd hl.1 id
    · obtain ⟨rfl, hself⟩ := dest_of_elect (((contract cl).lawful rfl hr i p hp).emits hc)
      exact hself
  · exact ih i p hp ht
  · exact ih i p hp ht
  · exact ih i p hp ht

/-- So only `elect_leader` assigns the register, after an attempt that was OK. -/
theorem elect_of_writeLeader (h : Reach Calls (cl.start fun _ ↦ {}) s) {i : ℕ}
    {p : Activation Db} (hp : s.acts[i]? = some p) {dest : Option String} {v : String}
    {k : Unit → Program Reply} (hc : p.prog = .call (.act dest (.writeLeader v)) k) :
    ∃ rep : Reply, attempted (electRequest "leader" p.node) rep ∈ p.hist ∧ rep.status.Ok ∧
      v = rep.response.value := by
  obtain ⟨-, hcoord | ⟨key, value, rep, htask, hhist, hok, hv⟩⟩ :=
    writeLeader_of_emits (((contract cl).lawful rfl h i p hp).emits hc)
  · exact absurd hcoord (Calls.task_ne_coordinate h hp)
  · obtain ⟨rfl, rfl⟩ := Calls.electLeader h hp htask
    exact ⟨rep, hhist ▸ List.mem_singleton_self _, hok, hv⟩

/-- The election that is told in an answer. -/
theorem told?_success {d : String} {q : Request} {x : Status} {caller : Option ℕ} :
    told? a ⟨d, .success q, x, caller⟩ =
      if d = a ∧ q.key = "leader" ∧ x.Ok then some (q.round, q.value) else none := rfl

/-- **What a step tells the node**: the election of the message it accepts. -/
theorem told_step (h : Reach C (cl.start fun _ ↦ {}) s) (hs : Step s l s') :
    told s' a = told s a ++ (hears? a s l).toList := by
  rcases hs.filterMap_served (told? a) with ⟨hex, heq⟩ | ⟨d, b, caller, hex, heq, -⟩
  · rw [told, heq, hears?, hex, Option.toList_none, List.append_nil, told]
  have hsound := sound_of_requested rfl rfl h (hs.executed hex)
  have hhears : told? a ⟨d, b, (act b (s.nodes d)).1, caller⟩ = hears? a s l := by
    rw [hears?, hex]
    cases b with
    | success q =>
      have hans : (act (.success q) (s.nodes d)).1 =
          if Current q (s.nodes d) then {} else .aborted "Information is outdated." :=
        success_answer q (s.nodes d) ((by decide : intMin ≤ 0).trans hsound.2)
      rw [hans, told?_success]
      refine if_congr (and_congr_right ?_) rfl rfl
      rintro rfl
      refine and_congr_right fun _ ↦ ?_
      by_cases hcur : Current q (s.nodes d)
      · simp [hcur]
      · simp [hcur]
    | _ => rfl
  rw [told, heq, told, ← hhears]

/-- What was told stays told. -/
theorem told_mono (h : Reach C (cl.start fun _ ↦ {}) s) (h' : Reach C s s') {x : ℤ × String}
    (hx : x ∈ told s a) : x ∈ told s' a := by
  induction h' with
  | refl => exact hx
  | tail hr hs ih =>
    obtain ⟨l, -, hstep⟩ := hs
    rw [told_step (h.trans hr) (.of_step hstep)]
    exact List.mem_append_left _ ih

/-- The elections that the node was told of are logged. -/
theorem logged_of_told (h : Reach Calls (cl.start fun _ ↦ {}) s) :
    ∀ x ∈ told s a, x.1 ∈ ((s.nodes a).log "leader").keys := by
  refine h.invariant (I := fun s ↦ ∀ x ∈ told s a, x.1 ∈ ((s.nodes a).log "leader").keys)
    (fun _ hx ↦ absurd hx List.not_mem_nil) ?_
  intro s l s' hr _ ih hl hs x hx
  rw [told_step hr hs] at hx
  rcases List.mem_append.1 hx with hx | hx
  · exact keys_mono hs hl.1 (ih x hx)
  · obtain ⟨q, hex, hkey, -, rfl⟩ := hears?_eq_some_iff.1 (Option.mem_toList.1 hx)
    rw [replica_executed hs hex, mem_keys_act]
    exact .inr (congrArg some (Prod.ext hkey rfl))

/-- An attempt that has returned OK has sent its success message to all members. -/
theorem sent_of_returned (h : Reach C (cl.start fun _ ↦ {}) s) (ha : a ∈ cl.memberList) {j : ℕ}
    {p : Activation Db} (hp : s.acts[j]? = some p) {r : Request}
    (ht : p.task = .attemptConsensus r) {rep : Reply} (hret : p.Returned rep)
    (hok : rep.status.Ok) : Sent p.hist a (.success (successRequest r.key rep.response)) := by
  have hreturns := ((contract cl).lawful rfl h j p hp).returns hret
  rw [ht] at hreturns
  obtain ⟨-, ⟨-, qa, -, hresponse, hsent⟩ | ⟨rfl, -⟩⟩ := hreturns
  · rw [hresponse]
    exact hsent a ha
  · exact absurd hok (Status.not_ok_aborted _)

theorem won?_eq_some_iff {p : Activation Db} {x : ℤ × String} : won? a p = some x ↔
    ∃ r rep, p.task = .attemptConsensus r ∧ p.Returned rep ∧ p.node = a ∧ r.key = "leader" ∧
      rep.status.Ok ∧ x = (rep.response.round, rep.response.value) := by
  constructor
  · intro h
    rw [won?] at h
    split at h
    · rename_i r rep htask hret
      obtain ⟨⟨hnode, hkey, hok⟩, hx⟩ := Option.ite_none_right_eq_some.1 h
      exact ⟨r, rep, request?_eq_some_iff.1 htask, Prog.result?_eq_some_iff.1 hret, hnode, hkey,
        hok, (Option.some.inj hx).symm⟩
    · cases h
  · rintro ⟨r, rep, htask, hret, hnode, hkey, hok, rfl⟩
    rw [won?, request?_eq_some_iff.2 htask, Prog.result?_eq_some_iff.2 hret]
    exact if_pos ⟨hnode, hkey, hok⟩

/-! ### Undisturbed elections -/

/-- The node accepts its own success message. -/
theorem HearsItself.hears (hl : HearsItself a s l) {j : ℕ} {p : Activation Db}
    (hp : s.acts[j]? = some p) (hnode : p.node = a) {q : Request} {k : Status → Program Reply}
    (hc : p.prog = .call (.act (some a) (.success q)) k) {x : Status}
    (hans : s.Answers l j p (.act (some a) (.success q)) x) (hkey : q.key = "leader") :
    hears? a s l = some (q.round, q.value) := by
  obtain ⟨o, rfl, -, -⟩ := hans
  obtain ⟨hexec, hcur⟩ :=
    hl p hp hnode (some a, .success q) (by rw [hc]; exact rfl) rfl q rfl hkey
  exact hears?_eq_some_iff.2 ⟨q, executed?_of_executed hp hc hexec, hkey, hcur, rfl⟩

/-- **The node is told of its own elections**, as soon as their success message is sent to it. -/
theorem told_of_sent (h : Reach (Undisturbed a) (cl.start fun _ ↦ {}) s) {j : ℕ}
    {p : Activation Db} (hp : s.acts[j]? = some p) (hnode : p.node = a) {q : Request}
    (hkey : q.key = "leader") (hsent : Sent p.hist a (.success q)) :
    (q.round, q.value) ∈ told s a := by
  refine h.invariant (I := fun s ↦ ∀ (j : ℕ) (p : Activation Db), s.acts[j]? = some p →
    p.node = a → Sent p.hist a (.success q) → (q.round, q.value) ∈ told s a) (by simp) ?_ j p hp
      hnode hsent
  rintro s l s' hr - ih hl hs j p' hp' hnode ⟨x, hx⟩
  rw [told_step hr hs]
  obtain ⟨p, hp, hnode', -, hx | ⟨c, k, y, -, hc, heq, hans⟩⟩ := hs.event hp' hx
  · exact List.mem_append_left _ (ih j p hp (hnode'.symm.trans hnode) ⟨x, hx⟩)
  · obtain ⟨rfl, -⟩ := Sigma.mk.inj heq
    refine List.mem_append_right _ (Option.mem_toList.2 ?_)
    exact hl.2.1.hears hp (hnode'.symm.trans hnode) hc hans hkey

/-- So what the node has learned is what it was told. -/
theorem mem_learned_iff (h : Reach (Undisturbed a) (cl.start fun _ ↦ {}) s)
    (ha : a ∈ cl.memberList) {x : ℤ × String} : x ∈ learned s a ↔ x ∈ told s a := by
  refine ⟨fun hx ↦ ?_, List.mem_append_left _⟩
  rcases List.mem_append.1 hx with hx | hx
  · exact hx
  · obtain ⟨j, p, hp, hx⟩ := mem_filterMap_acts.1 hx
    obtain ⟨r, rep, htask, hret, hnode, hkey, hok, rfl⟩ := won?_eq_some_iff.1 hx
    exact told_of_sent h hp hnode (q := successRequest r.key rep.response) hkey
      (sent_of_returned h ha hp htask hret hok)

/-- **What holds along the run**: the register names the leader of the newest election that the node
was told of, and while the node is electing, this is its own election. -/
structure TracksElections (a : String) (s : Net (db cl)) : Prop where
  newest : told s a = [] ∧ (s.nodes a).leader = "" ∨
    ∃ x, Newest (told s a) (s.nodes a).leader x
  electing : ∀ (j : ℕ) (p : Activation Db), s.acts[j]? = some p → Electing a s p →
    ∀ q, Sent p.hist a (.success q) → Newest (told s a) (s.nodes a).leader (q.round, q.value)

/-- **`elect_leader` assigns what the register holds already.** -/
theorem leader_of_assigned (h : Reach Calls (cl.start fun _ ↦ {}) s) (ha : a ∈ cl.memberList)
    (htracks : TracksElections a s) (hs : Step s l s') {v : String}
    (hex : s.executed? l = some (a, .writeLeader v)) : v = (s.nodes a).leader := by
  rcases hs.executed_by hex with ⟨i, o, p, dest, k, y, rfl, -, hp, hc, hnode, -⟩ | hm
  case inr => exact absurd hm (not_late_writeLeader h)
  obtain ⟨p₁, c, k₁, hp₁, halive, hc₁, -⟩ := hs.moved
  obtain rfl := Option.some.inj (hp.symm.trans hp₁)
  obtain ⟨rep, hmem, hok, rfl⟩ := elect_of_writeLeader h hp hc
  obtain rfl : dest = none :=
    (writeLeader_of_emits (((contract cl).lawful rfl h i p hp).emits hc)).1
  obtain rfl : a = p.node := hnode
  -- the attempt that it has called
  obtain ⟨j, q, hq, htask, hqnode, horigin, hret⟩ | ⟨hdest, -⟩ := h.invoked rfl hp hmem
  · have hsent := sent_of_returned h ha hq htask hret hok
    have helecting : Electing p.node s q := by
      obtain ⟨x, hx⟩ := hsent
      exact ⟨hqnode, htask, ⟨_, hx, _, rfl, rfl⟩, i, horigin, p, hp, Activation.not_done halive hc⟩
    exact (htracks.electing j q hq helecting _ hsent).2.1
  · cases hdest

/-- **What a step does to the register**: it then names the leader of the election that the node
hears of, if there is one. -/
theorem leader_step (h : Reach Calls (cl.start fun _ ↦ {}) s) (ha : a ∈ cl.memberList)
    (htracks : TracksElections a s) (hl : l.NoRestart) (hs : Step s l s') :
    (s'.nodes a).leader = ((hears? a s l).map Prod.snd).getD (s.nodes a).leader := by
  rcases hhears : hears? a s l with _ | x
  · show (s'.nodes a).leader = (s.nodes a).leader
    rcases replica_step hs a with hnode | ⟨b, hex, hnode⟩ | ⟨rfl, -⟩
    · rw [hnode]
    · rw [hnode]
      rcases leader_act b (s.nodes a) (sound_of_requested rfl rfl h (hs.executed hex)) with
        hsame | ⟨q, rfl, hcur, hkey, -⟩ | ⟨v, rfl, hv⟩
      · exact hsame
      · cases hhears.symm.trans (hears?_eq_some_iff.2 ⟨q, hex, hkey, hcur, rfl⟩)
      · exact hv.trans (leader_of_assigned h ha htracks hs hex)
    · exact absurd hl id
  · obtain ⟨q, hex, hkey, hcur, rfl⟩ := hears?_eq_some_iff.1 hhears
    have hround := (sound_of_requested rfl rfl h (hs.executed hex)).2
    have hstate : (act (.success q) (s.nodes a)).2 = _ :=
      success_state q (s.nodes a) ((by decide : intMin ≤ 0).trans hround)
    rw [replica_executed hs hex, hstate]
    exact if_pos ⟨hcur, hkey⟩

/-- An attempt of the node that is electing after a step was electing before, or the node accepts
its success message now. -/
theorem electing_step (h : Reach Calls (cl.start fun _ ↦ {}) s) (hl : HearsItself a s l)
    (hs : Step s l s') {j : ℕ} {p' : Activation Db} (hp' : s'.acts[j]? = some p')
    (helecting : Electing a s' p') {q : Request} (hsent : Sent p'.hist a (.success q)) :
    hears? a s l = some (q.round, q.value) ∨
      ∃ p, s.acts[j]? = some p ∧ Electing a s p ∧ Sent p.hist a (.success q) := by
  obtain ⟨x, hx⟩ := hsent
  obtain ⟨hnode', htask', -, i, hi, pi', hpi', hdone⟩ := helecting
  obtain ⟨p, hp, hnode, htask, hx | ⟨c, k, y, -, hc, heq, hans⟩⟩ := hs.event hp' hx
  · obtain ⟨p'', hp'', -, -, horigin, -⟩ := hs.keeps hp
    obtain rfl := Option.some.inj (hp'.symm.trans hp'')
    rw [horigin] at hi
    obtain ⟨pi, hpi⟩ : ∃ pi, s.acts[i]? = some pi :=
      ⟨_, List.getElem?_eq_getElem ((h.origin_lt rfl hp hi).trans (lt_length hp))⟩
    exact .inr ⟨p, hp, ⟨hnode.symm.trans hnode', htask.symm.trans htask', ⟨_, hx, _, rfl, rfl⟩,
      i, hi, pi, hpi, fun hold ↦ hdone (hs.done hpi hpi' hold)⟩, x, hx⟩
  · obtain ⟨rfl, -⟩ := Sigma.mk.inj heq
    obtain ⟨r, -, hr, -, -, -, hkey, -⟩ := attempt_of_call rfl h hp hc rfl
    rw [htask', hr] at htask
    obtain rfl := Task.attemptConsensus.inj htask
    exact .inl (hl.hears hp (hnode.symm.trans hnode') hc hans hkey.symm)

/-- **A step** in a run in which the elections of the node are not disturbed. -/
theorem TracksElections.step (h : Reach Calls (cl.start fun _ ↦ {}) s) (ha : a ∈ cl.memberList)
    (hl : Undisturbed a s l) (hs : Step s l s') (ih : TracksElections a s) :
    TracksElections a s' := by
  obtain ⟨hcalls, hitself, hbetween⟩ := hl
  have hleader := leader_step h ha ih hcalls.1 hs
  have htold := told_step (a := a) h hs
  rcases hhears : hears? a s l with _ | x
  · -- nothing is told, and the register stays
    rw [hhears] at hleader htold
    rw [Option.toList_none, List.append_nil] at htold
    have hleader : (s'.nodes a).leader = (s.nodes a).leader := hleader
    refine ⟨by rw [htold, hleader]; exact ih.newest, fun j p' hp' helecting q hsent ↦ ?_⟩
    rw [htold, hleader]
    rcases electing_step h hitself hs hp' helecting hsent with hnow | ⟨p, hp, helecting, hsent⟩
    · cases hhears.symm.trans hnow
    · exact ih.electing j p hp helecting q hsent
  · -- the message is accepted, so all that the node was told of is older
    have hnewest : Newest (told s' a) (s'.nodes a).leader x := by
      rw [hleader, htold, hhears]
      refine ⟨by simp, rfl, fun y hy ↦ ?_⟩
      rcases List.mem_append.1 hy with hold | hy
      · obtain ⟨q, -, hkey, hcur, rfl⟩ := hears?_eq_some_iff.1 hhears
        exact hcur _ (hkey ▸ logged_of_told h y hold)
      · obtain rfl : x = y := Option.some.inj (Option.mem_toList.1 hy)
        exact le_rfl
    refine ⟨.inr ⟨x, hnewest⟩, fun j p' hp' helecting q hsent ↦ ?_⟩
    rcases electing_step h hitself hs hp' helecting hsent with hnow | ⟨p, hp, helecting, -⟩
    · obtain rfl := Option.some.inj (hhears.symm.trans hnow)
      exact hnewest
    · exact absurd helecting (hbetween (by rw [hhears]; rfl) p (List.mem_of_getElem? hp))

end Runs

/-- **The register follows the newest election** that a member has learned of, in every run in which
its elections are not disturbed, and from then on it never goes back to an older one. -/
theorem followsNewest_of_undisturbed {a : String} (ha : a ∈ cl.memberList) {s : Net (db cl)}
    (h : Reach (Undisturbed a) (cl.start fun _ ↦ {}) s) :
    FollowsNewest a s ∧ ∀ s', Reach (Undisturbed a) s s' → ∀ x, Follows s a x →
      ∃ y, Follows s' a y ∧ x.1 ≤ y.1 := by
  have hfollows : ∀ s, Reach (Undisturbed a) (cl.start fun _ ↦ {}) s → FollowsNewest a s := by
    intro s h
    have htracks : TracksElections a s :=
      h.invariant (I := TracksElections a) ⟨.inl ⟨rfl, rfl⟩, by simp⟩ fun _ _ _ hr _ ih hl hs ↦
        ih.step (hr.mono fun _ _ hl ↦ hl.1) ha hl hs
    rcases htracks.newest with ⟨hnil, hempty⟩ | ⟨x, hx, hreg, hle⟩
    · refine .inl ⟨List.eq_nil_iff_forall_not_mem.2 fun x hx ↦ ?_, hempty⟩
      rw [mem_learned_iff h ha, hnil] at hx
      exact List.not_mem_nil hx
    · exact .inr ⟨x, (mem_learned_iff h ha).2 hx, hreg, fun y hy ↦
        hle y ((mem_learned_iff h ha).1 hy)⟩
  refine ⟨hfollows s h, fun s' h' x hx ↦ ?_⟩
  have hx' : x ∈ learned s' a :=
    (mem_learned_iff (h.trans h') ha).2 (told_mono h h' ((mem_learned_iff h ha).1 hx.1))
  rcases hfollows s' (h.trans h') with ⟨hnil, -⟩ | ⟨y, hy⟩
  · rw [hnil] at hx'
    exact absurd hx' List.not_mem_nil
  · exact ⟨y, hy, hy.2.2 x hx'⟩

/-! ### Runs of three nodes -/

/-- `a:1` is elected, then `b:1`, whose election it follows. -/
theorem followsNewest_trio : ∃ s, Reach (Undisturbed "a:1") (trio.start fun _ ↦ {}) s ∧
    learned s "a:1" = [(0, "a:1"), (1, "b:1"), (0, "a:1")] ∧ (s.nodes "a:1").leader = "b:1" ∧
    FollowsNewest "a:1" s := by
  obtain ⟨s, hs, hlearned, hleader⟩ : ∃ s,
      Reach (Undisturbed "a:1") (trio.start fun _ ↦ {}) s ∧
      learned s "a:1" = [(0, "a:1"), (1, "b:1"), (0, "a:1")] ∧ (s.nodes "a:1").leader = "b:1" :=
    Reach.exists_of_steps (by
      decide +kernel : ((trio.start fun _ ↦ {}).steps (Undisturbed "a:1")
        (election "a:1" 0 ++ election "b:1" 2)).any _ = true)
  exact ⟨s, hs, hlearned, hleader, (followsNewest_of_undisturbed (by decide) hs).1⟩

/-- **The register goes back to an older election**: the attempt of `a:1` has returned OK in round
0, `b:1` is elected in round 1, and then `elect_leader` at `a:1` stores its own value. -/
theorem not_followsNewest_trio : ∃ s, Reach Calls (trio.start fun _ ↦ {}) s ∧
    learned s "a:1" = [(0, "a:1"), (1, "b:1"), (0, "a:1")] ∧ (s.nodes "a:1").leader = "a:1" ∧
    ¬ FollowsNewest "a:1" s := by
  obtain ⟨s, hs, hlearned, hleader⟩ : ∃ s, Reach Calls (trio.start fun _ ↦ {}) s ∧
      learned s "a:1" = [(0, "a:1"), (1, "b:1"), (0, "a:1")] ∧ (s.nodes "a:1").leader = "a:1" :=
    Reach.exists_of_steps (by
      decide +kernel : ((trio.start fun _ ↦ {}).steps Calls
        ([.submit "a:1" (.electLeader "leader" "a:1")] ++ calls 1 0 ++ calls 13 1 ++
          election "b:1" 2 ++ calls 2 0)).any _ = true)
  refine ⟨s, hs, hlearned, hleader, ?_⟩
  rintro (⟨hnil, -⟩ | ⟨x, hx, hreg, hle⟩)
  · rw [hnil] at hlearned
    cases hlearned
  · rw [hlearned] at hx hle
    rw [hleader] at hreg
    simp only [List.mem_cons, List.not_mem_nil, or_false] at hx
    have hnewest := hle (1, "b:1") (by simp)
    rcases hx with rfl | rfl | rfl
    · exact absurd hnewest (by decide)
    · exact absurd hreg (by decide)
    · exact absurd hnewest (by decide)

/-- **The register is late**: the success message of `a:1` to itself is lost, and its attempt
returns OK while the register of `a:1` names nobody. -/
theorem not_followsNewest_of_lost_trio : ∃ s, Reach Calls (trio.start fun _ ↦ {}) s ∧
    learned s "a:1" = [(0, "a:1")] ∧ (s.nodes "a:1").leader = "" ∧ ¬ FollowsNewest "a:1" s := by
  obtain ⟨s, hs, hlearned, hleader⟩ : ∃ s, Reach Calls (trio.start fun _ ↦ {}) s ∧
      learned s "a:1" = [(0, "a:1")] ∧ (s.nodes "a:1").leader = "" :=
    Reach.exists_of_steps (by
      decide +kernel : ((trio.start fun _ ↦ {}).steps Calls
        ([.submit "a:1" (.electLeader "leader" "a:1")] ++ calls 1 0 ++ calls 10 1 ++
          [.step 1 .requestLost] ++ calls 2 1)).any _ = true)
  refine ⟨s, hs, hlearned, hleader, ?_⟩
  rintro (⟨hnil, -⟩ | ⟨x, hx, hreg, -⟩)
  · rw [hnil] at hlearned
    cases hlearned
  · rw [hlearned] at hx
    obtain rfl := List.mem_singleton.1 hx
    exact absurd (hreg.trans hleader) (by decide)

end ReplicatedDB
