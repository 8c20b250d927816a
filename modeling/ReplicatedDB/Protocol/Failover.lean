import ReplicatedDB.Protocol.Deposed
import ReplicatedDB.Protocol.Resend

/-!
# When a follower elects itself

A node that is not the leader forwards a get or a set, and triggers an election if that fails. By
its messages the leader is unresponsive then, but the test is on the status, and a leader that
answers may well answer that it has missed a quorum. So a leader that is up and in touch with the
follower is deposed (`not_leavesLeaders_trio`).

If everything that is forwarded on behalf of a request is answered with OK, then no election is
started and no leader register changes, and an election is triggered in all other cases
(`leavesLeaders_of_answersOk`).
-/

namespace ReplicatedDB

open Rpc Rpc.Net

variable {cl : Cluster}

/-! ### Forwarded requests -/

instance : DecidablePred Task.Forwarded
  | .set _ _ | .get _ => inferInstanceAs (Decidable True)
  | .attemptConsensus _ | .electLeader _ _ | .coordinate => inferInstanceAs (Decidable False)

/-- The forwarded request was answered with a status that is not OK, or was not answered. -/
def FailedAnswer (t : Task) : Event Db → Prop
  | ⟨.invoke (some _) t', rep⟩ => t' = t ∧ ¬ Status.Ok (Reply.status rep)
  | _ => False

instance (t : Task) : DecidablePred (FailedAnswer t)
  | ⟨.invoke (some _) t', rep⟩ =>
    inferInstanceAs (Decidable (t' = t ∧ ¬ Status.Ok (Reply.status rep)))
  | ⟨.invoke none _, _⟩ | ⟨.act _ _, _⟩ => inferInstanceAs (Decidable False)

/-- A call of `trigger_election`. -/
def Triggers : Event Db → Prop
  | ⟨.invoke _ (.electLeader _ _), _⟩ => True
  | _ => False

/-- The handler of the request `t` has got no OK for what it has forwarded. -/
def Failed (t : Task) (h : History) : Prop := ∃ e ∈ h, FailedAnswer t e

instance (t : Task) (h : History) : Decidable (Failed t h) :=
  inferInstanceAs (Decidable (∃ e ∈ h, _))

/-- The handler has triggered an election. -/
def Triggered (h : History) : Prop := ∃ e ∈ h, Triggers e

/-- A handler triggers an election only if it has got no OK, -/
def triggerEmits (t : Task) (h : History) : Call Db → Prop
  | .invoke _ (.electLeader _ _) => Failed t h
  | _ => True

/-- and then it does. -/
def triggerReturns (t : Task) (h : History) (_ : Reply) : Prop := Failed t h → Triggered h

theorem not_failed_nil {t : Task} : ¬ Failed t [] := by
  rintro ⟨e, hmem, -⟩
  cases hmem

theorem not_failed_append {t : Task} {h : History} (hh : ¬ Failed t h) {e : Event Db}
    (he : ¬ FailedAnswer t e) : ¬ Failed t (h ++ [e]) := by
  rintro ⟨e', hmem, hfail⟩
  rcases List.mem_append.1 hmem with hmem | hmem
  · exact hh ⟨e', hmem, hfail⟩
  · exact he (List.mem_singleton.1 hmem ▸ hfail)

theorem Failed.mono {t : Task} {h h' : History} (hf : Failed t h) (hsub : h ⊆ h') :
    Failed t h' := by
  obtain ⟨e, hmem, he⟩ := hf
  exact ⟨e, hsub hmem, he⟩

/-- What is forwarded is not an election. -/
theorem triggerEmits_of_forwarded {t t' : Task} (ht : t'.Forwarded) (h : History)
    (dest : Option String) : triggerEmits t h (.invoke dest t') := by
  cases t' <;> trivial

theorem forward_triggers {members : List String} {me : String} {t : Task} (ht : t.Forwarded)
    {answer : Reply → Reply} {h : History} (hh : ¬ Failed t h) :
    Sat (fun _ _ ↦ True) (triggerEmits t) (triggerReturns t) (forward members me t answer) h := by
  have hread : ∀ v, ¬ Failed t (h ++ [readLeaderIs v]) := fun v ↦ not_failed_append hh id
  refine ⟨trivial, fun leader _ ↦ Sat.ite (fun _ ↦ ?_) fun _ hf ↦ absurd hf (hread leader)⟩
  refine ⟨triggerEmits_of_forwarded ht _ _, fun rep _ ↦ Sat.ite (fun hok ↦ ?_) fun hok ↦ ?_⟩
  · exact fun hf ↦ absurd hf (not_failed_append (hread leader) fun hfail ↦ hfail.2 hok)
  have hfailed : Failed t ((h ++ [readLeaderIs leader]) ++ [⟨.invoke (some leader) t, rep⟩]) :=
    ⟨_, List.mem_append_right _ (List.mem_singleton_self _), rfl, hok⟩
  refine ⟨hfailed, fun election _ ↦ ?_⟩
  -- an election was triggered, so nothing is asked any more
  refine Sat.of_extended (I := fun h ↦ Failed t h ∧ Triggered h) ?_ ?_ ?_ _ _ ⟨?_, ?_⟩
  · rintro h e ⟨hf, e', hmem, he'⟩
    exact ⟨hf.mono (List.subset_append_left _ _), e', List.mem_append_left _ hmem, he'⟩
  · rintro h (⟨dest, a⟩ | ⟨dest, t'⟩) ⟨hf, -⟩
    · trivial
    · cases t' <;> first | exact hf | trivial
  · exact fun h _ hI _ ↦ hI.2
  · exact hfailed.mono (List.subset_append_left _ _)
  · exact ⟨_, List.mem_append_right _ (List.mem_singleton_self _), trivial⟩

theorem set_triggers (members : List String) (me key value : String) :
    Sat (fun _ _ ↦ True) (triggerEmits (.set key value)) (triggerReturns (.set key value))
      (set members me key value) [] := by
  have hread : ∀ v, ¬ Failed (.set key value) [readLeaderIs v] := fun v ↦
    not_failed_append not_failed_nil id
  rw [set, Prog.here_bind]
  refine ⟨trivial, fun addr _ ↦ Sat.ite (fun _ ↦ ?_) fun _ ↦ Sat.ite (fun _ ↦ ?_) fun _ ↦ ?_⟩
  · exact fun hf ↦ absurd hf (hread addr)
  · exact ⟨trivial, fun rep _ hf ↦ absurd hf (not_failed_append (hread addr) id)⟩
  · exact forward_triggers (show Task.Forwarded (.set key value) from trivial) (hread addr)

theorem get_triggers (members : List String) (me key : String) :
    Sat (fun _ _ ↦ True) (triggerEmits (.get key)) (triggerReturns (.get key))
      (get members me key) [] := by
  have hread : ∀ v, ¬ Failed (.get key) [readLeaderIs v] := fun v ↦
    not_failed_append not_failed_nil id
  rw [get, Prog.here_bind]
  refine ⟨trivial, fun addr _ ↦ Sat.ite (fun _ ↦ ?_) fun _ ↦ Sat.ite (fun _ ↦ ?_) fun _ ↦ ?_⟩
  · exact fun hf ↦ absurd hf (hread addr)
  · have hget : ∀ x, ¬ Failed (.get key)
        ([readLeaderIs addr] ++ [⟨.act none (Act.getKV key), x⟩]) :=
      fun x ↦ not_failed_append (hread addr) id
    exact ⟨trivial, fun x _ ↦ Sat.ite (fun _ hf ↦ absurd hf (hget x)) fun _ hf ↦
      absurd hf (hget x)⟩
  · exact forward_triggers (show Task.Forwarded (.get key) from trivial) (hread addr)

/-- The contract that says when handlers trigger an election. -/
def triggerContract (cl : Cluster) : Rpc.Contract (db cl) where
  rely _ _ := True
  emits _ t := if t.Forwarded then triggerEmits t else fun _ _ ↦ True
  returns _ t := if t.Forwarded then triggerReturns t else fun _ _ ↦ True
  rely_act _ _ _ := trivial
  rely_lost _ _ := trivial
  rely_invoke _ _ _ := trivial
  body_sat me t := by
    cases t with
    | set key value => exact set_triggers cl.memberList me key value
    | get key => exact get_triggers cl.memberList me key
    | _ => exact Sat.of_forall (fun _ _ ↦ trivial) (fun _ _ ↦ trivial) _ _

theorem triggerContract_of_forwarded {t : Task} (ht : t.Forwarded) (me : String) :
    (triggerContract cl).emits me t = triggerEmits t ∧
      (triggerContract cl).returns me t = triggerReturns t :=
  ⟨if_pos ht, if_pos ht⟩

/-! ### What runs on behalf of a request -/

/-- Everything that was forwarded on behalf of the request `c` was answered with OK. -/
def AnswersOk (s : Net (db cl)) (c : ℕ) : Prop :=
  ∀ j < s.acts.length, c ∈ s.lineage j → ∀ q ∈ s.acts[j]?, ¬ Failed q.task q.hist

instance (s : Net (db cl)) (c : ℕ) : Decidable (AnswersOk s c) :=
  inferInstanceAs (Decidable (∀ _ < _, _))

/-- A step of what runs on behalf of the request: an activation makes its next call, or what it has
called is executed late. -/
def StepFor (s : Net (db cl)) (c : ℕ) : Label Db → Prop
  | .step j _ => c ∈ s.lineage j
  | .deliver i => ∃ m ∈ s.late[i]?, ∃ j, c ∈ s.lineage j ∧ s.CalledBy j m.1 m.2
  | .submit _ _ | .restart _ => False

/-- **The leader is left alone** when the request is handled. -/
structure LeavesLeaders (s : Net (db cl)) (c : ℕ) : Prop where
  /-- No election is started, -/
  election : ∀ (j : ℕ) (q : Activation Db), s.acts[j]? = some q → c ∈ s.lineage j →
    ∀ key value, q.task ≠ .electLeader key value
  /-- and no step changes a register. -/
  register : ∀ l s', StepFor s c l → Step s l s' → ∀ d, (s'.nodes d).leader = (s.nodes d).leader

/-- The status of a request that a follower has forwarded, if the node that its register names has
executed it and the status has reached the follower. -/
def leaderAnswer? (p : Activation Db) : Option Status :=
  match p.hist with
  | ⟨.act none .readLeader, (addr : String)⟩ :: ⟨.act none .readLeader, (leader : String)⟩ ::
      ⟨.invoke (some d) t, (rep : Reply)⟩ :: _ =>
    if addr ≠ p.node ∧ d = leader ∧ t = p.task ∧ rep.status ≠ .unavailable then some rep.status
    else none
  | _ => none

section Runs

variable {C : Net (db cl) → Label Db → Prop} {nodes : String → Replica} {s s' : Net (db cl)}
  {l : Label Db} {c : ℕ} {p : Activation Db}

/-- The tasks that run on behalf of a request that triggers no election: it is passed on, until it
is handled by an attempt. -/
def RunsFor (t t' : Task) : Prop :=
  t' = t ∨ ∃ key value, t = .set key value ∧ t' = .attemptConsensus (setRequest key value)

theorem runsFor_of_mem_lineage (h : Reach C (cl.start nodes) s) (hp : s.acts[c]? = some p)
    (ht : p.task.Forwarded) (hok : AnswersOk s c) {j : ℕ} {q : Activation Db}
    (hq : s.acts[j]? = some q) (hc : c ∈ s.lineage j) : RunsFor p.task q.task := by
  have hlt : ∀ i j, s.origin? i = some j → j < i := fun _ _ ↦ h.origin?_lt rfl
  induction j using Nat.strongRecOn generalizing q with
  | ind j ih =>
    rcases (mem_lineage_iff hlt).1 hc with rfl | ⟨i, horigin, hmem⟩
    · obtain rfl := Option.some.inj (hp.symm.trans hq)
      exact .inl rfl
    · obtain ⟨r, h₁, dest, hr, -, hemit⟩ := h.emits_of_origin (contract cl) rfl hq horigin
      obtain ⟨r', h₂, dest', hr', hpre, htrigger⟩ :=
        h.emits_of_origin (triggerContract cl) rfl hq horigin
      obtain rfl := Option.some.inj (hr.symm.trans hr')
      rcases ih i (hlt j i horigin) hr hmem with htask | ⟨key, value, -, htask⟩
      · rw [htask] at hemit htrigger
        rcases task_of_emits hemit with ⟨_, _, heq, -⟩ | ⟨key, value, heq, heq'⟩ | ⟨-, heq⟩ | heq
        · exact absurd ht (by rw [heq]; exact id)
        · exact .inr ⟨key, value, heq, heq'⟩
        · exact .inl heq
        · -- it would have got no OK
          rw [(triggerContract_of_forwarded ht _).1, heq] at htrigger
          exact absurd (Failed.mono htrigger hpre.subset) (htask ▸ hok i (lt_length hr) hmem r hr)
      · rw [htask] at hemit
        cases dest <;> exact absurd hemit id

/-- Nothing that is called there writes a register. -/
theorem leader_of_runsFor {t t' : Task} (ht : t.Forwarded) (hkey : ∀ v, t ≠ .set "leader" v)
    (hrun : RunsFor t t') {me : String} {h : History} {dest : Option String} {a : Act}
    (he : emits cl me t' h (.act dest a)) (r : Replica) : (act a r).2.leader = r.leader := by
  rcases leader_act a r (sound_of_emits he) with hsame | ⟨q, rfl, -, hleader, -⟩ | ⟨v, rfl, -⟩
  · exact hsame
  · obtain ⟨r', -, rfl, -, -, -, hr', -⟩ := attempt_of_emits he rfl
    rcases hrun with heq | ⟨key, value, rfl, heq⟩
    · exact absurd ht (heq ▸ id)
    · obtain rfl := Task.attemptConsensus.inj heq
      obtain rfl : key = "leader" := hr'.trans hleader
      exact absurd rfl (hkey value)
  · obtain ⟨-, rfl | ⟨key, value, -, rfl, -⟩⟩ := writeLeader_of_emits he
    · rcases hrun with heq | ⟨_, _, -, heq⟩
      · exact absurd ht (heq ▸ id)
      · cases heq
    · rcases hrun with heq | ⟨_, _, -, heq⟩
      · exact absurd ht (heq ▸ id)
      · cases heq

theorem register_step (h : Reach C (cl.start nodes) s) (hp : s.acts[c]? = some p)
    (ht : p.task.Forwarded) (hkey : ∀ v, p.task ≠ .set "leader" v) (hok : AnswersOk s c)
    (hl : StepFor s c l) (hs : Step s l s') (d : String) :
    (s'.nodes d).leader = (s.nodes d).leader := by
  have hlawful := (contract cl).lawful rfl h
  rcases replica_step hs d with hnode | ⟨a, hex, hnode⟩ | ⟨rfl, -⟩
  · rw [hnode]
  · rw [hnode]
    cases l with
    | step j o =>
      obtain ⟨q, dest, k, hq, hc, -, -⟩ := executed?_step hex
      exact leader_of_runsFor ht hkey (runsFor_of_mem_lineage h hp ht hok hq hl)
        ((hlawful j q hq).emits hc) _
    | deliver i =>
      obtain ⟨m, hm, j, hmem, q, dest, x, hq, -, hx⟩ := hl
      obtain rfl : (d, a) = m := Option.some.inj (hex.symm.trans hm)
      obtain ⟨h₁, -, hemit, -⟩ := (hlawful j q hq).emits_of_mem hx
      exact leader_of_runsFor ht hkey (runsFor_of_mem_lineage h hp ht hok hq hmem) hemit _
    | submit a t => cases hex
    | restart a => cases hex
  · exact absurd hl id

/-- Only requests that are forwarded fail to be. -/
theorem forwarded_of_failed (h : Reach C (cl.start nodes) s) {j : ℕ} {q : Activation Db}
    (hq : s.acts[j]? = some q) (hf : Failed q.task q.hist) : q.task.Forwarded := by
  obtain ⟨⟨call, x⟩, hmem, hfail⟩ := hf
  rcases call with ⟨dest, a⟩ | ⟨_ | d, t⟩
  · exact absurd hfail id
  · exact absurd hfail id
  · obtain ⟨h₁, -, hemit, -⟩ := ((contract cl).lawful rfl h j q hq).emits_of_mem hmem
    obtain rfl : t = q.task := hfail.1
    rcases htask : q.task with r | ⟨k, v⟩ | ⟨k, v⟩ | k | _ <;> rw [htask] at hemit
    · exact absurd hemit id
    · exact absurd hemit id
    · trivial
    · trivial
    · cases hemit.2

/-- No handler there triggers an election. -/
theorem not_triggered_of_answersOk (h : Reach C (cl.start nodes) s) (hp : s.acts[c]? = some p)
    (ht : p.task.Forwarded) (hok : AnswersOk s c) {j : ℕ} {q : Activation Db}
    (hq : s.acts[j]? = some q) (hc : c ∈ s.lineage j) : ¬ Triggered q.hist := by
  rintro ⟨⟨⟨dest, a⟩ | ⟨dest, t⟩, x⟩, hmem, htriggers⟩
  · exact htriggers
  obtain ⟨key, value, rfl⟩ : ∃ key value, t = .electLeader key value := by
    cases t with
    | electLeader key value => exact ⟨key, value, rfl⟩
    | _ => exact absurd htriggers id
  rcases runsFor_of_mem_lineage h hp ht hok hq hc with htask | ⟨_, _, -, htask⟩
  · obtain ⟨h₁, hpre, hemit, -⟩ := ((triggerContract cl).lawful rfl h j q hq).emits_of_mem hmem
    rw [(triggerContract_of_forwarded (htask.symm ▸ ht) _).1] at hemit
    exact hok j (lt_length hq) hc q hq (Failed.mono hemit hpre.subset)
  · obtain ⟨h₁, -, hemit, -⟩ := ((contract cl).lawful rfl h j q hq).emits_of_mem hmem
    rw [htask] at hemit
    cases dest <;> exact absurd hemit id

/-- **When the leader is left alone**: if everything that is forwarded on behalf of a request is
answered with OK, and only then if all that runs on its behalf has returned. -/
theorem leavesLeaders_of_answersOk (h : Reach C (cl.start nodes) s) (hp : s.acts[c]? = some p)
    (ht : p.task.Forwarded) (hkey : ∀ v, p.task ≠ .set "leader" v) :
    (AnswersOk s c → LeavesLeaders s c) ∧
    ((∀ (j : ℕ) (q : Activation Db), s.acts[j]? = some q → c ∈ s.lineage j →
        ∃ r, q.Returned r) →
      (AnswersOk s c ↔ ∀ (j : ℕ) (q : Activation Db), s.acts[j]? = some q → c ∈ s.lineage j →
        ¬ Triggered q.hist)) := by
  refine ⟨fun hok ↦ ⟨fun j q hq hc key value htask ↦ ?_, fun l s' hl hs d ↦
    register_step h hp ht hkey hok hl hs d⟩, fun hret ↦ ⟨fun hok j q hq hc ↦ ?_, fun hnone ↦ ?_⟩⟩
  · rcases htask ▸ runsFor_of_mem_lineage h hp ht hok hq hc with heq | ⟨_, _, -, heq⟩
    · exact absurd ht (heq ▸ id)
    · cases heq
  · exact not_triggered_of_answersOk h hp ht hok hq hc
  · intro j hj hc q hq hf
    obtain ⟨r, hr⟩ := hret j q hq hc
    have hreturns := ((triggerContract cl).lawful rfl h j q hq).returns hr
    rw [(triggerContract_of_forwarded (forwarded_of_failed h hq hf) _).2] at hreturns
    exact hnone j q hq hc (hreturns hf)

end Runs

/-! ### Runs of three nodes -/

/-- `a:1` is elected, and answers the set that `b:1` forwards with OK. -/
theorem leavesLeaders_trio : ∃ s, Reach ClientCalls (trio.start fun _ ↦ {}) s ∧
    (∃ p ∈ s.acts[2]?, p.task = .set "k" "v" ∧ leaderAnswer? p = some {}) ∧
    LeavesLeaders s 2 := by
  obtain ⟨s, hs, hok, p, hp, htask, hanswer⟩ : ∃ s, Reach ClientCalls (trio.start fun _ ↦ {}) s ∧
      AnswersOk s 2 ∧ ∃ p ∈ s.acts[2]?, p.task = .set "k" "v" ∧ leaderAnswer? p = some {} :=
    Reach.exists_of_steps (by
      decide +kernel : ((trio.start fun _ ↦ {}).steps ClientCalls
        (electAndForward ++ calls 1 2 ++ calls 2 3 ++ calls 13 4 ++ calls 1 3 ++
          calls 1 2)).any _ = true)
  refine ⟨s, hs, ⟨p, hp, htask, hanswer⟩, (leavesLeaders_of_answersOk hs hp ?_ ?_).1 hok⟩
  · rw [htask]
    trivial
  · simp [htask]

/-- **A leader that answers is deposed**: `a:1` misses a quorum for the set that `b:1` forwards and
says so, and `b:1` elects itself on all nodes. -/
theorem not_leavesLeaders_trio : ∃ s, Reach ClientCalls (trio.start fun _ ↦ {}) s ∧
    (∃ p ∈ s.acts[2]?, p.origin = none ∧ p.task = .set "k" "v" ∧
      leaderAnswer? p = some (.aborted "Not enough live servers for quorum.")) ∧
    ¬ LeavesLeaders s 2 ∧ ∀ d ∈ trio.memberList, (s.nodes d).leader = "b:1" := by
  obtain ⟨s, hs, hanswer, hfor, ⟨q, hq, htask⟩, hleader⟩ : ∃ s,
      Reach ClientCalls (trio.start fun _ ↦ {}) s ∧
      (∃ p ∈ s.acts[2]?, p.origin = none ∧ p.task = .set "k" "v" ∧
        leaderAnswer? p = some (.aborted "Not enough live servers for quorum.")) ∧
      2 ∈ s.lineage 5 ∧ (∃ q ∈ s.acts[5]?, q.task = .electLeader "leader" "b:1") ∧
      ∀ d ∈ trio.memberList, (s.nodes d).leader = "b:1" :=
    Reach.exists_of_steps (by
      decide +kernel : ((trio.start fun _ ↦ {}).steps ClientCalls
        (electAndForward ++ calls 1 2 ++ calls 2 3 ++ calls 2 4 ++
          [.step 4 .requestLost, .step 4 .requestLost] ++ calls 1 3 ++ calls 1 2 ++ calls 1 2 ++
          calls 1 5 ++ calls 13 6 ++ calls 2 5)).any _ = true)
  exact ⟨s, hs, hanswer, fun h ↦ h.election 5 q hq hfor "leader" "b:1" htask, hleader⟩

end ReplicatedDB
