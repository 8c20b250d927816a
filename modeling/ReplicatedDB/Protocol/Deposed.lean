import ReplicatedDB.Protocol.OwnValue

/-!
# Deposed leaders

A node serves as the leader as long as its own register says so, and the register of a deposed
leader is changed by the success message of the election that has chosen another node. The
attempt does not care whether that message arrives, so the old leader may go on serving
(`not_notDeposed_trio`).

If such a message is always executed before its attempt goes on, while the node has logged no
larger round, and neither the end of an election at the node itself nor a request that has read
the register before come too late, then whenever the node serves no later election has chosen
another node (`notDeposed_of_followsElections`).
-/

namespace ReplicatedDB

open Rpc Rpc.Net

variable {cl : Cluster}

/-! ### When a leader was installed -/

/-- What has written the leader register of a node: the success message of a round, or an
election that it has run itself. -/
inductive Installation where
  | success (round : ℤ)
  | election (i : ℕ)
deriving DecidableEq

/-- The installation at the node `a` that was executed, if it was one. -/
def installation? (a : String) : Served Db → Option Installation
  | ⟨d, .success q, (st : Status), _⟩ =>
    if d = a ∧ q.key = "leader" ∧ st.Ok then some (.success q.round) else none
  | ⟨d, .writeLeader _, _, some i⟩ => if d = a then some (.election i) else none
  | _ => none

/-- The installations at the node, oldest first. -/
def installations (s : Net (db cl)) (a : String) : List Installation :=
  s.served.filterMap (installation? a)

/-- The round of the attempt that was called. -/
def attemptRound? : Event Db → Option ℤ
  | ⟨.invoke none (.attemptConsensus _), rep⟩ => some rep.response.round
  | _ => none

/-- The round in which an election was decided. -/
def electionRound? (h : History) : Option ℤ := (h.filterMap attemptRound?).head?

/-- The round of an installation. -/
def Installation.round? (s : Net (db cl)) : Installation → Option ℤ
  | .success round => some round
  | .election i => s.acts[i]?.bind fun p ↦ electionRound? p.hist

/-- The round that has installed the node that the register of `a` names. -/
def installedIn (s : Net (db cl)) (a : String) : Option ℤ :=
  (installations s a).getLast?.bind (Installation.round? s)

/-! ### The property and the condition -/

/-- The program of a get that reads the own store, or of a set that starts its attempt. -/
def servesNext : Task → Program Reply → Bool
  | .get _, .call (.act none (.getKV _)) _ => true
  | .set _ _, .call (.invoke none (.attemptConsensus _)) _ => true
  | _, _ => false

/-- The node serves a request as the leader: it answers a get from its own store, or starts the
attempt of a set. -/
def Serves (a : String) (s : Net (db cl)) : Label Db → Prop
  | .step i _ => ∃ p ∈ s.acts[i]?, p.node = a ∧ p.child = none ∧ servesNext p.task p.prog
  | _ => False

instance (a : String) (s : Net (db cl)) : DecidablePred (Serves a s)
  | .step i _ => inferInstanceAs (Decidable (∃ p ∈ s.acts[i]?, p.node = a ∧ p.child = none ∧
      servesNext p.task p.prog))
  | .submit _ _ | .deliver _ | .restart _ => inferInstanceAs (Decidable False)

/-- **Not deposed**: no attempt for the leader has returned OK that has chosen another node in a
round later than the one that installed the node. -/
def NotDeposed (a : String) (s : Net (db cl)) : Prop :=
  ∃ round, installedIn s a = some round ∧ ∀ p ∈ s.acts, ∀ r rep,
    p.task = .attemptConsensus r → r.key = "leader" → p.Returned rep → rep.status.Ok →
      rep.response.value ≠ a → rep.response.round ≤ round

/-- The message says that another node than `a` leads. -/
def Deposes (a : String) (q : Request) : Prop := q.key = "leader" ∧ q.value ≠ a

instance (a : String) (q : Request) : Decidable (Deposes a q) :=
  inferInstanceAs (Decidable (_ ∧ _))

/-- A message that deposes `a` is executed while its caller waits and no larger round is
logged. -/
def HearsDeposing (a : String) (s : Net (db cl)) : Label Db → Prop
  | .step i o => ∀ p ∈ s.acts[i]?, ∀ m ∈ p.prog.action?, m.1 = some a →
      ∀ q ∈ m.2.success?, Deposes a q → o.Executed ∧ Current q (s.nodes a)
  | _ => True

/-- When an election makes its own node the leader, that has logged no larger round. -/
def WinsLatest (a : String) (s : Net (db cl)) : Label Db → Prop
  | .step i _ => ∀ p ∈ s.acts[i]?, p.node = a → p.prog.action? = some (none, .writeLeader a) →
      ∀ round ∈ electionRound? p.hist, ∀ x ∈ ((s.nodes a).log "leader").keys, x ≤ round
  | _ => True

/-- A request that is served as by the leader finds the register unchanged. -/
def StillLeads (a : String) (s : Net (db cl)) (l : Label Db) : Prop :=
  Serves a s l → (s.nodes a).leader = a

instance (a : String) (s : Net (db cl)) : DecidablePred (HearsDeposing a s)
  | .step i o => inferInstanceAs (Decidable (∀ p ∈ s.acts[i]?, ∀ m ∈ p.prog.action?,
      m.1 = some a → ∀ q ∈ m.2.success?, Deposes a q → o.Executed ∧ Current q (s.nodes a)))
  | .submit _ _ | .deliver _ | .restart _ => inferInstanceAs (Decidable True)

instance (a : String) (s : Net (db cl)) : DecidablePred (WinsLatest a s)
  | .step i _ => inferInstanceAs (Decidable (∀ p ∈ s.acts[i]?, p.node = a →
      p.prog.action? = some (none, .writeLeader a) →
      ∀ round ∈ electionRound? p.hist, ∀ x ∈ ((s.nodes a).log "leader").keys, x ≤ round))
  | .submit _ _ | .deliver _ | .restart _ => inferInstanceAs (Decidable True)

instance (a : String) (s : Net (db cl)) (l : Label Db) : Decidable (StillLeads a s l) :=
  inferInstanceAs (Decidable (_ → _))

/-- **The node follows the elections.** -/
def FollowsElections (a : String) (s : Net (db cl)) (l : Label Db) : Prop :=
  l.NoRestart ∧ ClientCalls s l ∧ HearsDeposing a s l ∧ WinsLatest a s l ∧ StillLeads a s l

instance (a : String) (s : Net (db cl)) (l : Label Db) : Decidable (FollowsElections a s l) :=
  inferInstanceAs (Decidable (_ ∧ _ ∧ _ ∧ _ ∧ _))

/-! ### Installations along runs -/

/-- Only elections and `coordinate` write the register, each at its own node. -/
theorem writeLeader_of_emits {me : String} {t : Task} {h : History} {dest : Option String}
    {v : String} (he : emits cl me t h (.act dest (.writeLeader v))) :
    dest = none ∧ (t = .coordinate ∨ ∃ key value rep, t = .electLeader key value ∧
      h = [attempted (electRequest key value) rep] ∧ rep.status.Ok ∧ v = rep.response.value) := by
  cases dest with
  | some d => cases t <;> exact absurd he id
  | none =>
    cases t with
    | electLeader key value =>
      obtain ⟨rep, hh, hok, hv⟩ := he
      exact ⟨rfl, .inr ⟨key, value, rep, rfl, hh, hok, hv⟩⟩
    | coordinate => exact ⟨rfl, .inl rfl⟩
    | _ => exact absurd he id

section Runs

variable {C : Net (db cl) → Label Db → Prop} {nodes : String → Replica} {s s' : Net (db cl)}
  {l : Label Db} {a : String}

/-- Nobody writes a register over the network. -/
theorem not_late_writeLeader (h : Reach C (cl.start nodes) s) {d v : String} :
    (d, Act.writeLeader v) ∉ s.late :=
  not_late_of_emits rfl rfl (fun he ↦ (writeLeader_of_emits he).1) h

/-- What other nodes execute does not install anything at `a`. -/
theorem installation?_of_ne {d : String} (hd : d ≠ a) (b : Act) (x : b.Ret)
    (caller : Option ℕ) : installation? a ⟨d, b, x, caller⟩ = none := by
  cases b with
  | success q => exact if_neg fun h ↦ hd h.1
  | writeLeader v =>
    cases caller with
    | none => rfl
    | some i => exact if_neg hd
  | _ => rfl

/-- **What a step does to the register of a node**: nothing, or it executes a success message,
or it ends an election; each is noted as an installation. -/
theorem installations_step (h : Reach C (cl.start nodes) s) (hl : l.NoRestart)
    (hs : Step s l s') (a : String) :
    ((s'.nodes a).leader = (s.nodes a).leader ∧ installations s' a = installations s a) ∨
    (∃ q, s.executed? l = some (a, .success q) ∧ q.key = "leader" ∧ Current q (s.nodes a) ∧
      (s'.nodes a).leader = q.value ∧
      installations s' a = installations s a ++ [.success q.round]) ∨
    ∃ i o v, l = .step i o ∧ s.executed? l = some (a, .writeLeader v) ∧
      (s'.nodes a).leader = v ∧ installations s' a = installations s a ++ [.election i] := by
  have hrestart : ∀ d, l ≠ .restart d := by
    rintro d rfl
    exact hl
  rcases hs.filterMap_served (installation? a) with ⟨hex, heq⟩ | ⟨d, b, caller, hex, happ, hcaller⟩
  · refine .inl ⟨?_, heq⟩
    rcases replica_step hs a with hnode | ⟨b, hex', -⟩ | ⟨hl, -⟩
    · rw [hnode]
    · cases hex.symm.trans hex'
    · exact absurd hl (hrestart a)
  change installations s' a = installations s a ++
    (installation? a ⟨d, b, (act b (s.nodes d)).1, caller⟩).toList at happ
  have hsound := sound_of_requested rfl rfl h (hs.executed hex)
  by_cases hd : d = a
  case neg =>
    refine .inl ⟨?_, ?_⟩
    · rcases replica_step hs a with hnode | ⟨b', hex', -⟩ | ⟨hl, -⟩
      · rw [hnode]
      · exact absurd (Prod.mk.inj (Option.some.inj (hex.symm.trans hex'))).1 hd
      · exact absurd hl (hrestart a)
    · rw [happ, installation?_of_ne hd, Option.toList_none, List.append_nil]
  subst hd
  rw [replica_executed hs hex, happ]
  cases b with
  | success q =>
    have hround : intMin ≤ q.round := (by decide : intMin ≤ 0).trans hsound.2
    have hans : (act (.success q) (s.nodes d)).1 =
        if Current q (s.nodes d) then {} else .aborted "Information is outdated." :=
      success_answer q (s.nodes d) hround
    have hstate : (act (.success q) (s.nodes d)).2 = _ := success_state q (s.nodes d) hround
    by_cases hcur : q.key = "leader" ∧ Current q (s.nodes d)
    · refine .inr (.inl ⟨q, hex, hcur.1, hcur.2, by simp [hstate, hcur], ?_⟩)
      rw [installation?, hans, if_pos hcur.2, if_pos ⟨rfl, hcur.1, Status.ok_default⟩]
      rfl
    · refine .inl ⟨?_, ?_⟩
      · rw [hstate]
        exact if_neg fun h ↦ hcur h.symm
      · rw [installation?, hans, if_neg, Option.toList_none, List.append_nil]
        rintro ⟨-, hkey, hok⟩
        rw [if_neg fun h ↦ hcur ⟨hkey, h⟩] at hok
        exact Status.not_ok_aborted _ hok
  | writeLeader v =>
    right; right
    rcases hs.executed_by hex with ⟨i, o, -, -, -, -, rfl, -⟩ | hm
    · obtain rfl := hcaller i o rfl
      refine ⟨i, o, v, rfl, hex, rfl, ?_⟩
      rw [installation?, if_pos rfl]
      rfl
    · exact absurd hm (not_late_writeLeader h)
  | propose q => exact .inl ⟨by simp [act, propose_state], by simp [installation?]⟩
  | accept q => exact .inl ⟨by simp [act, accept_state], by simp [installation?]⟩
  | _ => exact .inl ⟨rfl, by simp [installation?]⟩

/-- The round of an installation does not change. -/
theorem Installation.round?_step (hs : Step s l s') {x : Installation} {round : ℤ}
    (hx : x.round? s = some round) : x.round? s' = some round := by
  cases x with
  | success round' => exact hx
  | election i =>
    obtain ⟨p, hp, hround⟩ := Option.bind_eq_some_iff.1 hx
    obtain ⟨p', hp', -, -, -, -, ⟨h', hhist⟩, -⟩ := hs.keeps hp
    refine Option.bind_eq_some_iff.2 ⟨p', hp', ?_⟩
    rw [electionRound?, ← hhist, List.filterMap_append, List.head?_append]
    rw [electionRound?] at hround
    rw [hround]
    rfl

/-- What is sent to the node while its caller waits is executed. -/
theorem HearsDeposing.executed (hl : HearsDeposing a s l) {j : ℕ} {p : Activation Db}
    (hp : s.acts[j]? = some p) {q : Request} {k : Status → Program Reply}
    (hc : p.prog = .call (.act (some a) (.success q)) k) {x : Status}
    (hans : s.Answers l j p (.act (some a) (.success q)) x) (hq : Deposes a q) :
    s.executed? l = some (a, .success q) ∧ Current q (s.nodes a) := by
  obtain ⟨o, rfl, -, -⟩ := hans
  obtain ⟨hexec, hcur⟩ := hl p hp (some a, .success q) (by rw [hc]; exact rfl) rfl q rfl hq
  exact ⟨executed?_of_executed hp hc hexec, hcur⟩

/-- The node has logged the rounds of all messages that have deposed it. -/
theorem logged_of_deposes (h : Reach (FollowsElections a) (cl.start nodes) s) {j : ℕ}
    {p : Activation Db} (hp : s.acts[j]? = some p) {q : Request}
    (hsent : Sent p.hist a (.success q)) (hq : Deposes a q) :
    q.round ∈ ((s.nodes a).log "leader").keys := by
  obtain ⟨x, hx⟩ := hsent
  refine h.answered rfl (P := fun (s : Net (db cl)) _ (e : Event Db) ↦
    e.1 = .act (some a) (Act.success q) → q.round ∈ ((s.nodes a).log "leader").keys)
    ?_ ?_ j p hp _ hx rfl
  · intro s l s' _ _ hl hs j p _ e _ hkeep he
    exact keys_mono hs hl.1 (hkeep he)
  · rintro s l s' hr - hl hs j p c k x hp - hc hans rfl
    have hex := (hl.2.2.1.executed hp hc hans hq).1
    rw [replica_executed hs hex, mem_keys_act]
    exact .inr (congrArg some (Prod.ext hq.1 rfl))

/-- The register names `a` only if it was installed after all that has deposed it. -/
def InstalledLast (a : String) (s : Net (db cl)) : Prop :=
  (s.nodes a).leader = a → ∃ round, installedIn s a = some round ∧
    ∀ (j : ℕ) (p : Activation Db), s.acts[j]? = some p → ∀ q, Sent p.hist a (.success q) →
      Deposes a q → q.round ≤ round

theorem installedLast (ha : (nodes a).leader ≠ a)
    (h : Reach (FollowsElections a) (cl.start nodes) s) : InstalledLast a s := by
  refine h.invariant (I := InstalledLast a) (fun hreg ↦ absurd hreg ha) ?_
  intro s l s' hr hr' ih hl hs hreg
  -- a message that deposes the node in this step is executed in it
  have hsent : ∀ (j : ℕ) (p' : Activation Db), s'.acts[j]? = some p' → ∀ q,
      Sent p'.hist a (.success q) → Deposes a q →
      (∃ p, s.acts[j]? = some p ∧ Sent p.hist a (.success q)) ∨
        s.executed? l = some (a, .success q) ∧ Current q (s.nodes a) := by
    rintro j p' hp' q ⟨x, hx⟩ hq
    obtain ⟨p, hp, -, -, hx | ⟨c, k, y, -, hc, heq, hans⟩⟩ := hs.event hp' hx
    · exact .inl ⟨p, hp, x, hx⟩
    · obtain ⟨rfl, -⟩ := Sigma.mk.inj heq
      exact .inr (hl.2.2.1.executed hp hc hans hq)
  rcases installations_step hr hl.1 hs a with ⟨hsame, hinst⟩ | ⟨q, hex, hkey, hcur, hval, hinst⟩ |
    ⟨i, o, v, rfl, hex, hval, hinst⟩
  · -- the register is not touched
    obtain ⟨round, hround, hle⟩ := ih (hsame ▸ hreg)
    refine ⟨round, ?_, fun j p' hp' q hq hdep ↦ ?_⟩
    · obtain ⟨x, hx, hround⟩ := Option.bind_eq_some_iff.1 hround
      exact Option.bind_eq_some_iff.2 ⟨x, by rw [hinst, hx], x.round?_step hs hround⟩
    · rcases hsent j p' hp' q hq hdep with ⟨p, hp, hq⟩ | ⟨hex, hcur⟩
      · exact hle j p hp q hq hdep
      · -- executed, it would have changed the register
        have hround := (sound_of_requested rfl rfl hr (hs.executed hex)).2
        have hstate : (act (.success q) (s.nodes a)).2 = _ :=
          success_state q (s.nodes a) ((by decide : intMin ≤ 0).trans hround)
        rw [replica_executed hs hex, hstate] at hreg
        exact absurd (by simpa [hcur, hdep.1] using hreg) hdep.2
  · -- it is installed by a success message
    refine ⟨q.round, ?_, fun j p' hp' q' hq' hdep ↦ ?_⟩
    · rw [installedIn, hinst, List.getLast?_concat]
      rfl
    · rcases hsent j p' hp' q' hq' hdep with ⟨p, hp, hq'⟩ | ⟨hex', -⟩
      · exact hcur _ (hkey ▸ logged_of_deposes hr hp hq' hdep)
      · obtain ⟨-, heq⟩ := Prod.mk.inj (Option.some.inj (hex.symm.trans hex'))
        obtain rfl := Act.success.inj heq
        exact absurd (hval.symm.trans hreg) hdep.2
  · -- it has won an election
    obtain rfl : v = a := hval.symm.trans hreg
    rcases hs.executed_by hex with ⟨i', o', p, dest, k, x, hlab, -, hp, hc, hnode, hp'⟩ | hm
    case inr => exact absurd hm (not_late_writeLeader hr)
    obtain ⟨rfl, -⟩ := Label.step.inj hlab
    obtain ⟨rfl, htask | ⟨key, value, rep, htask, hhist, -, -⟩⟩ :=
      writeLeader_of_emits (((contract cl).lawful rfl hr i p hp).emits hc)
    · exact absurd htask (task_ne_coordinate rfl (fun _ _ hl ↦ hl.1)
        (fun _ _ _ hl ↦ ofClient_ne_coordinate hl.2.1) hr hp)
    have hround : electionRound? p.hist = some rep.response.round := by rw [hhist]; rfl
    have hall := hl.2.2.2.1 p hp hnode.symm (by rw [hc]; rfl) _ hround
    refine ⟨rep.response.round, ?_, fun j p₁ hp₁ q hq hdep ↦ ?_⟩
    · rw [installedIn, hinst, List.getLast?_concat]
      change (s'.acts[i]?.bind fun p ↦ electionRound? p.hist) = _
      rw [hp', Option.bind_some, Activation.resume_hist, hhist]
      rfl
    · rcases hsent j p₁ hp₁ q hq hdep with ⟨p₀, hp₀, hq⟩ | ⟨hex', -⟩
      · exact hall _ (logged_of_deposes hr hp₀ hq hdep)
      · obtain ⟨-, heq⟩ := Prod.mk.inj (Option.some.inj (hex.symm.trans hex'))
        cases heq

end Runs

/-- **A deposed leader does not serve**, if it follows the elections: whenever it serves, no
attempt has returned OK that has chosen another node in a later round. -/
theorem notDeposed_of_followsElections {a : String} {s : Net (db cl)} {l : Label Db}
    (ha : a ∈ cl.memberList) (h : Reach (FollowsElections a) (cl.start fun _ ↦ {}) s)
    (hl : FollowsElections a s l) (hserve : Serves a s l) : NotDeposed a s := by
  have hne : a ≠ "" := fun h ↦ cl.nonempty (h ▸ ha)
  obtain ⟨round, hround, hle⟩ := installedLast hne.symm h (hl.2.2.2.2 hserve)
  refine ⟨round, hround, fun p hp r rep htask hkey hret hok hval ↦ ?_⟩
  obtain ⟨j, hj⟩ := List.getElem?_of_mem hp
  have hreturns := ((contract cl).lawful rfl h j p hj).returns hret
  rw [htask] at hreturns
  obtain ⟨-, ⟨-, qa, -, hrep, hsent⟩ | ⟨rfl, -⟩⟩ := hreturns
  · rw [hrep] at hval ⊢
    exact hle j p hj (successRequest r.key (acceptResponse qa)) (hsent a ha) ⟨hkey, hval⟩
  · exact absurd hok (Status.not_ok_aborted _)

/-! ### Runs of three nodes -/

/-- `a:1` is elected, then `b:1`, then `a:1` again, which answers a get. -/
theorem notDeposed_trio : ∃ s l, Reach (FollowsElections "a:1") (trio.start fun _ ↦ {}) s ∧
    FollowsElections "a:1" s l ∧ Serves "a:1" s l ∧ installedIn s "a:1" = some 2 ∧
    NotDeposed "a:1" s := by
  obtain ⟨s, hs, hl, hserve, hround⟩ : ∃ s,
      Reach (FollowsElections "a:1") (trio.start fun _ ↦ {}) s ∧
      FollowsElections "a:1" s (.step 6 .delivered) ∧ Serves "a:1" s (.step 6 .delivered) ∧
      installedIn s "a:1" = some 2 :=
    Reach.exists_of_steps (by
      decide +kernel : ((trio.start fun _ ↦ {}).steps (FollowsElections "a:1")
        (election "a:1" 0 ++ election "b:1" 2 ++ election "a:1" 4 ++
          [.submit "a:1" (.get "k")] ++ calls 1 6)).any _ = true)
  exact ⟨s, _, hs, hl, hserve, hround, notDeposed_of_followsElections (by decide) hs hl hserve⟩

/-- **A deposed leader that serves**: the success message of the election of `b:1` to `a:1` is
lost, so `a:1` answers the next get from its own store. -/
theorem not_notDeposed_trio : ∃ s l, Reach Sequential (trio.start fun _ ↦ {}) s ∧
    Sequential s l ∧ (s.step l).isSome ∧ Serves "a:1" s l ∧ ¬ NotDeposed "a:1" s := by
  obtain ⟨s, hs, hl, hstep, hserve, hround, hatt⟩ : ∃ s,
      Reach Sequential (trio.start fun _ ↦ {}) s ∧ Sequential s (.step 4 .delivered) ∧
      (s.step (.step 4 .delivered)).isSome ∧ Serves "a:1" s (.step 4 .delivered) ∧
      installedIn s "a:1" = some 0 ∧
      (s.acts[3]?.map fun p ↦ (p.task, p.prog.result?)) =
        some (.attemptConsensus (electRequest "leader" "b:1"), some { response :=
          { value := "b:1", pserverId := 1, round := 1, op := .setLeader } }) :=
    Reach.exists_of_steps (by
      decide +kernel : ((trio.start fun _ ↦ {}).steps Sequential
        (election "a:1" 0 ++
          [.submit "b:1" (.electLeader "leader" "b:1")] ++ calls 1 2 ++ calls 10 3 ++
            [.step 3 .requestLost] ++ calls 2 3 ++ calls 2 2 ++
          [.submit "a:1" (.get "k")] ++ calls 1 4)).any _ = true)
  refine ⟨s, _, hs, hl, hstep, hserve, fun ⟨round, hinst, hle⟩ ↦ ?_⟩
  obtain rfl := Option.some.inj (hround.symm.trans hinst)
  obtain ⟨p, hp, hatt⟩ := Option.map_eq_some_iff.1 hatt
  obtain ⟨htask, hret⟩ := Prod.mk.inj hatt
  have hlate := hle p (List.mem_of_getElem? hp) _ _ htask rfl (Prog.result?_eq_some_iff.1 hret)
    rfl (by decide)
  exact absurd hlate (by decide)

end ReplicatedDB
