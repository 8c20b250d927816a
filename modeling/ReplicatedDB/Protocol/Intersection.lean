import ReplicatedDB.Model.Evaluation

/-!
# Quorum intersection

Two attempts that return OK should have been accepted by a common node. They are, in every run of
a cluster of odd size. In a cluster of even size each half of the members passes the test
`count > ceil(n / 2) - 1`, so two elections whose accept requests reach the one half and then the
other both return OK (`exists_disjoint_of_even`). The property therefore holds for odd sizes only
(`intersecting_iff`).
-/

namespace ReplicatedDB

open Rpc Rpc.Net

variable {cl : Cluster}

/-- The node answered OK to the accept phase of the activation. -/
def AcceptedBy (p : Activation Db) (d : String) : Prop :=
  ∃ (q : Request) (x : Status × Response), Heard p.hist d (.accept q) x ∧ x.1.Ok

/-- An attempt that has returned OK. -/
def Succeeded (p : Activation Db) : Prop :=
  ∃ (r : Request) (rep : Reply), p.task = .attemptConsensus r ∧ p.Returned rep ∧ rep.status.Ok

/-- Any two attempts that have returned OK were accepted by a common node. -/
def Intersecting (s : Net (db cl)) : Prop :=
  ∀ (i j : ℕ) (p q : Activation Db), s.acts[i]? = some p → s.acts[j]? = some q →
    Succeeded p → Succeeded q → ∃ d, AcceptedBy p d ∧ AcceptedBy q d

/-- Any two sets of members that pass the test have a common member. -/
def QuorumsIntersect (members : List String) : Prop :=
  ∀ Q₁ Q₂ : Finset String, Q₁ ⊆ members.toFinset → Q₂ ⊆ members.toFinset →
    ¬ NoQuorum members.length Q₁.card → ¬ NoQuorum members.length Q₂.card →
      ∃ d, d ∈ Q₁ ∧ d ∈ Q₂

/-- An attempt that returned OK was accepted by a quorum. -/
theorem exists_quorum_of_succeeded {C : Net (db cl) → Label Db → Prop} {s₀ s : Net (db cl)}
    (hinit : s₀.acts = []) (h : Reach C s₀ s) {j : ℕ} {p : Activation Db}
    (hp : s.acts[j]? = some p) (hok : Succeeded p) :
    ∃ Q, IsQuorum cl.memberList Q ∧ ∀ d ∈ Q, AcceptedBy p d := by
  obtain ⟨r, rep, htask, hret, hok⟩ := hok
  have hreturns := ((contract cl).lawful hinit h j p hp).returns hret
  rw [htask] at hreturns
  obtain ⟨-, ⟨-, q, ⟨-, -, Q, hQ, hvotes⟩, -⟩ | ⟨rfl, -⟩⟩ := hreturns
  · exact ⟨Q, hQ, fun d hd ↦ by
      obtain ⟨x, hx, hxok⟩ := hvotes d hd
      exact ⟨q, x, hx, hxok⟩⟩
  · exact absurd hok (Status.not_ok_aborted _)

/-! ### Two halves -/

/-- The first half of the members, and the second. -/
theorem exists_halves (heven : Even cl.memberList.length) :
    ∃ A B : List String, cl.memberList = A ++ B ∧ cl.memberList.length = 2 * A.length ∧
      cl.memberList.length = 2 * B.length := by
  obtain ⟨m, hm⟩ := heven
  refine ⟨cl.memberList.take m, cl.memberList.drop m, (List.take_append_drop m _).symm, ?_, ?_⟩
  · rw [List.length_take]
    omega
  · rw [List.length_drop]
    omega

/-- Accept requests reach the nodes of `A` only; nothing else is lost. -/
def reachingOnly (A : List String) : Plan Db
  | d, .accept _ => if d ∈ A then .delivered else .requestLost
  | _, _ => .delivered

/-- An election whose accept requests reach half of the members. -/
theorem evals_election {A : List String} (me : String) {N : String → Replica}
    (hA : A.Sublist cl.memberList) (hlen : cl.memberList.length = 2 * A.length)
    (hN : ∀ d key round, (((N d).log key).entry round).pServerId = 0) :
    ∃ N', Evals (db cl) (reachingOnly A) me (body cl me (.electLeader "leader" me)) N {} N' := by
  have halive : alive (reachingOnly A) cl.memberList = cl.memberList := by
    simp [alive, reachingOnly]
  have hvoters : ∀ q, (voters (reachingOnly A) q cl.memberList).length = A.length := fun q ↦ by
    refine List.Perm.length_eq ((List.perm_ext_iff_of_nodup (cl.nodup.filter _)
      (cl.nodup.sublist hA)).2 fun d ↦ ?_)
    rw [List.mem_filter]
    by_cases hd : d ∈ A
    · simp [reachingOnly, hd, hA.subset hd]
    · simp [reachingOnly, hd]
  have hwilling : ∀ (r : Request) (round : ℤ), ∀ d ∈ cl.memberList,
      Willing (prepareRequest r round) (N d) := fun r round d _ ↦ by
    rw [Willing, hN]
    exact zero_le_one
  refine ⟨_, evals_electLeader (evals_attempt _ cl.nodup cl.ne_nil rfl rfl rfl ?_ ?_ ?_)
    Status.ok_default⟩
  · rw [halive]
    exact not_noQuorum_self _
  · rw [halive, proposals_count (fun _ _ ↦ rfl) (hwilling _ _)]
    exact not_noQuorum_self _
  · rw [halive, hvoters, not_noQuorum_iff]
    omega

/-- The attempt of an election that was handled. -/
theorem exists_attempt {C : Net (db cl) → Label Db → Prop} {s₀ s s' : Net (db cl)}
    (hinit : s₀.acts = []) (h : Reach C s₀ s') {A : List String} {me : String}
    (hs : s.Handles (reachingOnly A) me (.electLeader "leader" me) {} s') :
    ∃ (j : ℕ) (p : Activation Db), s'.acts[j]? = some p ∧ Succeeded p ∧
      ∀ d, AcceptedBy p d → d ∈ A := by
  obtain ⟨q, hq, hret⟩ := hs.2
  obtain ⟨q₀, hq₀, -, htask, -⟩ := hs.1.keeps (j := s.acts.length)
    (p := s.opened me (.electLeader "leader" me) none) (by simp)
  obtain rfl := Option.some.inj (hq.symm.trans hq₀)
  have hreturns := ((contract cl).lawful hinit h _ q hq).returns hret
  rw [show q.task = .electLeader "leader" me from htask] at hreturns
  obtain ⟨rep, hrep, hcase⟩ := hreturns
  have hok : rep.status.Ok := by
    rw [← congrArg Reply.status hrep]
    exact Status.ok_default
  obtain ⟨-, hhist⟩ := hcase.resolve_right fun hne ↦ hne.1 hok
  have hmem : attempted (electRequest "leader" me) rep ∈ q.hist := by
    rw [hhist]
    simp
  obtain ⟨j, p, hp, hptask, -, horigin, hpret⟩ | ⟨hsome, -⟩ := h.invoked hinit hq hmem
  · refine ⟨j, p, hp, ⟨_, rep, hptask, hpret, hok⟩, ?_⟩
    rintro d ⟨r, x, hx, hxok⟩
    rcases hs.planned (h.origin_lt hinit hp horigin).le hp hx with hw | rfl
    · by_contra hd
      simp [reachingOnly, hd] at hw
    · exact absurd hxok Status.not_ok_unavailable
  · cases hsome

/-- **A cluster of even size** has a run in which two elections return OK, each accepted by
another half of the members. -/
theorem exists_disjoint_of_even (cl : Cluster) (heven : Even cl.memberList.length) :
    ∃ s, Reach (fun _ _ ↦ True) (cl.start fun _ ↦ {}) s ∧ ¬ Intersecting s := by
  obtain ⟨A, B, hAB, hA, hB⟩ := exists_halves heven
  obtain ⟨me, hme⟩ := List.exists_mem_of_ne_nil _ cl.ne_nil
  have hreach : ∀ {A s s'}, Reach (fun _ _ ↦ True) (cl.start fun _ ↦ {}) s →
      Net.Handles (V := db cl) (reachingOnly A) s me (.electLeader "leader" me) {} s' →
      Reach (fun _ _ ↦ True) (cl.start fun _ ↦ {}) s' := fun hr hs ↦
    (hr.tail ⟨.submit me _, trivial, rfl⟩).trans (hs.1.mono fun _ _ _ ↦ trivial)
  -- two elections
  obtain ⟨N₁, hev₁⟩ := evals_election me (N := fun _ ↦ {})
    (hAB ▸ List.sublist_append_left A B) hA fun _ _ _ ↦ rfl
  obtain ⟨s₁, hs₁, -⟩ := handles_of_evals (V := db cl) (s := cl.start fun _ ↦ {})
    (t := .electLeader "leader" me) hev₁
  have hr₁ := hreach .refl hs₁
  obtain ⟨N₂, hev₂⟩ := evals_election me (N := s₁.nodes)
    (hAB ▸ List.sublist_append_right A B) hB
    (pServerId_eq_zero (fun _ ↦ rfl) hr₁)
  obtain ⟨s₂, hs₂, -⟩ := handles_of_evals (V := db cl) (t := .electLeader "leader" me) hev₂
  have hr₂ := hreach hr₁ hs₂
  refine ⟨s₂, hr₂, fun hint ↦ ?_⟩
  -- and their attempts
  obtain ⟨i, p, hp, hpok, hpA⟩ := exists_attempt rfl hr₁ hs₁
  obtain ⟨j, q, hq, hqok, hqB⟩ := exists_attempt rfl hr₂ hs₂
  have hp₂ : s₂.acts[i]? = some p := hs₂.1.others (lt_length hp)
    (by simp [List.getElem?_append_left (lt_length hp), hp])
  obtain ⟨d, hdp, hdq⟩ := hint i j p q hp₂ hq hpok hqok
  have hnodup := cl.nodup
  rw [hAB, List.nodup_append] at hnodup
  exact hnodup.2.2 d (hpA d hdp) d (hqB d hdq) rfl

/-! ### Odd sizes -/

/-- Two halves are disjoint quorums. -/
theorem odd_of_quorumsIntersect (h : QuorumsIntersect cl.memberList) :
    Odd cl.memberList.length := by
  by_contra hodd
  obtain ⟨A, B, hAB, hA, hB⟩ := exists_halves (Nat.not_odd_iff_even.1 hodd)
  have hnodup := cl.nodup
  rw [hAB, List.nodup_append] at hnodup
  obtain ⟨d, hdA, hdB⟩ := h A.toFinset B.toFinset (by simp [hAB]) (by simp [hAB])
    (by rw [List.toFinset_card_of_nodup hnodup.1, not_noQuorum_iff]; omega)
    (by rw [List.toFinset_card_of_nodup hnodup.2.1, not_noQuorum_iff]; omega)
  exact hnodup.2.2 d (List.mem_toFinset.1 hdA) d (List.mem_toFinset.1 hdB) rfl

/-- **Quorums intersect exactly in clusters of odd size**: any two attempts that return OK, in any
run, and any two sets of members that pass the test. -/
theorem intersecting_iff (cl : Cluster) :
    ((∀ (nodes : String → Replica) (s : Net (db cl)),
      Reach (fun _ _ ↦ True) (cl.start nodes) s → Intersecting s) ↔ Odd cl.memberList.length) ∧
    (QuorumsIntersect cl.memberList ↔ Odd cl.memberList.length) := by
  have hinter : Odd cl.memberList.length → QuorumsIntersect cl.memberList :=
    fun hodd Q₁ Q₂ h₁ h₂ hq₁ hq₂ ↦ exists_mem_inter_of_odd hodd
      ⟨h₁, not_noQuorum_iff.1 hq₁⟩ ⟨h₂, not_noQuorum_iff.1 hq₂⟩
  refine ⟨⟨fun h ↦ ?_, fun hodd nodes s hr i j p q hp hq hpok hqok ↦ ?_⟩,
    odd_of_quorumsIntersect, hinter⟩
  · by_contra hodd
    obtain ⟨s, hr, hnot⟩ := exists_disjoint_of_even cl (Nat.not_odd_iff_even.1 hodd)
    exact hnot (h _ s hr)
  · obtain ⟨Q₁, hQ₁, hvotes₁⟩ := exists_quorum_of_succeeded rfl hr hp hpok
    obtain ⟨Q₂, hQ₂, hvotes₂⟩ := exists_quorum_of_succeeded rfl hr hq hqok
    obtain ⟨d, hd₁, hd₂⟩ := exists_mem_inter_of_odd hodd hQ₁ hQ₂
    exact ⟨d, hvotes₁ d hd₁, hvotes₂ d hd₂⟩

/-- A cluster of two nodes. -/
def pair : Cluster where
  memberList := ["a:1", "b:1"]
  nodup := by decide
  ne_nil := by decide
  nonempty := by decide

/-- **Two nodes**: two attempts return OK without a common acceptor. -/
theorem not_intersecting_pair :
    ∃ s : Net (db pair), Reach (fun _ _ ↦ True) (pair.start fun _ ↦ {}) s ∧ ¬ Intersecting s :=
  exists_disjoint_of_even pair (by decide)

end ReplicatedDB
