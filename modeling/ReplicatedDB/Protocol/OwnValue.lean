import ReplicatedDB.Protocol.Validity
import ReplicatedDB.Rpc.Sequential

/-!
# Whose value a set commits

`DatabaseRPC::set` acknowledges what its attempt acknowledges, and the attempt may have adopted
the value of another request: the leader takes the number of rounds in its own log for a fresh
round, and a replica that has accepted something in that round for an earlier leader reports it
back. `ConsensusRPC::elect_leader` looks at the value its attempt returns, `set` does not, and
its client is told OK for a value that is not stored (`not_commitsOwn_trio`).

A set that returns OK has committed its own value in every run in which no proposal of a set is
answered with an accepted entry of another value (`commitsOwn_of_noneAdopted`).
-/

namespace ReplicatedDB

open Rpc Rpc.Net

variable {cl : Cluster}

/-- A quorum has accepted the value for the attempt, and its success messages carry it. -/
def Commits (cl : Cluster) (p : Activation Db) (value : String) : Prop :=
  (∃ Q, IsQuorum cl.memberList Q ∧ ∀ d ∈ Q, ∃ (q : Request) (x : Status × Response),
    Heard p.hist d (.accept q) x ∧ x.1.Ok ∧ q.value = value) ∧
  ∀ d q, Sent p.hist d (.success q) → q.value = value

/-- **A set commits its own value**: if it has returned OK and has run `AttemptConsensus`, then
this has committed the value that was to be set. -/
def CommitsOwn (s : Net (db cl)) : Prop :=
  ∀ (i : ℕ) p key value rep rep', s.acts[i]? = some p → p.task = .set key value →
    key ≠ "leader" → p.Returned rep → rep.status.Ok →
    attempted (setRequest key value) rep' ∈ p.hist →
      ∃ q ∈ s.acts, q.task = .attemptConsensus (setRequest key value) ∧ q.origin = some i ∧
        q.Returned rep' ∧ Commits cl q value

/-- A proposal for a key of the store does not meet an accepted entry of its round with another
value. -/
def ReportsOwn (a : Act) (s : Replica) : Prop :=
  ∀ q ∈ a.propose?, q.key = "leader" ∨ ∀ w ∈ s.held q.key q.round, w = q.value

instance (a : Act) (s : Replica) : Decidable (ReportsOwn a s) :=
  inferInstanceAs (Decidable
    (∀ q ∈ a.propose?, q.key = "leader" ∨ ∀ w ∈ s.held q.key q.round, w = q.value))

/-- No proposal is answered with an accepted entry of another value. -/
def NoneAdopted (s : Net (db cl)) : Label Db → Prop
  | .step i .delivered => ∀ m ∈ s.executed? (.step i .delivered), ReportsOwn m.2 (s.nodes m.1)
  | _ => True

instance (s : Net (db cl)) : DecidablePred (NoneAdopted s)
  | .step i .delivered => inferInstanceAs (Decidable (∀ m ∈ s.executed? (.step i .delivered),
      ReportsOwn m.2 (s.nodes m.1)))
  | .step _ .requestLost | .step _ .replyLost | .step _ .late => inferInstanceAs (Decidable True)
  | .submit _ _ | .deliver _ | .restart _ => inferInstanceAs (Decidable True)

section Runs

variable {C : Net (db cl) → Label Db → Prop} {nodes : String → Replica} {s : Net (db cl)}

/-- What is reported to the attempt of a set is its own value. -/
theorem value_of_reported (hC : ∀ s l, C s l → NoneAdopted s l)
    (h : Reach C (cl.start nodes) s) {j : ℕ} {p : Activation Db} (hp : s.acts[j]? = some p)
    {d : String} {q : Request} {x : Status × Response} (hx : Heard p.hist d (.propose q) x)
    (hok : x.1.Ok) (hpos : 0 < x.2.aserverId) (hkey : q.key ≠ "leader") :
    x.2.value = q.value := by
  refine h.invariant (I := fun s ↦ ∀ j p, s.acts[j]? = some p → Heard p.hist d (.propose q) x →
    x.2.value = q.value) (by simp) ?_ j p hp hx
  intro s l s' _ _ ih hl hs j p hp hx
  obtain ⟨p₀, hp₀, -, -, hx | ⟨c, k, x', -, hc, heq, hans⟩⟩ := hs.event hp hx
  · exact ih j p₀ hp₀ hx
  · obtain ⟨rfl, heq⟩ := Sigma.mk.inj heq
    obtain rfl := eq_of_heq heq
    rcases hans.lost_or_executed hp₀ hc with ⟨-, rfl⟩ | ⟨rfl, hex, rfl⟩
    · exact absurd hok Status.not_ok_unavailable
    · have hown := hC s _ hl _ hex q rfl
      exact hown.resolve_left hkey _ (held_of_propose hok hpos)

/-- The attempt of a set carries its own value. -/
theorem Adopts.own (hC : ∀ s l, C s l → NoneAdopted s l) (h : Reach C (cl.start nodes) s)
    {j : ℕ} {p : Activation Db} (hp : s.acts[j]? = some p) {r q : Request}
    (htask : p.task = .attemptConsensus r) (hkey : r.key ≠ "leader") {h' : History}
    (hsub : h' ⊆ p.hist) (ha : Adopts r h' q) : q.value = r.value := by
  rcases ha.value with ⟨-, hval, -⟩ | ⟨d, q', x, hx, hok, hpos, -, hval⟩
  · exact hval
  · obtain ⟨h₁, -, hemit, -⟩ :=
      ((contract cl).lawful rfl h j p hp).emits_of_mem (hx.mono hsub)
    rw [htask] at hemit
    obtain ⟨-, rfl, -⟩ := hemit
    have hown := value_of_reported hC h hp (hx.mono hsub) hok hpos hkey
    exact hval.trans hown

/-- **A set commits its own value** in every run in which nothing is adopted. -/
theorem commitsOwn_of_noneAdopted (h : Reach NoneAdopted (cl.start nodes) s) :
    CommitsOwn s := by
  intro i p key value rep rep' hp htask hkey hret hok hatt
  have hlawful := (contract cl).lawful rfl h
  rcases h.invoked rfl hp hatt with ⟨j, q, hq, hqtask, -, horigin, hqret⟩ | ⟨hdest, -⟩
  case inr => cases hdest
  -- the set has returned what its attempt has returned
  have hok' : rep'.status.Ok := by
    have hreturns := (hlawful i p hp).returns hret
    rw [htask] at hreturns
    rcases hreturns with ⟨rep₁, hhist, rfl⟩ | ⟨-, rfl⟩ | ⟨⟨addr, h₁, hhist, hne⟩, -⟩
    · rw [hhist] at hatt
      simp only [List.mem_cons, List.not_mem_nil, or_false] at hatt
      rcases hatt with hatt | hatt
      · cases hatt
      · obtain ⟨-, heq⟩ := Sigma.mk.inj hatt
        rw [eq_of_heq heq]
        exact hok
    · exact absurd hok (Status.not_ok_aborted _)
    · obtain ⟨h₂, hpre, hemit, -⟩ := (hlawful i p hp).emits_of_mem hatt
      rw [htask] at hemit
      obtain ⟨-, rfl⟩ := hemit
      rw [hhist, List.cons_prefix_cons] at hpre
      exact absurd (eq_of_heq (Sigma.mk.inj hpre.1).2).symm hne
  have hreturns := (hlawful j q hq).returns hqret
  rw [hqtask] at hreturns
  obtain ⟨-, ⟨-, qa, ⟨hadopt, -, Q, hQ, hvotes⟩, -⟩ | ⟨rfl, -⟩⟩ := hreturns
  case inr => exact absurd hok' (Status.not_ok_aborted _)
  refine ⟨q, List.mem_of_getElem? hq, hqtask, horigin, hqret, ⟨Q, hQ, fun d hd ↦ ?_⟩, ?_⟩
  · obtain ⟨x, hx, hxok⟩ := hvotes d hd
    exact ⟨qa, x, hx, hxok, hadopt.own (fun _ _ hl ↦ hl) h hq hqtask hkey (fun _ he ↦ he)⟩
  · rintro d qs ⟨x, hx⟩
    obtain ⟨h₁, hpre, hemit, -⟩ := (hlawful j q hq).emits_of_mem hx
    rw [hqtask] at hemit
    obtain ⟨-, -, qa', ⟨hadopt', -⟩, rfl⟩ := hemit
    have hown := hadopt'.own (fun _ _ hl ↦ hl) h hq hqtask hkey hpre.subset
    exact hown

end Runs

/-! ### Runs of three nodes -/

/-- Clients' requests are handled one at a time, and no node restarts. -/
def Sequential (s : Net (db cl)) (l : Label Db) : Prop :=
  s.OneAtATime l ∧ l.NoRestart ∧ l.NoLate ∧ ClientCalls s l

instance (s : Net (db cl)) (l : Label Db) : Decidable (Sequential s l) :=
  inferInstanceAs (Decidable (_ ∧ _ ∧ _ ∧ _))

/-- The replies of the attempts for `r` that a procedure has called. -/
def attemptReply? (r : Request) : Event Db → Option Reply
  | ⟨.invoke none (.attemptConsensus r'), rep⟩ => if r' = r then some rep else none
  | _ => none

theorem attempted_mem {r : Request} {h : History} {rep : Reply}
    (hrep : rep ∈ h.filterMap (attemptReply? r)) : attempted r rep ∈ h := by
  obtain ⟨⟨c, x⟩, he, heq⟩ := List.mem_filterMap.1 hrep
  rcases c with ⟨dest, a⟩ | ⟨_ | d, t⟩
  · cases heq
  · cases t with
    | attemptConsensus r' =>
      rw [attemptReply?] at heq
      split at heq
      · rename_i hr
        subst hr
        exact Option.some.inj heq ▸ he
      · cases heq
    | _ => cases heq
  · cases heq

/-- The values of the success messages that an attempt has sent. -/
def successValue? : Event Db → Option String
  | ⟨.act (some _) (.success q), _⟩ => some q.value
  | _ => none

/-- A complete election at the node, by the activations `i` and `i + 1`. -/
def election (a : String) (i : ℕ) : List (Label Db) :=
  [.submit a (.electLeader "leader" a)] ++ calls 1 i ++ calls 13 (i + 1) ++ calls 2 i

/-- `a:1` has set `k` to `v`, and then `k` to `w`. -/
theorem commitsOwn_trio : ∃ s, Reach NoneAdopted (trio.start fun _ ↦ { leader := "a:1" }) s ∧
    s.acts.map (·.prog.result?.map Reply.status) = List.replicate 4 (some {}) ∧
    CommitsOwn s := by
  obtain ⟨s, hs, hok⟩ : ∃ s, Reach NoneAdopted (trio.start fun _ ↦ { leader := "a:1" }) s ∧
      s.acts.map (·.prog.result?.map Reply.status) = List.replicate 4 (some {}) :=
    Reach.exists_of_steps (by
      decide +kernel : ((trio.start fun _ ↦ { leader := "a:1" }).steps NoneAdopted
        ([.submit "a:1" (.set "k" "v")] ++ calls 2 0 ++ calls 13 1 ++ calls 1 0 ++
          [.submit "a:1" (.set "k" "w")] ++ calls 2 2 ++ calls 13 3 ++ calls 1 2)).any _ = true)
  exact ⟨s, hs, hok, commitsOwn_of_noneAdopted hs⟩

/-- **The value of an aborted set, acknowledged to another client**: `a:1` leads and has `v`
accepted by itself only, so its set is aborted. Then `c:1` leads, and its set of `w` returns OK
with `v`. -/
theorem not_commitsOwn_trio : ∃ s, Reach Sequential (trio.start fun _ ↦ {}) s ∧
    ¬ CommitsOwn s := by
  -- the set has returned OK, its attempt has returned `v`, and so say the success messages
  obtain ⟨s, hs, hset, hvals⟩ : ∃ s, Reach Sequential (trio.start fun _ ↦ {}) s ∧
      (s.acts[6]?.map fun p ↦ (p.task, p.prog.result?,
        p.hist.filterMap (attemptReply? (setRequest "k" "w")))) =
          some (.set "k" "w", some ({} : Reply),
            [{ response := { value := "v", pserverId := 1, aserverId := 1 } }]) ∧
      ∀ p ∈ s.acts, p.origin = some 6 → "v" ∈ p.hist.filterMap successValue? :=
    Reach.exists_of_steps (by
      decide +kernel : ((trio.start fun _ ↦ {}).steps Sequential
        (election "a:1" 0 ++
          [.submit "a:1" (.set "k" "v")] ++ calls 2 2 ++ calls 6 3 ++ [.step 3 .requestLost] ++
            calls 1 3 ++ [.step 3 .requestLost, .step 3 .requestLost] ++ calls 1 2 ++
          election "c:1" 4 ++
          [.submit "c:1" (.set "k" "w")] ++ calls 2 6 ++ calls 13 7 ++ calls 1 6)).any _ = true)
  refine ⟨s, hs, fun hown ↦ ?_⟩
  obtain ⟨p, hp, hset⟩ := Option.map_eq_some_iff.1 hset
  obtain ⟨htask, hset⟩ := Prod.mk.inj hset
  obtain ⟨hret, hatt⟩ := Prod.mk.inj hset
  have hmem := attempted_mem (r := setRequest "k" "w") (h := p.hist)
    (hatt ▸ List.mem_singleton_self _)
  obtain ⟨q, hq, -, horigin, -, -, hsuccess⟩ := hown 6 p "k" "w" _ _ hp htask (by decide)
    (Prog.result?_eq_some_iff.1 hret) rfl hmem
  obtain ⟨⟨c, x⟩, he, hval⟩ := List.mem_filterMap.1 (hvals q hq horigin)
  rcases c with ⟨_ | d, a⟩ | ⟨dest, t⟩
  · cases hval
  · cases a with
    | success q' =>
      have hval : q'.value = "v" := Option.some.inj hval
      rw [hsuccess d q' ⟨x, he⟩] at hval
      exact absurd hval (by decide)
    | _ => cases hval
  · cases hval

end ReplicatedDB
