import ReplicatedDB.Model.Evaluation

/-!
# All or nothing

An attempt may end after any of its stages, and any of its requests may be lost, or be executed
with its answer lost. Whatever happens, it touches one entry of the logs only, the one of its round;
and the stores and the leader registers learn of it only if it returns OK, that is, after a quorum
has accepted the value it returns (`allOrNothing`).
-/

namespace ReplicatedDB

open Rpc Rpc.Net

/-! ### What one request changes -/

/-- The logs agree, but for the entry of one round of one key. -/
def SameElsewhere (key : String) (round : ℤ) (l l' : PaxLog) : Prop :=
  ∀ key' round', (key', round') ≠ (key, round) →
    (l'.rounds key').lookup round' = (l.rounds key').lookup round'

/-- Nothing was written to the store and the leader register. -/
def Untouched (s s' : Replica) : Prop := s'.kvStore = s.kvStore ∧ s'.leader = s.leader

/-- The value was written to the store, or to the leader register if that is the key. -/
def Learned (key value : String) (s s' : Replica) : Prop :=
  s'.kvStore = (if key = "leader" then s.kvStore else s.kvStore.setKV key value) ∧
    s'.leader = if key = "leader" then value else s.leader

section Requests

variable {key : String} {round : ℤ}

theorem Untouched.trans {s s' s'' : Replica} (h : Untouched s s') (h' : Untouched s' s'') :
    Untouched s s'' := ⟨h'.1.trans h.1, h'.2.trans h.2⟩

theorem Untouched.learned {value : String} {s s' s'' : Replica} (h : Untouched s s')
    (h' : Learned key value s' s'') : Learned key value s s'' := by
  rw [Learned, ← h.1, ← h.2]
  exact h'

theorem SameElsewhere.refl (l : PaxLog) : SameElsewhere key round l l := fun _ _ _ ↦ rfl

theorem SameElsewhere.trans {l l' l'' : PaxLog} (h : SameElsewhere key round l l')
    (h' : SameElsewhere key round l' l'') : SameElsewhere key round l l'' :=
  fun key' round' hne ↦ (h' key' round' hne).trans (h key' round' hne)

theorem sameElsewhere_modify (l : PaxLog) (f : LogEntry → LogEntry) :
    SameElsewhere key round l (l.modify key round f) := by
  intro key' round' hne
  by_cases hkey : key' = key
  · subst hkey
    have hround : round' ≠ round := fun h ↦ hne (by rw [h])
    rw [PaxLog.rounds_modify_self, Finmap.lookup_insert_of_ne _ hround]
  · rw [PaxLog.rounds_modify_of_ne l round f hkey]

/-- **A request about one slot** changes no other entry. -/
theorem sameElsewhere_act {a : Act} (ha : a.slot? = some (key, round)) (s : Replica) :
    SameElsewhere key round s.paxLog (act a s).2.paxLog := by
  cases a with
  | propose q | accept q | success q =>
    cases ha
    rw [paxLog_act]
    exact sameElsewhere_modify _ _
  | _ => cases ha

theorem untouched_propose (q : Request) (s : Replica) : Untouched s (act (.propose q) s).2 := by
  simp [Untouched, act, propose_state]

theorem untouched_accept (q : Request) (s : Replica) : Untouched s (act (.accept q) s).2 := by
  simp [Untouched, act, accept_state]

/-- A success request is learned, or changes no more than the log. -/
theorem learned_success {q : Request} (hround : 0 ≤ q.round) (s : Replica) :
    Untouched s (act (.success q) s).2 ∨ Learned q.key q.value s (act (.success q) s).2 := by
  have hstate := success_state q s ((by decide : intMin ≤ 0).trans hround)
  by_cases hcur : Current q s
  · right
    by_cases hkey : q.key = "leader"
    · simp [Learned, act, hstate, hcur, hkey]
    · simp [Learned, act, hstate, hcur, hkey]
  · left
    simp [Untouched, act, hstate, hcur]

end Requests

/-! ### What one stage changes -/

section Stages

variable {cl : Cluster} {w : Plan Db} {l : List String} {N : String → Replica} {d : String}

/-- A node that a stage does not reach stays as it is. -/
theorem sentAll_cases (a : Act) (l : List String) (N : String → Replica) (d : String) :
    sentAll cl w a l N d = N d ∨ sentAll cl w a l N d = (act a (N d)).2 := by
  rw [sentAll]
  by_cases hd : d ∈ l
  · rw [if_pos hd, Outcome.effect]
    by_cases hex : (w d a).Executed
    · exact .inr (if_pos hex)
    · exact .inl (if_neg hex)
  · exact .inl (if_neg hd)

theorem sameElsewhere_sentAll {key : String} {round : ℤ} {a : Act}
    (ha : a.slot? = some (key, round)) :
    SameElsewhere key round (N d).paxLog (sentAll cl w a l N d).paxLog := by
  rcases @sentAll_cases cl w a l N d with h | h
  · rw [h]
    exact .refl _
  · rw [h]
    exact sameElsewhere_act ha _

theorem untouched_sentAll {a : Act} (ha : ∀ s, Untouched s (act a s).2) :
    Untouched (N d) (sentAll cl w a l N d) := by
  rcases @sentAll_cases cl w a l N d with h | h
  · rw [h]
    exact ⟨rfl, rfl⟩
  · rw [h]
    exact ha _

theorem learned_sentAll {q : Request} (hround : 0 ≤ q.round) :
    Untouched (N d) (sentAll cl w (.success q) l N d) ∨
      Learned q.key q.value (N d) (sentAll cl w (.success q) l N d) := by
  rcases @sentAll_cases cl w (.success q) l N d with h | h
  · rw [h]
    exact .inl ⟨rfl, rfl⟩
  · rw [h]
    exact learned_success hround _

/-- A voter has accepted, and still holds what it has accepted after the success requests. -/
theorem accepted_of_voter {key : String} {q : Request} (hkey : q.key = key) {l' : List String}
    (hd : d ∈ voters w q l) :
    ∃ e : LogEntry, ((sentAll cl w (.success (successRequest key (acceptResponse q))) l'
      (sentAll cl w (.accept q) l N) d).log key).entry q.round = e.accepted q := by
  obtain ⟨hmem, hvote⟩ := List.mem_filter.1 hd
  have haccept : sentAll cl w (.accept q) l N d = (act (.accept q) (N d)).2 := by
    rw [sentAll, if_pos hmem, Outcome.effect, if_pos (.inl (of_decide_eq_true hvote))]
  subst hkey
  rcases @sentAll_cases cl w (.success (successRequest q.key (acceptResponse q))) l'
    (sentAll cl w (.accept q) l N) d with h | h
  · rw [h, haccept]
    exact ⟨_, entry_act_self (.accept q) (N d) rfl⟩
  · rw [h]
    exact ⟨_, entry_act_self (.success (successRequest q.key (acceptResponse q)))
      (sentAll cl w (.accept q) l N d) rfl⟩

end Stages

/-! ### Attempts -/

/-- **All or nothing**: of what an attempt at `r`, in this round, has changed. -/
structure AllOrNothing (cl : Cluster) (r : Request) (round : ℤ) (N N' : String → Replica)
    (rep : Reply) : Prop where
  /-- Only one entry of the logs has changed. -/
  entry : ∀ d, SameElsewhere r.key round (N d).paxLog (N' d).paxLog
  /-- If the attempt fails, nothing is learned. -/
  nothing : ¬ rep.status.Ok → ∀ d, Untouched (N d) (N' d)
  /-- If it returns OK, a quorum holds the value, -/
  all : rep.status.Ok → ∃ Q, IsQuorum cl.memberList Q ∧ ∀ d ∈ Q,
    ((N' d).log r.key).Accepted round ∧
      (((N' d).log r.key).entry round).acceptedValue = rep.response.value
  /-- and nothing else is learned. -/
  learned : rep.status.Ok → ∀ d,
    Untouched (N d) (N' d) ∨ Learned r.key rep.response.value (N d) (N' d)

theorem AllOrNothing.of_failed {cl : Cluster} {r : Request} {round : ℤ} {N N' : String → Replica}
    (hentry : ∀ d, SameElsewhere r.key round (N d).paxLog (N' d).paxLog)
    (huntouched : ∀ d, Untouched (N d) (N' d)) :
    AllOrNothing cl r round N N' defaultResponse where
  entry := hentry
  nothing _ := huntouched
  all hok := absurd hok (Status.not_ok_aborted _)
  learned hok := absurd hok (Status.not_ok_aborted _)

theorem allOrNothing_attemptOutcome (cl : Cluster) (w : Plan Db) (me : String)
    (N : String → Replica) (r : Request) :
    AllOrNothing cl r (Log.size ((N me).log r.key)) N
      (attemptOutcome cl w me N cl.memberList r).2
      (attemptOutcome cl w me N cl.memberList r).1 := by
  simp only [attemptOutcome]
  -- what the stages ask for, and the states between them
  obtain ⟨round, hround⟩ : ∃ round, Log.size ((N me).log r.key) = round := ⟨_, rfl⟩
  have hnonneg : 0 ≤ round := hround ▸ Int.natCast_nonneg _
  rw [hround]
  obtain ⟨p, hp, hpslot⟩ : ∃ p, prepareRequest r round = p ∧
      (Act.propose p).slot? = some (r.key, round) := ⟨_, rfl, rfl⟩
  rw [hp]
  obtain ⟨v, hv⟩ : ∃ v, proposals cl w p (alive w cl.memberList) N = v := ⟨_, rfl⟩
  rw [hv]
  obtain ⟨q, hq, hqkey, hqround, hqid⟩ : ∃ q, acceptRequest r round v = q ∧ q.key = r.key ∧
      q.round = round ∧ q.pserverId = 1 := by
    refine ⟨_, rfl, ?_⟩
    rw [acceptRequest]
    split <;> exact ⟨rfl, rfl, rfl⟩
  rw [hq]
  obtain ⟨N₁, hN₁⟩ : ∃ N₁, sentAll cl w (.propose p) (alive w cl.memberList) N = N₁ := ⟨_, rfl⟩
  rw [hN₁]
  obtain ⟨N₂, hN₂⟩ : ∃ N₂, sentAll cl w (.accept q) (alive w cl.memberList) N₁ = N₂ := ⟨_, rfl⟩
  rw [hN₂]
  have hentry₁ : ∀ d, SameElsewhere r.key round (N d).paxLog (N₁ d).paxLog := fun d ↦
    hN₁ ▸ sameElsewhere_sentAll hpslot
  have hentry₂ : ∀ d, SameElsewhere r.key round (N d).paxLog (N₂ d).paxLog := fun d ↦
    (hentry₁ d).trans (hN₂ ▸ sameElsewhere_sentAll (by rw [Act.slot?, hqkey, hqround]))
  have huntouched₁ : ∀ d, Untouched (N d) (N₁ d) := fun d ↦
    hN₁ ▸ untouched_sentAll (untouched_propose p)
  have huntouched₂ : ∀ d, Untouched (N d) (N₂ d) := fun d ↦
    (huntouched₁ d).trans (hN₂ ▸ untouched_sentAll (untouched_accept q))
  split
  · exact .of_failed (fun _ ↦ .refl _) fun _ ↦ ⟨rfl, rfl⟩
  split
  · exact .of_failed hentry₁ huntouched₁
  split
  · exact .of_failed hentry₂ huntouched₂
  · -- the attempt returns OK
    rename_i hvotes
    refine ⟨fun d ↦ (hentry₂ d).trans (sameElsewhere_sentAll ?_), fun hnot ↦ ?_, fun _ ↦ ?_,
      fun _ d ↦ ?_⟩
    · show some (r.key, q.round) = some (r.key, round)
      rw [hqround]
    · exact absurd Status.ok_default hnot
    · refine ⟨(voters w q (alive w cl.memberList)).toFinset, ⟨fun d hd ↦ ?_, ?_⟩, fun d hd ↦ ?_⟩
      · exact List.mem_toFinset.2 (List.mem_of_mem_filter
          (List.mem_of_mem_filter (List.mem_toFinset.1 hd)))
      · have hnodup : (voters w q (alive w cl.memberList)).Nodup := (cl.nodup.filter _).filter _
        rw [List.toFinset_card_of_nodup hnodup]
        exact not_noQuorum_iff.1 hvotes
      · obtain ⟨e, he⟩ := @accepted_of_voter cl w _ N₁ d r.key q hqkey cl.memberList
          (List.mem_toFinset.1 hd)
        rw [hN₂, hqround] at he
        rw [Log.Accepted, he, LogEntry.accepted, hqid]
        exact ⟨Int.one_pos, rfl⟩
    · have hlearned := @learned_sentAll cl w cl.memberList N₂ d
        (successRequest r.key (acceptResponse q)) (hqround ▸ hnonneg)
      rcases hlearned with h | h
      · exact .inl ((huntouched₂ d).trans h)
      · right
        exact (huntouched₂ d).learned h

/-- **All or nothing.** However the requests of an attempt that runs alone fare, each being
executed and answered, or lost, or executed with its answer lost, it comes to an end; and whatever
it returns, it has changed one entry of the logs only, and stores and leader registers have
learned at most the value that it returns with OK and that a quorum has accepted. -/
theorem allOrNothing {cl : Cluster} (s : Net (db cl)) (w : Plan Db) (me : String) (r : Request) :
    (∃ rep s', s.Handles w me (.attemptConsensus r) rep s') ∧
    ∀ rep s', s.Handles w me (.attemptConsensus r) rep s' →
      AllOrNothing cl r (Log.size ((s.nodes me).log r.key)) s.nodes s'.nodes rep := by
  have heval : Evals (db cl) w me ((db cl).body me (.attemptConsensus r)) s.nodes
      (attemptOutcome cl w me s.nodes cl.memberList r).1
      (attemptOutcome cl w me s.nodes cl.memberList r).2 :=
    evals_attemptOutcome r cl.nodup cl.ne_nil
  constructor
  · obtain ⟨s', hs', -⟩ := handles_of_evals heval
    exact ⟨_, s', hs'⟩
  · intro rep s' hs'
    obtain ⟨rfl, hnodes⟩ := heval.det (evals_of_handles hs')
    rw [← hnodes]
    exact allOrNothing_attemptOutcome cl w me s.nodes r

end ReplicatedDB
