import ReplicatedDB.Protocol.Convergence
import ReplicatedDB.Protocol.OwnValue

/-!
# Visibility of acknowledged sets

A set that is acknowledged should be visible at the leader from then on, until another set
overwrites it. But `success` refuses a commit as soon as any larger round has been opened for
the key, by a proposal that may never be committed, and the attempt does not look at the status
of its success messages: with two overlapping sets and nothing lost, the first one returns OK
although no node has stored its value (`not_visibleAt_trio`).

The acknowledged sets are visible at a node in every run in which each success message for its
store is executed there while no larger round is logged, and nothing is adopted
(`visibleAt_of_committedAt`).
-/

namespace ReplicatedDB

open Rpc Rpc.Net

variable {cl : Cluster}

/-- The store of the node `a` holds the value of an attempt on the key that has reached its
success phase and had not finished at the time `start`. -/
def Covered (s : Net (db cl)) (a : String) (key : String) (start : ℕ) : Prop :=
  ∃ (j : ℕ) (p : Activation Db) (r : Request), s.acts[j]? = some p ∧
    p.task = .attemptConsensus r ∧ r.key = key ∧ (∃ d q, Sent p.hist d (.success q)) ∧
    (s.nodes a).kvStore.lookup key = some r.value ∧ ∀ t, p.stop = some t → start ≤ t

/-- **Acknowledged sets are visible** at the node `a`: if an attempt on a key of the store has
returned OK, then `a` holds its value or that of another attempt on the key that has reached
its success phase, and overlapped with it or was started later. -/
def VisibleAt (a : String) (s : Net (db cl)) : Prop :=
  ∀ p ∈ s.acts, ∀ r rep, p.task = .attemptConsensus r → r.key ≠ "leader" → p.Returned rep →
    rep.status.Ok → Covered s a r.key p.start

/-- A success message for the store is current when it is executed. -/
def SuccessCurrent (b : Act) (s : Replica) : Prop :=
  ∀ q ∈ b.success?, q.key = "leader" ∨ Current q s

instance (b : Act) (s : Replica) : Decidable (SuccessCurrent b s) :=
  inferInstanceAs (Decidable (∀ q ∈ b.success?, q.key = "leader" ∨ Current q s))

/-- A success message for the store of the node `a` is executed while its caller waits. -/
def SuccessArrives (a : String) (s : Net (db cl)) : Label Db → Prop
  | .step i o => ∀ p ∈ s.acts[i]?, ∀ m ∈ p.prog.action?, m.1 = some a →
      ∀ q ∈ m.2.success?, q.key ≠ "leader" → o.Executed
  | _ => True

instance (a : String) (s : Net (db cl)) : DecidablePred (SuccessArrives a s)
  | .step i o => inferInstanceAs (Decidable (∀ p ∈ s.acts[i]?, ∀ m ∈ p.prog.action?,
      m.1 = some a → ∀ q ∈ m.2.success?, q.key ≠ "leader" → o.Executed))
  | .submit _ _ | .deliver _ | .restart _ => inferInstanceAs (Decidable True)

/-- What is sent to the store of the node `a` is committed there. -/
def CommittedAt (a : String) (s : Net (db cl)) (l : Label Db) : Prop :=
  l.NoRestart ∧ ClientCalls s l ∧ NoneAdopted s l ∧ SuccessArrives a s l ∧
    ∀ m ∈ s.executed? l, m.1 = a → SuccessCurrent m.2 (s.nodes m.1)

instance (a : String) (s : Net (db cl)) (l : Label Db) : Decidable (CommittedAt a s l) :=
  inferInstanceAs (Decidable (_ ∧ _ ∧ _ ∧ _ ∧ _))

section Runs

variable {a : String} {nodes : String → Replica} {s s' : Net (db cl)} {l : Label Db}

/-- A success message for the store of the node arrives. -/
theorem SuccessArrives.executed {i : ℕ} {o : Outcome} (hl : SuccessArrives a s (.step i o))
    {p : Activation Db} (hp : s.acts[i]? = some p) {q : Request} {k : Status → Program Reply}
    (hc : p.prog = .call (.act (some a) (.success q)) k) (hkey : q.key ≠ "leader") :
    o.Executed := by
  have haction : p.prog.action? = some (some a, .success q) := by
    rw [hc]
    rfl
  exact hl p hp _ haction rfl q rfl hkey

/-- No success message for the store of the node is in flight. -/
theorem no_late_success (h : Reach (CommittedAt a) (cl.start nodes) s) {q : Request}
    (hkey : q.key ≠ "leader") : (a, Act.success q) ∉ s.late := by
  refine h.invariant (I := fun (s : Net (db cl)) ↦ (a, Act.success q) ∉ s.late) (by simp) ?_
  intro s l s' hr _ ih hl hs hm
  rcases hs.new_late hm with hm | ⟨i, p, k, -, rfl, hp, hc, -⟩
  · exact ih hm
  · have hexec := hl.2.2.2.1.executed hp hc hkey
    exact absurd hexec (by decide)

/-- A success message executed at the node covers everything that has started. -/
theorem covered_of_success (h : Reach (CommittedAt a) (cl.start nodes) s)
    (hl : CommittedAt a s l) (hs : Step s l s') {q : Request}
    (hex : s.executed? l = some (a, .success q)) (hkey : q.key ≠ "leader") {start : ℕ}
    (hstart : start ≤ s.clock) : Covered s' a q.key start := by
  obtain ⟨-, -, hadopt, -, hcur⟩ := hl
  have hsound := sound_of_requested rfl rfl h (hs.executed hex)
  obtain ⟨i, o, p, dest, k, x, -, -, hp, hc, -, hp'⟩ | hm := hs.executed_by hex
  case inr => exact absurd hm (no_late_success h hkey)
  obtain ⟨r, d, htask, rfl, -, ⟨-, -, qa, ⟨hq, -⟩, rfl⟩, -⟩ := attempt_of_call rfl h hp hc rfl
  refine ⟨i, _, r, hp', htask, rfl, ⟨d, _, x, heard_append_one.2 (.inr ⟨rfl, rfl⟩)⟩, ?_, ?_⟩
  · have hown := hq.own (fun _ _ hl ↦ hl.2.2.1) h hp htask hkey (fun _ he ↦ he)
    rw [replica_executed hs hex,
      kvStore_success _ hsound.2 ((hcur _ hex rfl _ rfl).resolve_left hkey) hkey]
    exact (KVStore.lookup_setKV_self _ _ _).trans (congrArg some hown)
  · intro t ht
    obtain ⟨-, -, rfl⟩ := Option.map_eq_some_iff.1 ht
    exact hstart

/-- Whatever a step does, it keeps what is covered. -/
theorem Covered.step (h : Reach (CommittedAt a) (cl.start nodes) s) (hl : CommittedAt a s l)
    (hs : Step s l s') {key : String} (hkey : key ≠ "leader") {start : ℕ}
    (hstart : start ≤ s.clock) (hcov : Covered s a key start) : Covered s' a key start := by
  obtain ⟨j, p, r, hp, htask, hrkey, ⟨d, q, hsent⟩, hlookup, hstop⟩ := hcov
  obtain ⟨p', hp', -, htask', -, -, hhist, -⟩ := hs.keeps hp
  -- unless the store changes
  have hkeep : (s'.nodes a).kvStore.lookup key = (s.nodes a).kvStore.lookup key →
      Covered s' a key start := by
    intro heq
    refine ⟨j, p', r, hp', htask'.trans htask, hrkey, ⟨d, q, hsent.mono hhist.subset⟩,
      heq.trans hlookup, fun t ht ↦ ?_⟩
    rcases hs.stop hp hp' ht with ht | rfl
    · exact hstop t ht
    · exact hstart
  rcases replica_step hs a with hnode | ⟨b, hex, hnode⟩ | ⟨rfl, -⟩
  · exact hkeep (by rw [hnode])
  · have hsound := sound_of_requested rfl rfl h (hs.executed hex)
    rcases kvStore_act b (s.nodes a) hsound with heq | ⟨q', rfl, -, -, heq⟩ |
      ⟨k, v, rfl, -⟩
    · exact hkeep (by rw [hnode, heq])
    · by_cases hqk : key = q'.key
      · subst hqk
        exact covered_of_success h hl hs hex hkey hstart
      · exact hkeep (by rw [hnode, heq, KVStore.lookup_setKV_of_ne _ _ hqk])
    · exact absurd (hs.executed hex) (not_requested_setKV rfl rfl (fun _ _ hl ↦ hl.1)
        (fun _ _ _ hl ↦ ofClient_ne_coordinate hl.2.1) h)
  · exact absurd hl.1 id

/-- **Acknowledged sets are visible** at a node that commits all success messages sent to it. -/
theorem visibleAt_of_committedAt (ha : a ∈ cl.memberList)
    (h : Reach (CommittedAt a) (cl.start nodes) s) : VisibleAt a s := by
  intro p hp r rep htask hkey hret hok
  obtain ⟨j, hj⟩ := List.getElem?_of_mem hp
  have hreturns := ((contract cl).lawful rfl h j p hj).returns hret
  rw [htask] at hreturns
  obtain ⟨-, ⟨-, qa, -, -, hsent⟩ | ⟨rfl, -⟩⟩ := hreturns
  case inr => exact absurd hok (Status.not_ok_aborted _)
  obtain ⟨x, hx⟩ := hsent a ha
  -- from the success message on, the attempt is covered
  have hcov := h.answered rfl (P := fun (s : Net (db cl)) j (e : Event Db) ↦ ∀ q p,
    e.1 = .act (some a) (Act.success q) → q.key ≠ "leader" → s.acts[j]? = some p →
      Covered s a q.key p.start) ?_ ?_
  · have hp := hcov j p hj _ hx (successRequest r.key (acceptResponse qa)) p rfl hkey hj
    exact hp
  · intro s l s' hr _ hl hs j p hp e _ hkeep q p' he hkey hp'
    obtain ⟨p₁, hp₁, -, -, -, hstart, -⟩ := hs.keeps hp
    obtain rfl := Option.some.inj (hp'.symm.trans hp₁)
    rw [hstart]
    exact (hkeep q p he hkey hp).step hr hl hs hkey (hr.start_le rfl hp)
  · rintro s l s' hr - hl hs j p c k y hp - hc hans q p' rfl hkey hp'
    obtain ⟨p₁, hp₁, -, -, -, hstart, -⟩ := hs.keeps hp
    obtain rfl := Option.some.inj (hp'.symm.trans hp₁)
    rw [hstart]
    obtain ⟨o, rfl, -⟩ := hans
    have hexec := hl.2.2.2.1.executed hp hc hkey
    exact covered_of_success hr hl hs (executed?_of_executed hp hc hexec) hkey
      (hr.start_le rfl hp)

end Runs

/-! ### Runs of three nodes -/

/-- The attempt of the second set starts when the first one has sent its success messages. -/
theorem visibleAt_trio : ∃ s, Reach (CommittedAt "a:1") (trio.start fun _ ↦ { leader := "a:1" }) s ∧
    s.Finished ∧ (s.nodes "a:1").kvStore.lookup "k" = some "w" ∧ VisibleAt "a:1" s := by
  obtain ⟨s, hs, hdone, hw⟩ : ∃ s,
      Reach (CommittedAt "a:1") (trio.start fun _ ↦ { leader := "a:1" }) s ∧
      s.Finished ∧ (s.nodes "a:1").kvStore.lookup "k" = some "w" :=
    Reach.exists_of_steps (by
      decide +kernel : ((trio.start fun _ ↦ { leader := "a:1" }).steps (CommittedAt "a:1")
        (twoSets ++ calls 13 2 ++ calls 13 3 ++ calls 1 0 ++ calls 1 1)).any _ = true)
  exact ⟨s, hs, hdone, hw, visibleAt_of_committedAt (by decide) hs⟩

/-- **An acknowledged set that nobody has stored**: the second attempt opens round 1 everywhere
before the success messages of the first one, and stops there. -/
theorem not_visibleAt_trio : ∃ s, Reach (SetsAt "a:1") (trio.start fun _ ↦ { leader := "a:1" }) s ∧
    ¬ VisibleAt "a:1" s := by
  obtain ⟨s, hs, hatt, hnone⟩ : ∃ s,
      Reach (SetsAt "a:1") (trio.start fun _ ↦ { leader := "a:1" }) s ∧
      (s.acts[2]?.map fun p ↦ (p.task, p.prog.result?.map Reply.status)) =
        some (.attemptConsensus (setRequest "k" "v"), some ({} : Status)) ∧
      (s.nodes "a:1").kvStore.lookup "k" = none :=
    Reach.exists_of_steps (by
      decide +kernel : ((trio.start fun _ ↦ { leader := "a:1" }).steps (SetsAt "a:1")
        (twoSets ++ calls 10 2 ++ calls 7 3 ++ calls 3 2)).any _ = true)
  refine ⟨s, hs, fun hvis ↦ ?_⟩
  obtain ⟨p, hp, hatt⟩ := Option.map_eq_some_iff.1 hatt
  obtain ⟨htask, hres⟩ := Prod.mk.inj hatt
  obtain ⟨rep, hret, hok⟩ := Option.map_eq_some_iff.1 hres
  obtain ⟨j, q, r, -, -, -, -, hlookup, -⟩ := hvis p (List.mem_of_getElem? hp) _ rep htask
    (by decide) (Prog.result?_eq_some_iff.1 hret) (hok ▸ Status.ok_default)
  rw [show (setRequest "k" "v").key = "k" from rfl, hnone] at hlookup
  cases hlookup

end ReplicatedDB
