import Mathlib.Data.Finset.Max
import ReplicatedDB.Protocol.Validity

/-!
# Convergence

Clients may call `set` at the leader concurrently. If every request is executed and answered,
each attempt reaches every member in each of its phases, so in the end all replicas have logged
the same rounds. The store of a replica is that of the largest round, whatever the order in
which the success messages came in, because `success` refuses smaller rounds. But two attempts
may have chosen the same round, and then the order matters (`not_converged_trio`). It does not
if no accepted value is overwritten by another one (`converged_of_acceptsOnce`).
-/

namespace ReplicatedDB

open Rpc Rpc.Net

variable {cl : Cluster}

/-- **Convergence**: all members have the same store. -/
def Converged (s : Net (db cl)) : Prop :=
  ∀ d ∈ cl.memberList, ∀ d' ∈ cl.memberList, (s.nodes d).kvStore = (s.nodes d').kvStore

instance (s : Net (db cl)) : Decidable (Converged s) :=
  inferInstanceAs (Decidable (∀ _ ∈ _, ∀ _ ∈ _, _))

/-- Every request of clients is executed and answered, at once. -/
def Reliable (s : Net (db cl)) (l : Label Db) : Prop := l.Prompt ∧ ClientCalls s l

instance (s : Net (db cl)) (l : Label Db) : Decidable (Reliable s l) :=
  inferInstanceAs (Decidable (_ ∧ _))

/-- The condition for convergence. -/
def ReliableOnce (s : Net (db cl)) (l : Label Db) : Prop := Reliable s l ∧ AcceptsOnce s l

instance (s : Net (db cl)) (l : Label Db) : Decidable (ReliableOnce s l) :=
  inferInstanceAs (Decidable (_ ∧ _))

theorem prompt_noRestart {l : Label Db} (h : l.Prompt) : l.NoRestart := by
  cases l with
  | restart a => exact h
  | _ => trivial

theorem prompt_noLate {l : Label Db} (h : l.Prompt) : l.NoLate := by
  cases l with
  | step i o => exact h ▸ nofun
  | _ => trivial

section Runs

variable {nodes : String → Replica} {s s' : Net (db cl)} {l : Label Db}

/-! ### Runs in which no accepted value is overwritten -/

/-- What a node was sent for acceptance it holds. -/
def HoldsSent (s : Net (db cl)) : Prop :=
  ∀ (j : ℕ) (p : Activation Db), s.acts[j]? = some p → ∀ d q, Sent p.hist d (.accept q) →
    (s.nodes d).held q.key q.round = some q.value

/-- Everything arrives. -/
theorem delivers {d : String} (s : Net (db cl)) (l : Label Db) (hl : ReliableOnce s l) :
    AttemptsReach d s l ∧ l.NoRestart :=
  ⟨attemptsReach_of_deliversTo (deliversTo_of_prompt hl.1.1 d), prompt_noRestart hl.1.1⟩

section Once

variable (hnodes : ∀ d, (nodes d).paxLog = ∅)

theorem reach_late (h : Reach ReliableOnce (cl.start nodes) s) : s.late = [] :=
  h.late_eq_nil rfl fun _ _ hl ↦ prompt_noLate hl.1.1

include hnodes

/-- A success request carries the value that its node has accepted before. -/
theorem held_of_success (h : Reach ReliableOnce (cl.start nodes) s) (hA : HoldsSent s)
    {d : String} {q : Request} (hreq : s.Requested d (.success q)) :
    (s.nodes d).held q.key q.round = some q.value := by
  rcases hreq with ⟨i, p, dest, k, hp, hc, rfl⟩ | hm
  case inr => simp [reach_late h] at hm
  obtain ⟨r, d, htask, rfl, hd, ⟨-, -, qa, ⟨hadopt, hsent, -⟩, rfl⟩, -⟩ :=
    attempt_of_call rfl h hp hc rfl
  obtain ⟨st, hping, hsent⟩ := hsent d hd
  have hok : Status.Ok st :=
    answerOk rfl rfl hnodes (fun s l hl ↦ (delivers s l hl).1) h i p hp _ hping rfl
  have hheld := hA i p hp d qa (hsent hok)
  rw [hadopt.key] at hheld
  exact hheld

/-- **What a node has accepted stays.** -/
theorem held_stable (h : Reach ReliableOnce (cl.start nodes) s) (hA : HoldsSent s)
    (hl : ReliableOnce s l) (hs : Step s l s') {d key value : String} {round : ℤ}
    (hheld : (s.nodes d).held key round = some value) :
    (s'.nodes d).held key round = some value := by
  rcases replica_step hs d with hnode | ⟨a, hex, hnode⟩ | ⟨rfl, -⟩
  · rwa [hnode]
  · rw [hnode]
    by_cases hq : ∃ q, a.write? = some q ∧ q.key = key ∧ q.round = round
    · obtain ⟨q, hw, rfl, rfl⟩ := hq
      have hreq := hs.executed hex
      rw [held_act_self (sound_of_requested rfl rfl h hreq) hw]
      cases a <;> cases hw
      · -- an accept request: it agrees with what it meets
        exact congrArg some (hl.2.2 _ hex q rfl value hheld).symm
      · -- a success request: its value was accepted before
        exact (held_of_success hnodes h hA hreq).symm.trans hheld
    · rw [held_act_of_ne fun q hw hslot ↦ hq ⟨q, hw, hslot⟩]
      exact hheld
  · exact absurd hl.1.1 id

theorem holdsSent (h : Reach ReliableOnce (cl.start nodes) s) : HoldsSent s := by
  have hall := h.answered rfl (P := fun (s : Net (db cl)) _ (e : Event Db) ↦
    ∀ d q, e.1 = .act (some d) (Act.accept q) → (s.nodes d).held q.key q.round = some q.value) ?_ ?_
  · rintro j p hp d q ⟨x, hx⟩
    exact hall j p hp _ hx d q rfl
  · intro s l s' hr ih hl hs j p hp e he hkeep d q heq
    have hA : HoldsSent s := by
      rintro j p hp d q ⟨x, hx⟩
      exact ih j p hp _ hx d q rfl
    exact held_stable hnodes hr hA hl hs (hkeep d q heq)
  · rintro s l s' hr - hl hs j p c k r hp - hc hans d q rfl
    have hex := ((deliversTo_of_prompt hl.1.1 d).executed hp hc hans).1
    rw [replica_executed hs hex]
    exact held_act_self (sound_of_requested rfl rfl hr (hs.executed hex)) rfl

/-- **The store has the value of the largest round**, once its success message has come. -/
theorem stored_of_largest (h : Reach ReliableOnce (cl.start nodes) s) {j : ℕ}
    {p : Activation Db} (hp : s.acts[j]? = some p) {d : String} {q : Request}
    (hsent : Sent p.hist d (.success q)) (hkey : q.key ≠ "leader")
    (hmax : Current q (s.nodes d)) :
    ∃ w, (s.nodes d).kvStore.lookup q.key = some w ∧
      (s.nodes d).held q.key q.round = some w := by
  obtain ⟨x, hx⟩ := hsent
  refine h.answered rfl (P := fun (s : Net (db cl)) _ (e : Event Db) ↦
    e.1 = .act (some d) (Act.success q) → Current q (s.nodes d) → ∃ w,
      (s.nodes d).kvStore.lookup q.key = some w ∧
        (s.nodes d).held q.key q.round = some w) ?_ ?_ j p hp _ hx rfl hmax
  · rintro s l s' hr - hl hs j p hp ⟨c, x⟩ he hkeep rfl hmax'
    have hmax : Current q (s.nodes d) := fun r hr' ↦ hmax' r
      (keys_mono hs (prompt_noRestart hl.1.1) hr')
    obtain ⟨w, hw, hheld⟩ := hkeep rfl hmax
    have hheld' := held_stable hnodes hr (holdsSent hnodes hr) hl hs hheld
    rcases replica_step hs d with hnode | ⟨a, hex, hnode⟩ | ⟨rfl, -⟩
    · exact ⟨w, by rwa [hnode], hheld'⟩
    · have hsound := sound_of_requested rfl rfl hr (hs.executed hex)
      rcases kvStore_act a (s.nodes d) hsound with heq | ⟨q', rfl, hcur, -, heq⟩ |
        ⟨k, v, rfl, heq⟩
      · exact ⟨w, by rwa [hnode, heq], hheld'⟩
      · by_cases hqk : q.key = q'.key
        · -- the rounds are the same, since both are the largest
          have hsent : Sent p.hist d (.success q) := ⟨x, he⟩
          have hin : q.round ∈ ((s.nodes d).log q'.key).keys :=
            logged_of_sent rfl delivers hr hp hsent (by rw [← hqk]; rfl)
          have hin' : q'.round ∈ ((s'.nodes d).log q.key).keys := by
            rw [hnode, mem_keys_act, hqk]
            exact .inr rfl
          have hround : q.round = q'.round := le_antisymm (hcur _ hin) (hmax' _ hin')
          refine ⟨q'.value, ?_, ?_⟩
          · rw [hnode, heq, hqk, KVStore.lookup_setKV_self]
          · rw [hnode, hqk, hround]
            exact held_act_self hsound rfl
        · refine ⟨w, ?_, hheld'⟩
          rw [hnode, heq, KVStore.lookup_setKV_of_ne _ _ hqk]
          exact hw
      · -- nothing is copied
        exact absurd (hs.executed hex) (not_requested_setKV rfl rfl
          (fun _ _ hl ↦ prompt_noRestart hl.1.1) (fun _ _ _ hl ↦ ofClient_ne_coordinate hl.1.2) hr)
    · exact absurd hl.1.1 id
  · rintro s l s' hr - hl hs j p c k r hp - hc hans rfl hmax'
    have hex := ((deliversTo_of_prompt hl.1.1 d).executed hp hc hans).1
    have hsound := sound_of_requested rfl rfl hr (hs.executed hex)
    have hcur : Current q (s.nodes d) := fun r hr' ↦ hmax' r
      (keys_mono hs (prompt_noRestart hl.1.1) hr')
    refine ⟨q.value, ?_, ?_⟩
    · rw [replica_executed hs hex, kvStore_success _ hsound.2 hcur hkey,
        KVStore.lookup_setKV_self]
    · rw [replica_executed hs hex]
      exact held_act_self hsound rfl

omit hnodes in
/-- A stored value came with a success message. -/
theorem success_of_stored (hstore : ∀ d, (nodes d).kvStore = ∅)
    (h : Reach ReliableOnce (cl.start nodes) s) {d key value : String}
    (hd : (s.nodes d).kvStore.lookup key = some value) :
    ∃ (j : ℕ) (p : Activation Db) (q : Request), s.acts[j]? = some p ∧
      Sent p.hist d (.success q) ∧ q.key = key ∧ key ≠ "leader" := by
  refine h.invariant (I := fun (s : Net (db cl)) ↦ ∀ d value,
    (s.nodes d).kvStore.lookup key = some value →
    ∃ (j : ℕ) (p : Activation Db) (q : Request), s.acts[j]? = some p ∧
      Sent p.hist d (.success q) ∧ q.key = key ∧ key ≠ "leader") ?_ ?_ d value hd
  · intro d value hd
    rw [start_nodes, hstore] at hd
    cases hd
  intro s l s' hr _ ih hl hs d value hd
  have hkeep : (s.nodes d).kvStore.lookup key = some value →
      ∃ (j : ℕ) (p : Activation Db) (q : Request), s'.acts[j]? = some p ∧
        Sent p.hist d (.success q) ∧ q.key = key ∧ key ≠ "leader" := by
    intro hd
    obtain ⟨j, p, q, hp, hsent, hkey⟩ := ih d value hd
    obtain ⟨p', hp', -, -, -, -, hhist, -⟩ := hs.keeps hp
    exact ⟨j, p', q, hp', hsent.mono hhist.subset, hkey⟩
  rcases replica_step hs d with hnode | ⟨a, hex, hnode⟩ | ⟨rfl, -⟩
  · exact hkeep (hnode ▸ hd)
  · have hsound := sound_of_requested rfl rfl hr (hs.executed hex)
    obtain ⟨i, o, p, dest, k, x, -, -, hp, hc, hdest, hp'⟩ | hm := hs.executed_by hex
    case inr => simp [reach_late hr] at hm
    rcases kvStore_act a (s.nodes d) hsound with heq | ⟨q, rfl, -, hkey, heq⟩ |
      ⟨k, v, rfl, -⟩
    · exact hkeep (by rwa [hnode, heq] at hd)
    · by_cases hqk : key = q.key
      · subst hqk
        obtain ⟨r, d', -, rfl, -⟩ := attempt_of_call rfl hr hp hc rfl
        obtain rfl : d = d' := hdest
        exact ⟨i, _, q, hp', ⟨x, heard_append_one.2 (.inr ⟨rfl, rfl⟩)⟩, rfl, hkey⟩
      · rw [hnode, heq, KVStore.lookup_setKV_of_ne _ _ hqk] at hd
        exact hkeep hd
    · exact absurd (hs.executed hex) (not_requested_setKV rfl rfl
        (fun _ _ hl ↦ prompt_noRestart hl.1.1) (fun _ _ _ hl ↦ ofClient_ne_coordinate hl.1.2) hr)
  · exact absurd hl.1.1 id

/-- **A finished attempt has reached all members**: with the acceptance and the success of one
value, in the round it chose. -/
theorem finished_attempt (h : Reach ReliableOnce (cl.start nodes) s) {j : ℕ}
    {p : Activation Db} (hp : s.acts[j]? = some p) {r : Request}
    (htask : p.task = .attemptConsensus r) {rep : Reply} (hret : p.Returned rep) :
    ∃ qa, qa.key = r.key ∧ qa.round = roundOf p.hist ∧ ∀ d ∈ cl.memberList,
      Sent p.hist d (.accept qa) ∧
      Sent p.hist d (.success (successRequest r.key (acceptResponse qa))) := by
  have hok := fun d ↦ answerOk rfl rfl hnodes (fun s l hl ↦ (delivers (d := d) s l hl).1) h j p hp
  have hreturns := ((contract cl).lawful rfl h j p hp).returns hret
  rw [htask] at hreturns
  obtain ⟨-, ⟨-, qa, ⟨hadopt, hsent, -⟩, -, hsuccess⟩ | ⟨-, -, hfail⟩⟩ := hreturns
  · refine ⟨qa, hadopt.key, hadopt.round, fun d hd ↦ ⟨?_, hsuccess d hd⟩⟩
    obtain ⟨st, hping, hsent⟩ := hsent d hd
    exact hsent (hok d _ hping rfl)
  · rcases hfail with ⟨d, st, hx, hnot⟩ | ⟨d, q, x, hx, hnot⟩ | ⟨d, q, x, hx, hnot⟩
    · exact absurd (hok d _ hx rfl) hnot
    · exact absurd (hok d _ hx rfl) hnot
    · exact absurd (hok d _ hx rfl) hnot

end Once

end Runs

/-- **Convergence of concurrent requests**: when all of them have returned, all members have the
same store, provided no accepted value was overwritten by another one. -/
theorem converged_of_acceptsOnce {nodes : String → Replica} {s : Net (db cl)}
    (hlog : ∀ d, (nodes d).paxLog = ∅) (hstore : ∀ d, (nodes d).kvStore = ∅)
    (h : Reach ReliableOnce (cl.start nodes) s)
    (hdone : s.Finished) : Converged s := by
  -- what one member has stored, every other member has
  have hsame : ∀ d ∈ cl.memberList, ∀ d' ∈ cl.memberList, ∀ key value,
      (s.nodes d).kvStore.lookup key = some value →
        (s.nodes d').kvStore.lookup key = some value := by
    intro d hd d' hd' key value hvalue
    obtain ⟨j, p, q, hp, hsent, rfl, hkey⟩ := success_of_stored hstore h hvalue
    have hlogged : ∀ {j : ℕ} {p : Activation Db} {d a key round}, s.acts[j]? = some p →
        Sent p.hist d a → a.slot? = some (key, round) →
          round ∈ ((s.nodes d).log key).keys :=
      fun hp hsent hslot ↦ logged_of_sent rfl delivers h hp hsent hslot
    -- every logged round is that of an attempt that has reached all members
    have hattempt : ∀ d round, round ∈ ((s.nodes d).log q.key).keys →
        ∃ (i : ℕ) (p₁ : Activation Db) (qa : Request), s.acts[i]? = some p₁ ∧ qa.key = q.key ∧
          qa.round = round ∧ ∀ d ∈ cl.memberList, Sent p₁.hist d (.accept qa) ∧
          Sent p₁.hist d (.success (successRequest q.key (acceptResponse qa))) := by
      intro d round hround
      obtain ⟨i, r, hprop, hrkey⟩ := proposes_of_logged rfl rfl hlog h hround
      obtain ⟨p₁, d₁, hp₁, htask, -⟩ := id hprop
      obtain ⟨rep, hret⟩ := hdone.returned (List.mem_of_getElem? hp₁)
      obtain ⟨qa, hqkey, hqround, hsent⟩ := finished_attempt hlog h hp₁ htask hret
      have hround' := (hprop.round rfl h hp₁).2
      refine ⟨i, p₁, qa, hp₁, hqkey.trans hrkey, hqround.trans ?_, hrkey ▸ hsent⟩
      exact hround'.symm
    -- the largest round that `d` has logged for the key
    have hne : ((s.nodes d).log q.key).keys.Nonempty := ⟨q.round, hlogged hp hsent rfl⟩
    obtain ⟨i, p₁, qa, hp₁, hqkey, hqround, hall⟩ := hattempt d _ (Finset.max'_mem _ hne)
    have hcurrent : ∀ d₂ ∈ cl.memberList,
        Current (successRequest q.key (acceptResponse qa)) (s.nodes d₂) := by
      intro d₂ hd₂ round hround
      obtain ⟨i₂, p₂, qa₂, hp₂, -, rfl, hall₂⟩ := hattempt d₂ round hround
      exact (Finset.le_max' _ _ (hlogged hp₂ (hall₂ d hd).2 rfl)).trans hqround.ge
    have hstored : ∀ d₂ ∈ cl.memberList,
        (s.nodes d₂).kvStore.lookup q.key = some qa.value := by
      intro d₂ hd₂
      obtain ⟨w, hw, hheld⟩ := stored_of_largest hlog h hp₁ (hall d₂ hd₂).2 hkey
        (hcurrent d₂ hd₂)
      have hheld' := holdsSent hlog h i p₁ hp₁ d₂ qa (hall d₂ hd₂).1
      rw [hqkey] at hheld'
      exact hw.trans (hheld.symm.trans hheld')
    rw [hstored d' hd', ← hvalue, hstored d hd]
  intro d hd d' hd'
  refine Finmap.ext_lookup fun key ↦ ?_
  rcases hlookup : (s.nodes d).kvStore.lookup key with _ | value
  · rcases hlookup' : (s.nodes d').kvStore.lookup key with _ | value
    · rfl
    · exact absurd (hsame d' hd' d hd key value hlookup') (by simp [hlookup])
  · exact (hsame d hd d' hd' key value hlookup).symm


/-! ### Runs of three nodes -/

/-- The clients' requests are sets at the node `a`, and everything is executed and answered. -/
def SetsAt (a : String) (_ : Net (db cl)) : Label Db → Prop
  | .submit a' (.set key _) => a' = a ∧ key ≠ "leader"
  | .step _ o => o = .delivered
  | _ => False

instance (a : String) (s : Net (db cl)) : DecidablePred (SetsAt a s)
  | .submit a' (.set key _) => inferInstanceAs (Decidable (a' = a ∧ key ≠ "leader"))
  | .step _ o => inferInstanceAs (Decidable (o = .delivered))
  | .submit _ (.attemptConsensus _) | .submit _ (.electLeader _ _) | .submit _ (.get _)
  | .submit _ .coordinate | .deliver _ | .restart _ => inferInstanceAs (Decidable False)

/-- `a:1` handles a set of `k` to `v` and one to `w`; the attempts are the activations 2 and 3. -/
def twoSets : List (Label Db) :=
  [.submit "a:1" (.set "k" "v"), .submit "a:1" (.set "k" "w")] ++ calls 2 0 ++ calls 2 1

/-- The second attempt chooses its round when the first one has proposed. -/
theorem converged_trio : ∃ s, Reach ReliableOnce (trio.start fun _ ↦ { leader := "a:1" }) s ∧
    s.Finished ∧ (s.nodes "b:1").kvStore.lookup "k" = some "w" ∧ Converged s := by
  obtain ⟨s, hs, hdone, hw⟩ : ∃ s, Reach ReliableOnce (trio.start fun _ ↦ { leader := "a:1" }) s ∧
      s.Finished ∧ (s.nodes "b:1").kvStore.lookup "k" = some "w" :=
    Reach.exists_of_steps (by
      decide +kernel : ((trio.start fun _ ↦ { leader := "a:1" }).steps ReliableOnce
        (twoSets ++ calls 7 2 ++ calls 7 3 ++ calls 6 2 ++ calls 6 3 ++ calls 1 0 ++
          calls 1 1)).any _ = true)
  exact ⟨s, hs, hdone, hw, converged_of_acceptsOnce (fun _ ↦ rfl) (fun _ ↦ rfl) hs hdone⟩

/-- **Stores that differ for good**: both attempts choose round 0, and the success messages of
the second one to `a:1`, `b:1` and `c:1` come between the first one's to `a:1` and to the
others. -/
theorem not_converged_trio : ∃ s, Reach (SetsAt "a:1") (trio.start fun _ ↦ { leader := "a:1" }) s ∧
    s.Finished ∧ ¬ Converged s :=
  Reach.exists_of_steps (by
    decide +kernel : ((trio.start fun _ ↦ { leader := "a:1" }).steps (SetsAt "a:1")
      (twoSets ++ calls 1 2 ++ calls 1 3 ++ calls 6 2 ++ calls 6 3 ++ calls 3 2 ++ calls 3 3 ++
        calls 1 2 ++ calls 3 3 ++ calls 2 2 ++ calls 1 0 ++ calls 1 1)).any _ = true)

end ReplicatedDB
