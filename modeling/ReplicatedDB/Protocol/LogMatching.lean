import Mathlib.Data.Int.Interval
import ReplicatedDB.Protocol.OneProposer

/-!
# Log matching

One node runs attempts, at anybody's request and about any key, but only one at a time, and what
they send to the node itself arrives (`OneProposer`). Between attempts its logs have no gaps, and
they have every round that any replica has logged; and no two replicas have accepted different
things in one round (`logsMatch`).
-/

namespace ReplicatedDB

open Rpc Rpc.Net

variable {cl : Cluster}

/-- No attempt is running. -/
def AttemptsDone (s : Net (db cl)) : Prop :=
  ∀ p ∈ s.acts, p.task.request?.isSome → p.prog.result?.isSome

instance (s : Net (db cl)) : Decidable (AttemptsDone s) :=
  inferInstanceAs (Decidable (∀ p ∈ s.acts, p.task.request?.isSome → p.prog.result?.isSome))

/-- No node restarts. An attempt is only started at the node `a`, when no other is running, and
what attempts send to `a` arrives at once. -/
def OneProposer (a : String) (s : Net (db cl)) (l : Label Db) : Prop :=
  l.NoRestart ∧ AttemptsReach a s l ∧
    ∀ m ∈ s.opens? l, m.2.request?.isSome → m.1 = a ∧ AttemptsDone s

instance (a : String) (s : Net (db cl)) : DecidablePred (OneProposer a s) := fun l ↦
  inferInstanceAs (Decidable (_ ∧ _ ∧
    ∀ m ∈ s.opens? l, m.2.request?.isSome → m.1 = a ∧ AttemptsDone s))

/-- Logs that match those of the node `a`. -/
structure LogsMatch (a : String) (s : Net (db cl)) : Prop where
  /-- The node has the rounds from 0 on, without gaps. -/
  proposer : ∀ key, ∃ m : ℕ, ∀ round,
    round ∈ ((s.nodes a).log key).keys ↔ 0 ≤ round ∧ round < m
  /-- Every replica has some of them. -/
  rounds : ∀ d key, ((s.nodes d).log key).keys ⊆ ((s.nodes a).log key).keys
  /-- Entries with an accepted value are equal. -/
  entries : ∀ d d' key round, ((s.nodes d).log key).Accepted round →
    ((s.nodes d').log key).Accepted round →
      (((s.nodes d).log key).entry round).op = (((s.nodes d').log key).entry round).op ∧
      (((s.nodes d).log key).entry round).acceptedValue =
        (((s.nodes d').log key).entry round).acceptedValue

section Runs

variable {a : String} {nodes : String → Replica} {s s' : Net (db cl)}

/-- The attempts are at `a`, and all but the last one have returned. -/
structure OneByOne (a : String) (s : Net (db cl)) : Prop where
  node : ∀ (j : ℕ) (p : Activation Db) r, s.acts[j]? = some p → p.task = .attemptConsensus r →
    p.node = a
  returned : ∀ (i j : ℕ) (p q : Activation Db) r r', s.acts[i]? = some p →
    p.task = .attemptConsensus r → s.acts[j]? = some q → q.task = .attemptConsensus r' → i < j →
      ∃ rep, p.Returned rep

theorem oneByOne (h : Reach (OneProposer a) (cl.start nodes) s) : OneByOne a s := by
  refine h.invariant (I := OneByOne a) ⟨by simp, by simp⟩ ?_
  rintro s l s' - - ih hl hs
  refine ⟨fun j p' r hp' htask ↦ ?_, fun i j p' q' r r' hp' hptask hq' hqtask hij ↦ ?_⟩
  · rcases hs.activation hp' with hp | ⟨-, a', t, origin, rfl, hopen⟩ | ⟨p, hp, rfl, -⟩ |
      ⟨p, hp, rfl, -⟩ | ⟨p, c, k, x, hp, -, -, rfl, -⟩
    · exact ih.node j p' r hp htask
    · exact (hl.2.2 _ hopen.opens?_eq (by rw [show t = _ from htask]; rfl)).1
    · exact ih.node j p r hp htask
    · exact ih.node j p r hp htask
    · exact ih.node j p r hp htask
  · -- the earlier attempt was there before the step, and has returned if there is a later one
    have hkeep : ∀ p, s.acts[i]? = some p → (∃ rep, p.Returned rep) →
        ∃ rep, p'.Returned rep := by
      rintro p hp ⟨rep, hret⟩
      obtain ⟨p'', hp'', -, -, -, -, -, hfin⟩ := hs.keeps hp
      obtain rfl := Option.some.inj (hp'.symm.trans hp'')
      exact ⟨rep, (hfin rep hret).1⟩
    have hi : ∀ q, s.acts[j]? = some q → ∃ p, s.acts[i]? = some p ∧ p.task = p'.task := by
      intro q hq
      obtain ⟨p, hp⟩ : ∃ p, s.acts[i]? = some p :=
        ⟨_, List.getElem?_eq_getElem (hij.trans (lt_length hq))⟩
      obtain ⟨p'', hp'', -, htask, -⟩ := hs.keeps hp
      obtain rfl := Option.some.inj (hp'.symm.trans hp'')
      exact ⟨p, hp, htask.symm⟩
    have hold : ∀ q, s.acts[j]? = some q → q.task = q'.task → ∃ rep, p'.Returned rep := by
      intro q hq htask
      obtain ⟨p, hp, heq⟩ := hi q hq
      exact hkeep p hp
        (ih.returned i j p q r r' hp (heq.trans hptask) hq (htask.trans hqtask) hij)
    rcases hs.activation hq' with hq | ⟨rfl, a', t, origin, rfl, hopen⟩ | ⟨q, hq, rfl, -⟩ |
      ⟨q, hq, rfl, -⟩ | ⟨q, c, k, x, hq, -, -, rfl, -⟩
    · exact hold q' hq rfl
    · -- a new attempt: all others have returned
      obtain ⟨p, hp⟩ : ∃ p, s.acts[i]? = some p := ⟨_, List.getElem?_eq_getElem hij⟩
      obtain ⟨p'', hp'', -, htask, -⟩ := hs.keeps hp
      obtain rfl := Option.some.inj (hp'.symm.trans hp'')
      have hdone := (hl.2.2 _ hopen.opens?_eq (by rw [show t = _ from hqtask]; rfl)).2
      obtain ⟨rep, hret⟩ := Option.isSome_iff_exists.1 (hdone p (List.mem_of_getElem? hp)
        (by rw [← htask, hptask]; rfl))
      exact hkeep p hp ⟨rep, Prog.result?_eq_some_iff.1 hret⟩
    · exact hold q hq rfl
    · exact hold q hq rfl
    · exact hold q hq rfl

theorem solo_oneProposer : Solo a nodes fun (s : Net (db cl)) l ↦ OneProposer a s l where
  reaches s l hl := ⟨hl.2.1, hl.1⟩
  node s h := (oneByOne h).node
  last s h i j p q r r' c k hp hptask hc hq hqtask hij := by
    rcases Nat.lt_or_gt_of_ne hij with hlt | hlt
    · exact ⟨hlt, (oneByOne h).returned i j q p r' r hq hqtask hp hptask hlt⟩
    · obtain ⟨rep, hret⟩ := (oneByOne h).returned j i p q r r' hp hptask hq hqtask hlt
      cases hc.symm.trans hret

end Runs

/-- **Log matching**: between attempts, the only proposer has all rounds without gaps, and no
two replicas have accepted different things in one round. -/
theorem logsMatch {a : String} {nodes : String → Replica} {s : Net (db cl)}
    (ha : a ∈ cl.memberList) (hlog : ∀ d, (nodes d).paxLog = ∅)
    (h : Reach (OneProposer a) (cl.start nodes) s) (hdone : AttemptsDone s) : LogsMatch a s where
  proposer key := by
    -- as many rounds from 0 on as there are numbers below their number
    have hsub : ((s.nodes a).log key).keys ⊆ Finset.Ico 0 ((s.nodes a).log key).size := by
      intro round hround
      obtain ⟨j, r, hprop, -⟩ := proposes_of_logged rfl rfl hlog h hround
      obtain ⟨p, d, hp, -⟩ := id hprop
      obtain ⟨-, rfl⟩ := hprop.round rfl h hp
      exact Finset.mem_Ico.2 ⟨roundOf_nonneg _,
        (counted solo_oneProposer hlog h).lt key _ hround⟩
    have heq := Finset.eq_of_subset_of_card_le hsub (by simp [Log.size])
    refine ⟨((s.nodes a).log key).keys.card, fun round ↦ ?_⟩
    rw [heq, Finset.mem_Ico]
    simp [Log.size]
  rounds d key round hround := by
    obtain ⟨j, r, hprop, rfl⟩ := proposes_of_logged rfl rfl hlog h hround
    obtain ⟨p, d', hp, htask, -⟩ := id hprop
    obtain ⟨rep, hret⟩ := Option.isSome_iff_exists.1
      (hdone p (List.mem_of_getElem? hp) (by rw [htask]; rfl))
    exact logged_of_returned solo_oneProposer hlog ha h hprop hp
      (Prog.result?_eq_some_iff.1 hret)
  entries d d' key round hd hd' := by
    have hown := ownEntries solo_oneProposer hlog ha h
    obtain ⟨j, r, hprop, hkey, hop, hval⟩ := hown.accepted d key round hd
    obtain ⟨j', r', hprop', hkey', hop', hval'⟩ := hown.accepted d' key round hd'
    obtain ⟨p, e, hp, htask, x, hx⟩ := id hprop
    obtain ⟨p', e', hp', htask', x', hx'⟩ := id hprop'
    -- both entries are those of the attempt that has taken the round
    obtain ⟨-, hround⟩ := hprop.round rfl h hp
    obtain ⟨-, hround'⟩ := hprop'.round rfl h hp'
    have hordered := ordered solo_oneProposer hlog ha h
    rcases Nat.lt_trichotomy j j' with hlt | rfl | hlt
    · have := hordered j j' r r' round p' hprop hp' htask' (hkey'.trans hkey.symm) hlt
        (List.ne_nil_of_mem hx')
      omega
    · obtain rfl := Option.some.inj (hp.symm.trans hp')
      obtain rfl := Task.attemptConsensus.inj (htask.symm.trans htask')
      exact ⟨hop.symm.trans hop', hval.symm.trans hval'⟩
    · have := hordered j' j r' r round p hprop' hp htask (hkey.trans hkey'.symm) hlt
        (List.ne_nil_of_mem hx)
      omega

/-- An election that is never accepted, since both other nodes lose its accept requests, and a
second one, of which `c:1` gets the success message at the very end. -/
theorem logsMatch_trio : ∃ s, Reach (OneProposer "a:1") (trio.start fun _ ↦ {}) s ∧
    AttemptsDone s ∧ ((s.nodes "c:1").log "leader").keys = {0, 1} ∧ LogsMatch "a:1" s := by
  obtain ⟨s, hs, hdone, hkeys⟩ : ∃ s, Reach (OneProposer "a:1") (trio.start fun _ ↦ {}) s ∧
      AttemptsDone s ∧ ((s.nodes "c:1").log "leader").keys = {0, 1} :=
    Reach.exists_of_steps (by
      decide +kernel : ((trio.start fun _ ↦ {}).steps (OneProposer "a:1")
        ([.submit "a:1" (.electLeader "leader" "a:1")] ++ calls 1 0 ++ calls 8 1 ++
            [.step 1 .requestLost, .step 1 .requestLost] ++ calls 1 0 ++
          [.submit "a:1" (.electLeader "leader" "a:1")] ++ calls 1 2 ++ calls 6 3 ++
            [.step 3 .requestLost] ++ calls 2 3 ++ [.step 3 .requestLost] ++ calls 2 3 ++
            [.step 3 .late] ++ calls 2 2 ++ [.deliver 0])).any _ = true)
  exact ⟨s, hs, hdone, hkeys, logsMatch (by decide) (fun _ ↦ rfl) hs hdone⟩

end ReplicatedDB
