import ReplicatedDB.Protocol.Messages
import ReplicatedDB.Voting.Slot

/-!
# Agreement

A slot of the log is a key together with a round. The attempts that are acknowledged by a quorum
for a slot have chosen its value, in the sense of `Voting.Slot`: `slot` collects the
acknowledgements in the histories of the attempts and the entries in the logs of the nodes.

Since `accept` does not look at the promise and every proposal has the id 1, two attempts in one
round may have their values accepted one after the other by the same nodes, and both return OK
(`not_agreement_trio`). What would be needed is exactly that no `accept` overwrites the accepted
entry of its round by another value (`AcceptAgrees`): then one value is chosen for each slot,
whatever the interleaving and whatever is lost (`agreement_of_acceptsOnce`).
-/

namespace ReplicatedDB

open Rpc Rpc.Net

variable {cl : Cluster}

/-- The cluster, before anything was called. -/
def Cluster.start (cl : Cluster) (nodes : String → Replica) : Net (db cl) := { nodes := nodes }

@[simp] theorem start_acts (nodes : String → Replica) : (cl.start nodes).acts = [] := rfl
@[simp] theorem start_late (nodes : String → Replica) : (cl.start nodes).late = [] := rfl
@[simp] theorem start_nodes (nodes : String → Replica) : (cl.start nodes).nodes = nodes := rfl

/-- An attempt got an OK from the node `d` for accepting the value. -/
def Acked (s : Net (db cl)) (key : String) (round : ℤ) (d value : String) : Prop :=
  ∃ (j : ℕ) (p : Activation Db) (r q : Request) (x : Status × Response),
    s.acts[j]? = some p ∧ p.task = .attemptConsensus r ∧ Heard p.hist d (.accept q) x ∧ x.1.Ok ∧
      q.key = key ∧ q.round = round ∧ q.value = value

/-- The value a node has accepted in a slot. -/
def Replica.held (s : Replica) (key : String) (round : ℤ) : Option String :=
  if (s.log key).Accepted round then some ((s.log key).entry round).acceptedValue else none

/-- The votes for a slot and the values accepted in it. -/
def slot (s : Net (db cl)) (key : String) (round : ℤ) : Voting.Slot String String where
  voted := Acked s key round
  held d := (s.nodes d).held key round

theorem held_act_self {a : Act} {s : Replica} {q : Request} (hsound : a.Sound)
    (hq : a.write? = some q) : (act a s).2.held q.key q.round = some q.value := by
  have hpos : 0 < q.pserverId := by
    cases a <;> cases hq <;> exact hsound.1 ▸ one_pos
  have hentry := entry_act_self a s hq
  have hacc : ((act a s).2.log q.key).Accepted q.round := by
    rw [Log.Accepted, hentry]
    exact hpos
  rw [Replica.held, if_pos hacc, hentry]
  rfl

theorem held_act_of_ne {a : Act} {s : Replica} {key : String} {round : ℤ}
    (h : ∀ q, a.write? = some q → ¬ (q.key = key ∧ q.round = round)) :
    (act a s).2.held key round = s.held key round := by
  have hentry := (entry_act a s key round).resolve_right fun ⟨q, hq, hslot⟩ ↦ h q hq hslot
  have hacc : ((act a s).2.log key).Accepted round ↔ (s.log key).Accepted round := by
    rw [Log.Accepted, Log.Accepted, hentry]
  rw [Replica.held, Replica.held, hentry]
  exact if_congr hacc rfl rfl

/-- What `propose` reports is the accepted entry. -/
theorem accepted_of_propose {q : Request} {s : Replica} (hok : (propose false q s).1.1.Ok)
    (hpos : 0 < (propose false q s).1.2.aserverId) :
    (s.log q.key).Accepted q.round ∧
      (propose false q s).1.2.op = ((s.log q.key).entry q.round).op ∧
      (propose false q s).1.2.value = ((s.log q.key).entry q.round).acceptedValue := by
  rw [propose_answer] at hok hpos ⊢
  split at hok
  · exact absurd hok (Status.not_ok_aborted _)
  · rename_i hprom
    rw [if_neg hprom] at hpos ⊢
    by_cases hacc : (s.log q.key).Accepted q.round
    · rw [if_pos hacc]
      exact ⟨hacc, rfl, rfl⟩
    · rw [if_neg hacc] at hpos
      exact absurd hpos (lt_irrefl _)

/-- The accepted value that `propose` reports is held. -/
theorem held_of_propose {q : Request} {s : Replica} (hok : (propose false q s).1.1.Ok)
    (hpos : 0 < (propose false q s).1.2.aserverId) :
    s.held q.key q.round = some (propose false q s).1.2.value := by
  obtain ⟨hacc, -, hval⟩ := accepted_of_propose hok hpos
  rw [Replica.held, if_pos hacc, hval]

/-- A quorum of members acknowledged the value. -/
def Chosen (s : Net (db cl)) (key : String) (round : ℤ) (value : String) : Prop :=
  (slot s key round).Chosen (IsQuorum cl.memberList) value

section Step

variable {C : Net (db cl) → Label Db → Prop} {s₀ s s' : Net (db cl)} {l : Label Db}
  {key value d : String} {round : ℤ}

theorem Acked.mono (hs : Step s l s') (h : Acked s key round d value) :
    Acked s' key round d value := by
  obtain ⟨j, p, r, q, x, hp, htask, hx, hrest⟩ := h
  obtain ⟨p', hp', -, htask', -, -, hhist, -⟩ := hs.keeps hp
  exact ⟨j, p', r, q, x, hp', htask'.trans htask, hx.mono hhist.subset, hrest⟩

theorem Chosen.mono (hs : Step s l s') (h : Chosen s key round value) :
    Chosen s' key round value :=
  Voting.Slot.Chosen.mono h fun _ _ ↦ Acked.mono hs

/-- An answer that is OK was given just now. -/
theorem answers_ok {j : ℕ} {p : Activation Db} {q : Request} {x : Status × Response}
    (hp : s.acts[j]? = some p) {k : Status × Response → Program Reply}
    (hc : p.prog = .call (.act (some d) (.accept q)) k)
    (h : s.Answers l j p (.act (some d) (Act.accept q)) x) (hok : x.1.Ok) :
    s.executed? l = some (d, .accept q) := by
  rcases h.lost_or_executed hp hc with ⟨-, rfl⟩ | ⟨-, hex, -⟩
  · exact absurd hok Status.not_ok_unavailable
  · exact hex

/-- **New votes** are for the accept request executed just now. -/
theorem Acked.of_step (hs : Step s l s') (h : Acked s' key round d value) :
    Acked s key round d value ∨ ∃ q, s.executed? l = some (d, .accept q) ∧ q.key = key ∧
      q.round = round ∧ q.value = value := by
  obtain ⟨j, p, r, q, x, hp, htask, hx, hok, hrest⟩ := h
  obtain ⟨p', hp', -, htask', hx' | ⟨c, k, x', -, hc, heq, hans⟩⟩ := hs.event hp hx
  · exact .inl ⟨j, p', r, q, x, hp', htask' ▸ htask, hx', hok, hrest⟩
  · obtain ⟨rfl, heq⟩ := Sigma.mk.inj heq
    obtain rfl := eq_of_heq heq
    exact .inr ⟨q, answers_ok hp' hc hans hok, hrest⟩

/-- **Held values** change at the node that executes an action writing to the slot. -/
theorem held_of_step (key : String) (round : ℤ) (hs : Step s l s') (hl : l.NoRestart)
    (hsound : ∀ d a, s.executed? l = some (d, a) → Act.Sound a) :
    ((slot s' key round).held = (slot s key round).held ∧
      ∀ d a q, s.executed? l = some (d, a) → Act.write? a = some q →
        ¬ (q.key = key ∧ q.round = round)) ∨
    ∃ d a q, s.executed? l = some (d, a) ∧ Act.write? a = some q ∧ q.key = key ∧
      q.round = round ∧
      (slot s' key round).held = Function.update (slot s key round).held d (some q.value) := by
  rcases hs.nodes with ⟨hnone, hnodes⟩ | ⟨d, a, hex, hnodes⟩ | ⟨a, rfl, -⟩
  · exact .inl ⟨by simp only [slot, hnodes], by simp [hnone]⟩
  · by_cases hq : ∃ q, Act.write? a = some q ∧ q.key = key ∧ q.round = round
    · obtain ⟨q, hq, rfl, rfl⟩ := hq
      refine .inr ⟨d, a, q, hex, hq, rfl, rfl, funext fun d' ↦ ?_⟩
      by_cases hd : d' = d
      · subst hd
        simp only [slot, hnodes, Function.update_self]
        exact held_act_self (hsound d' a hex) hq
      · simp only [slot, hnodes, Function.update_of_ne hd]
    · refine .inl ⟨funext fun d' ↦ ?_, fun d' a' q hex' hw h ↦ ?_⟩
      · by_cases hd : d' = d
        · subst hd
          simp only [slot, hnodes, Function.update_self]
          exact held_act_of_ne fun q hw h ↦ hq ⟨q, hw, h⟩
        · simp only [slot, hnodes, Function.update_of_ne hd]
      · obtain ⟨rfl, rfl⟩ := Prod.mk.inj (Option.some.inj (hex'.symm.trans hex))
        exact hq ⟨q, hw, h⟩
  · exact absurd hl id

/-- A success request is only sent for a chosen value. -/
theorem chosen_of_requested
    (hlawful : ∀ (j : ℕ) (p : Activation Db), s.acts[j]? = some p → (contract cl).Lawful p)
    (hlate : ∀ d q, (d, Act.success q) ∈ s.late → Chosen s q.key q.round q.value) {q : Request}
    (hreq : s.Requested d (.success q)) : Chosen s q.key q.round q.value := by
  rcases hreq with ⟨i, p, dest, k, hp, hc, -⟩ | hm
  · have hemit := (hlawful i p hp).emits hc
    rcases htask : p.task with r | _ | _ | _ | _ <;> rw [htask] at hemit <;> cases dest <;>
      try exact absurd hemit id
    obtain ⟨-, -, qa, ⟨hadopt, -, Q, hQ, hvotes⟩, rfl⟩ := hemit
    refine ⟨Q, hQ, fun d hd ↦ ?_⟩
    obtain ⟨x, hx, hok⟩ := hvotes d hd
    exact ⟨i, p, r, qa, x, hp, htask, hx, hok, hadopt.key, rfl, rfl⟩
  · exact hlate d q hm

end Step

/-! ### Attempts that return OK -/

/-- The key, the round and the value of an attempt that has returned OK. -/
def agreed? (p : Activation Db) : Option (String × ℤ × String) :=
  match p.task, p.prog.result? with
  | .attemptConsensus r, some rep =>
    if rep.status.Ok then some (r.key, rep.response.round, rep.response.value) else none
  | _, _ => none

theorem agreed?_eq_some_iff {p : Activation Db} {key value : String} {round : ℤ} :
    agreed? p = some (key, round, value) ↔ ∃ r rep, p.task = .attemptConsensus r ∧
      p.Returned rep ∧ rep.status.Ok ∧ r.key = key ∧ rep.response.round = round ∧
        rep.response.value = value := by
  rw [agreed?]
  constructor
  · intro h
    split at h
    · rename_i r rep htask hres
      split at h
      · rename_i hok
        obtain ⟨rfl, h'⟩ := Prod.mk.inj (Option.some.inj h)
        obtain ⟨rfl, rfl⟩ := Prod.mk.inj h'
        exact ⟨r, rep, htask, Prog.result?_eq_some_iff.1 hres, hok, rfl, rfl, rfl⟩
      · cases h
    · cases h
  · rintro ⟨r, rep, htask, hret, hok, rfl, rfl, rfl⟩
    rw [htask, Prog.result?_eq_some_iff.2 hret]
    exact if_pos hok

/-- **Agreement**: all attempts that have returned OK for one slot have returned one value. -/
def Agreement (s : Net (db cl)) : Prop :=
  ∀ x ∈ s.acts.filterMap agreed?, ∀ y ∈ s.acts.filterMap agreed?,
    x.1 = y.1 → x.2.1 = y.2.1 → x.2.2 = y.2.2

instance (s : Net (db cl)) : Decidable (Agreement s) :=
  inferInstanceAs (Decidable (∀ _ ∈ _, ∀ _ ∈ _, _))

/-- An accept request does not meet an accepted entry of its round with another value. -/
def AcceptAgrees (a : Act) (s : Replica) : Prop :=
  ∀ q ∈ a.accept?, ∀ w ∈ s.held q.key q.round, w = q.value

instance (a : Act) (s : Replica) : Decidable (AcceptAgrees a s) :=
  inferInstanceAs (Decidable (∀ q ∈ a.accept?, ∀ w ∈ s.held q.key q.round, w = q.value))

/-- No node restarts, and no accepted entry is overwritten by another value. -/
def AcceptsOnce (s : Net (db cl)) (l : Label Db) : Prop :=
  l.NoRestart ∧ ∀ m ∈ s.executed? l, AcceptAgrees m.2 (s.nodes m.1)

instance (s : Net (db cl)) (l : Label Db) : Decidable (AcceptsOnce s l) :=
  inferInstanceAs (Decidable (_ ∧ _))

/-- The invariant: every slot is settled, and success requests carry chosen values. -/
structure Agreeing (s : Net (db cl)) : Prop where
  settled : ∀ key round, (slot s key round).Settled (IsQuorum cl.memberList)
  late : ∀ d q, (d, Act.success q) ∈ s.late → Chosen s q.key q.round q.value

section Agreement

variable {C : Net (db cl) → Label Db → Prop} {nodes : String → Replica} {s s' : Net (db cl)}
  {l : Label Db}

theorem Agreeing.start (nodes : String → Replica) : Agreeing (cl.start nodes) where
  settled key round := .of_held <| by
    rintro d v ⟨j, p, r, q, x, hp, -⟩
    simp at hp
  late := by simp

/-- A step that does not overwrite an accepted value keeps the invariant. -/
theorem Agreeing.step (hodd : Odd cl.memberList.length)
    (hlawful : ∀ (j : ℕ) (p : Activation Db), s.acts[j]? = some p → (contract cl).Lawful p)
    (hsound : ∀ d a, s.executed? l = some (d, a) → Act.Sound a)
    (h : Agreeing s) (hC : AcceptsOnce s l) (hs : Step s l s') : Agreeing s' where
  settled key round := by
    have hset := h.settled key round
    rcases held_of_step key round hs hC.1 hsound with
      ⟨hheld, hno⟩ | ⟨d, a, q, hex, hw, rfl, rfl, hheld⟩
    · -- nothing is written to the slot, and without an accept there is no new vote
      refine hset.frame (fun d w hvote ↦ (hvote.of_step hs).resolve_right ?_) hheld
      rintro ⟨q, hex, hkey, hround, -⟩
      exact hno d _ q hex rfl ⟨hkey, hround⟩
    · cases a <;> cases hw
      · -- an accept
        refine hset.vote (d := d) (v := q.value) (fun w hw ↦ hC.2 _ hex q rfl w hw) ?_ hheld
        intro d' w hvote
        refine (hvote.of_step hs).imp_right ?_
        rintro ⟨q', hex', -, -, rfl⟩
        obtain ⟨rfl, heq⟩ := Prod.mk.inj (Option.some.inj (hex'.symm.trans hex))
        exact ⟨rfl, by rw [Act.accept.inj heq]⟩
      · -- a success
        refine hset.learn (fun _ _ ↦ exists_mem_inter_of_odd hodd)
          (chosen_of_requested hlawful h.late (hs.executed hex)) ?_ hheld
        intro d' w hvote
        refine (hvote.of_step hs).resolve_right ?_
        rintro ⟨q', hex', -⟩
        cases hex.symm.trans hex'
  late d q hm := (chosen_of_requested hlawful h.late (hs.mem_late hm)).mono hs

/-- **Agreement in every run** in which no accepted value is overwritten. -/
theorem agreement_of_acceptsOnce (hodd : Odd cl.memberList.length)
    (h : Reach AcceptsOnce (cl.start nodes) s) : Agreement s := by
  have hlawful : ∀ {s : Net (db cl)}, Reach AcceptsOnce (cl.start nodes) s →
      ∀ (j : ℕ) (p : Activation Db), s.acts[j]? = some p → (contract cl).Lawful p :=
    fun h ↦ (contract cl).lawful rfl h
  have hinv : Agreeing s := h.invariant (Agreeing.start nodes) fun s l s' hr _ ih hC hs ↦
    ih.step hodd (hlawful hr)
      (fun d a hex ↦ sound_of_requested rfl rfl hr (hs.executed hex)) hC hs
  -- what an attempt returns was chosen
  have hchosen : ∀ x ∈ s.acts.filterMap agreed?, Chosen s x.1 x.2.1 x.2.2 := by
    rintro ⟨key, round, value⟩ hx
    obtain ⟨p, hp, hagreed⟩ := List.mem_filterMap.1 hx
    obtain ⟨j, hj⟩ := List.getElem?_of_mem hp
    obtain ⟨r, rep, htask, hret, hok, rfl, rfl, rfl⟩ := agreed?_eq_some_iff.1 hagreed
    have hreturns := (hlawful h j p hj).returns hret
    rw [htask] at hreturns
    obtain ⟨-, ⟨-, qa, ⟨hadopt, -, Q, hQ, hvotes⟩, hrep, -⟩ | ⟨rfl, -⟩⟩ := hreturns
    · refine ⟨Q, hQ, fun d hd ↦ ?_⟩
      obtain ⟨y, hy, hyok⟩ := hvotes d hd
      exact ⟨j, p, r, qa, y, hj, htask, hy, hyok, hadopt.key, by rw [hrep]; rfl, by rw [hrep]; rfl⟩
    · exact absurd hok (Status.not_ok_aborted _)
  rintro ⟨key, round, v⟩ hx ⟨key', round', w⟩ hy (rfl : key = key') (rfl : round = round')
  exact (hinv.settled key round).unique (fun _ _ ↦ exists_mem_inter_of_odd hodd)
    (hchosen _ hx) (hchosen _ hy)

end Agreement

/-! ### Runs of three nodes -/

/-- A cluster of three nodes. -/
def trio : Cluster where
  memberList := ["a:1", "b:1", "c:1"]
  nodup := by decide
  ne_nil := by decide
  nonempty := by decide

/-- The activation `i` makes its next `n` calls, all delivered. -/
def calls (n i : ℕ) : List (Label Db) := List.replicate n (.step i .delivered)

/-- `a:1` and `b:1` elect themselves, and both choose their round before anything is proposed. -/
def twoElections : List (Label Db) :=
  [.submit "a:1" (.electLeader "leader" "a:1"), .submit "b:1" (.electLeader "leader" "b:1")] ++
    calls 1 0 ++ calls 1 1 ++ calls 1 2 ++ calls 1 3

/-- The second attempt proposes when the first is done, and adopts its value. -/
theorem agreement_trio : ∃ s, Reach AcceptsOnce (trio.start fun _ ↦ {}) s ∧
    s.acts.filterMap agreed? = [("leader", 0, "a:1"), ("leader", 0, "a:1")] ∧ Agreement s := by
  obtain ⟨s, hs, hagreed⟩ : ∃ s, Reach AcceptsOnce (trio.start fun _ ↦ {}) s ∧
      s.acts.filterMap agreed? = [("leader", 0, "a:1"), ("leader", 0, "a:1")] :=
    Reach.exists_of_steps (by
      decide +kernel : ((trio.start fun _ ↦ {}).steps AcceptsOnce
        (twoElections ++ calls 12 2 ++ calls 12 3)).any _ = true)
  exact ⟨s, hs, hagreed, agreement_of_acceptsOnce (by decide) hs⟩

/-- **Two values in one round**: both attempts propose before either has anything accepted. -/
theorem not_agreement_trio : ∃ s, Reach (fun _ l ↦ l.NoRestart) (trio.start fun _ ↦ {}) s ∧
    s.acts.filterMap agreed? = [("leader", 0, "a:1"), ("leader", 0, "b:1")] ∧ ¬ Agreement s :=
  Reach.exists_of_steps (by
    decide +kernel : ((trio.start fun _ ↦ {}).steps (fun _ l ↦ l.NoRestart)
      (twoElections ++ calls 6 2 ++ calls 6 3 ++ calls 3 2 ++ calls 3 3 ++ calls 3 2 ++
        calls 3 3)).any _ = true)

end ReplicatedDB
