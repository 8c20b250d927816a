import ReplicatedDB.Rpc.Guarantee

/-!
# Conditions on values

A `Discipline` is a condition on the values that travel through a network, wherever they come from
and wherever they go: on the actions and procedures that are called and on what they answer. Each
procedure is looked at alone, as a program that gets good answers (`Discipline.body`); what it
returns may also be described by what it has seen.

It amounts to a contract and a guarantee, so everything is good in every reachable state
(`Discipline.holds`), and procedures return what they promise (`Discipline.result_of_returned`).
-/

namespace Rpc

variable {S : Sig} {V : Service S}

/-- A condition on the answers of actions and procedures, as one on the answers of calls. -/
def answered (ret : (a : S.Act) → S.Ret a → Prop) (reply : S.Task → S.Reply → Prop) :
    (c : Call S) → c.Ret → Prop
  | .act _ a, r => ret a r
  | .invoke _ t, r => reply t r

/-- A condition on actions and procedures, as one on calls. -/
def called (act : S.Act → Prop) (task : S.Task → Prop) : Call S → Prop
  | .act _ a => act a
  | .invoke _ t => task t

/-- A condition on the values in a network that the service keeps. -/
structure Discipline (V : Service S) where
  /-- The states of a node. -/
  state : V.State → Prop
  /-- The actions called. -/
  act : S.Act → Prop
  /-- The procedures called. -/
  task : S.Task → Prop
  /-- What actions answer. -/
  ret : (a : S.Act) → S.Ret a → Prop
  /-- What procedures answer. -/
  reply : S.Task → S.Reply → Prop
  /-- What procedures return, at their node and after what they have seen. -/
  result : S.Addr → S.Task → List (Event S) → S.Reply → Prop
  fresh : state V.fresh
  boot : task V.boot
  step_act : ∀ a st, state st → act a → state (V.act a st).2 ∧ ret a (V.act a st).1
  lost : ∀ a, ret a (V.lost a)
  failed : ∀ t, reply t V.failed
  body : ∀ d t, task t → Sat (answered ret reply) (fun _ ↦ called act task)
    (fun h r ↦ reply t r ∧ result d t h r) (V.body d t) []

/-- A program that does something with good answers may do anything with bad ones. -/
theorem Sat.of_answered {α : Type} {answer : (c : Call S) → c.Ret → Prop} {calls : Call S → Prop}
    {returns : List (Event S) → α → Prop} : ∀ {p : Prog S α} {h : List (Event S)},
      Sat answer (fun _ ↦ calls) returns p h →
        Sat (fun _ _ ↦ True) (fun h c ↦ (∀ e ∈ h, answer e.1 e.2) → calls c)
          (fun h a ↦ (∀ e ∈ h, answer e.1 e.2) → returns h a) p h
  | .ret _, _, hp => fun _ ↦ hp
  | .call c k, h, hp => by
    refine ⟨fun _ ↦ hp.1, fun r _ ↦ ?_⟩
    by_cases hr : answer c r
    · exact (hp.2 r hr).of_answered
    · -- nothing is asked any more
      refine Sat.of_extended (I := fun h' ↦ ⟨c, r⟩ ∈ h') ?_ ?_ ?_ _ _ (by simp)
      · exact fun h' e hmem ↦ List.mem_append_left _ hmem
      · exact fun h' c' hmem hall ↦ absurd (hall _ hmem) hr
      · exact fun h' a hmem hall ↦ absurd (hall _ hmem) hr

namespace Discipline

variable (D : Discipline V)

/-- What procedures do, as long as they get good answers. -/
def contract : Contract V where
  rely _ _ := True
  emits _ t h c := D.task t → (∀ e ∈ h, answered D.ret D.reply e.1 e.2) → called D.act D.task c
  returns d t h r := D.task t → (∀ e ∈ h, answered D.ret D.reply e.1 e.2) →
    D.reply t r ∧ D.result d t h r
  rely_act _ _ _ := trivial
  rely_lost _ _ := trivial
  rely_invoke _ _ _ := trivial
  body_sat d t := by
    by_cases ht : D.task t
    · simpa [ht] using (D.body d t ht).of_answered
    · exact Sat.of_forall (fun _ _ h ↦ absurd h ht) (fun _ _ h ↦ absurd h ht) _ _

/-- What holds of everything in the network. -/
def guarantee : Guarantee D.contract where
  state _ := D.state
  act := D.act
  task _ := D.task
  answer := answered D.ret D.reply
  fresh _ := D.fresh
  boot _ := D.boot
  step_act _ _ := D.step_act
  lost _ := D.lost
  failed _ := D.failed
  calls_act _ _ _ _ ht hans he := he ht hans
  calls_invoke _ _ _ _ ht hans he := he ht hans
  returns _ _ _ hp ht hans hr := (hp.returns hr ht hans).1

variable {D} [DecidableEq S.Addr] {C : Net V → Label S → Prop} {s₀ s : Net V}

/-- **Everything is good in every reachable state**, if it is at the start and clients call good
procedures. -/
theorem holds (hinit : s₀.acts = []) (hlate : s₀.late = []) (hnodes : ∀ d, D.state (s₀.nodes d))
    (hsubmit : ∀ s a t, C s (.submit a t) → D.task t) (h : Net.Reach C s₀ s) :
    D.guarantee.Holds s :=
  D.guarantee.holds hinit hlate hnodes hsubmit h

/-- **What has returned** is as the procedure promises. -/
theorem result_of_returned (hinit : s₀.acts = []) (h : Net.Reach C s₀ s)
    (hs : D.guarantee.Holds s) {j : ℕ} {p : Activation S} (hp : s.acts[j]? = some p) {r : S.Reply}
    (hr : p.Returned r) : D.result p.node p.task p.hist r :=
  ((D.contract.lawful hinit h j p hp).returns hr (hs.tasks j p hp) (hs.answers j p hp)).2

end Discipline

end Rpc
