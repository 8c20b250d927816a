import ReplicatedDB.Rpc.Run

/-!
# Guarantees

A `Guarantee` is a condition on everything that travels through a network: the states of the
nodes, the actions called, the procedures called and the answers. It asks what is needed to keep
the condition, one call at a time: actions take good states to good states and give good
answers, and a procedure that was called in a good way and has only seen good answers makes good
calls and returns good results.

Then everything is good in every reachable state (`Guarantee.holds`), and so is whatever may be
executed next (`Guarantee.requested`).
-/

namespace Rpc

variable {S : Sig} {V : Service S}

/-- A condition on states, actions, procedures and answers that the service keeps, given what
its procedures promise. -/
structure Guarantee (K : Contract V) where
  /-- The states of a node. -/
  state : S.Addr → V.State → Prop
  /-- The actions called. -/
  act : S.Act → Prop
  /-- The procedures called, with their node. -/
  task : S.Addr → S.Task → Prop
  /-- The answers. -/
  answer : (c : Call S) → c.Ret → Prop
  fresh : ∀ d, state d V.fresh
  boot : ∀ d, task d V.boot
  step_act : ∀ d dest a st, state d st → act a →
    state d (V.act a st).2 ∧ answer (.act dest a) (V.act a st).1
  lost : ∀ dest a, answer (.act dest a) (V.lost a)
  failed : ∀ dest t, answer (.invoke dest t) V.failed
  calls_act : ∀ (p : Activation S) dest a, K.Lawful p → task p.node p.task →
    (∀ e ∈ p.hist, answer e.1 e.2) → K.emits p.node p.task p.hist (.act dest a) → act a
  calls_invoke : ∀ (p : Activation S) dest t, K.Lawful p → task p.node p.task →
    (∀ e ∈ p.hist, answer e.1 e.2) → K.emits p.node p.task p.hist (.invoke dest t) →
      task (dest.getD p.node) t
  returns : ∀ (p : Activation S) dest r, K.Lawful p → task p.node p.task →
    (∀ e ∈ p.hist, answer e.1 e.2) → p.Returned r → answer (.invoke dest p.task) r

namespace Guarantee

variable {K : Contract V} (G : Guarantee K) {C : Net V → Label S → Prop} {s₀ s s' : Net V}
  {l : Label S}

/-- Everything in the network satisfies the condition. -/
structure Holds (s : Net V) : Prop where
  nodes : ∀ d, G.state d (s.nodes d)
  tasks : ∀ (j : ℕ) (p : Activation S), s.acts[j]? = some p → G.task p.node p.task
  answers : ∀ (j : ℕ) (p : Activation S), s.acts[j]? = some p →
    ∀ e ∈ p.hist, G.answer e.1 e.2
  late : ∀ m ∈ s.late, G.act m.2

variable {G}

/-- **What may be executed** satisfies the condition. -/
theorem Holds.requested (h : G.Holds s)
    (hlawful : ∀ (j : ℕ) (p : Activation S), s.acts[j]? = some p → K.Lawful p) {d : S.Addr}
    {a : S.Act} (hreq : s.Requested d a) : G.act a := by
  rcases hreq with ⟨i, p, dest, k, hp, hc, -⟩ | hm
  · exact G.calls_act p dest a (hlawful i p hp) (h.tasks i p hp) (h.answers i p hp)
      ((hlawful i p hp).emits hc)
  · exact h.late _ hm

variable [DecidableEq S.Addr]

/-- **A step keeps the condition.** -/
theorem Holds.step (h : G.Holds s) (hinit : s₀.acts = []) (hr : Net.Reach C s₀ s)
    (hsubmit : ∀ a t, l = .submit a t → G.task a t) (hs : Net.Step s l s') : G.Holds s' := by
  have hlawful := K.lawful hinit hr
  refine ⟨fun d ↦ ?_, fun j q hq ↦ ?_, fun j q hq e he ↦ ?_, fun m hm ↦
    h.requested hlawful (hs.mem_late hm)⟩
  · rcases hs.node d with hnode | ⟨a, hex, hnode⟩ | ⟨-, hnode⟩ <;> rw [hnode]
    · exact h.nodes d
    · exact (G.step_act d none a _ (h.nodes d) (h.requested hlawful (hs.executed hex))).1
    · exact G.fresh d
  · rcases hs.activation hq with hq | ⟨-, a, t, origin, rfl, hopen⟩ | ⟨p, hp, rfl, -⟩ |
      ⟨p, hp, rfl, -⟩ | ⟨p, c, k, r, hp, -, -, rfl, -⟩
    · exact h.tasks j q hq
    · rcases hopen with ⟨hl, -⟩ | ⟨-, rfl, -⟩ | ⟨i, p, dest, k, -, hp, -, hc, -, rfl, -⟩
      · exact hsubmit a t hl
      · exact G.boot a
      · exact G.calls_invoke p dest t (hlawful i p hp) (h.tasks i p hp) (h.answers i p hp)
          ((hlawful i p hp).emits hc)
    · exact h.tasks j p hp
    · exact h.tasks j p hp
    · exact h.tasks j p hp
  · obtain ⟨p, hp, -, -, he | ⟨c, k, r, -, hc, rfl, hans⟩⟩ := hs.event hq he
    · exact h.answers j p hp e he
    rcases c with ⟨dest, a⟩ | ⟨dest, t⟩
    · obtain ⟨o, -, -, rfl⟩ := hans
      have hact := G.calls_act p dest a (hlawful j p hp) (h.tasks j p hp) (h.answers j p hp)
        ((hlawful j p hp).emits hc)
      cases o with
      | delivered => exact (G.step_act _ dest a _ (h.nodes (dest.getD p.node)) hact).2
      | _ => exact G.lost dest a
    · rcases hr.answers_invoke hinit hp hc hans with ⟨i, q', hq', rfl, -, -, hret⟩ | ⟨-, rfl⟩
      · exact G.returns q' dest r (hlawful i q' hq') (h.tasks i q' hq') (h.answers i q' hq') hret
      · exact G.failed dest t

/-- **Everything is good in every reachable state**, if it is at the start and clients make
good calls. -/
theorem holds (hinit : s₀.acts = []) (hlate : s₀.late = []) (hnodes : ∀ d, G.state d (s₀.nodes d))
    (hsubmit : ∀ s a t, C s (.submit a t) → G.task a t) (h : Net.Reach C s₀ s) : G.Holds s := by
  refine h.invariant (I := G.Holds)
    ⟨hnodes, by simp [hinit], by simp [hinit], by simp [hlate]⟩ ?_
  intro s l s' hr _ ih hl hs
  refine ih.step hinit hr (fun a t hlt ↦ hsubmit s a t ?_) hs
  exact hlt ▸ hl

end Guarantee

end Rpc
