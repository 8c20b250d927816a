import ReplicatedDB.Rpc.Run

/-!
# One request at a time

A client's call is **unstarted** until it makes its first call. Requests are handled one at a
time (`OneAtATime`) if whoever makes a call is the only one who could: all other activations
are done, unstarted, or wait for a callee that is not done. A caller goes on only when its
callee is done, and a client's call starts only when nothing is being handled.

A node may restart at any time, also in the middle of something, as long as this leaves at most
one activation that can go on.
-/

namespace Rpc

variable {S : Sig} {V : Service S}

namespace Activation

/-- It has returned, or its node has restarted. -/
def Done (p : Activation S) : Prop := p.alive = false ∨ p.prog.result?.isSome

/-- A client's call of which nothing has been executed. -/
def Unstarted (p : Activation S) : Prop := p.origin = none ∧ p.hist = [] ∧ p.child = none

instance (p : Activation S) : Decidable p.Done := inferInstanceAs (Decidable (_ ∨ _))

instance (p : Activation S) : Decidable p.Unstarted :=
  decidable_of_iff (p.origin = none ∧ p.hist.isEmpty ∧ p.child = none) (by
    rw [List.isEmpty_iff]
    exact Iff.rfl)

/-- An activation that is about to make a call is not done. -/
theorem not_done {p : Activation S} (halive : p.alive = true) {c : Call S}
    {k : c.Ret → Prog S S.Reply} (hc : p.prog = .call c k) : ¬ p.Done := by
  rintro (h | h)
  · rw [halive] at h
    cases h
  · rw [hc] at h
    cases h

end Activation

namespace Net

/-- Who is done stays done. -/
theorem Step.done [DecidableEq S.Addr] {s s' : Net V} {l : Label S} (hs : Step s l s') {j : ℕ}
    {p q : Activation S} (hp : s.acts[j]? = some p) (hq : s'.acts[j]? = some q) (h : p.Done) :
    q.Done := by
  rcases hs.activation hq with hq | ⟨rfl, -⟩ | ⟨p', hp', rfl, -⟩ | ⟨p', hp', rfl, -⟩ |
    ⟨p', c, k, r, hp', halive, hc, rfl, -⟩
  · exact Option.some.inj (hp.symm.trans hq) ▸ h
  · exact absurd (lt_length hp) (Nat.lt_irrefl _)
  · exact Option.some.inj (hp.symm.trans hp') ▸ h
  · exact .inl rfl
  · exact absurd (Option.some.inj (hp.symm.trans hp') ▸ h) (Activation.not_done halive hc)

/-- Nothing is being handled. -/
def Quiet (s : Net V) : Prop := ∀ p ∈ s.acts, p.Done ∨ p.Unstarted

/-- The activation is done, unstarted, or waits for a callee that is not done. -/
def Rests (s : Net V) (p : Activation S) : Prop :=
  p.Done ∨ p.Unstarted ∨ ∃ k ∈ p.child, ∃ q ∈ s.acts[k]?, ¬ q.Done

/-- Requests are handled one at a time. -/
def OneAtATime (s : Net V) : Label S → Prop
  | .step i _ =>
    (∀ j < s.acts.length, j ≠ i → ∀ q ∈ s.acts[j]?, s.Rests q) ∧
    ∀ p ∈ s.acts[i]?, (p.Unstarted → s.Quiet) ∧ ∀ j ∈ p.child, ∀ q ∈ s.acts[j]?, q.Done
  | _ => True

instance (s : Net V) : Decidable s.Quiet :=
  inferInstanceAs (Decidable (∀ _ ∈ _, _ ∨ _))

instance (s : Net V) (p : Activation S) : Decidable (s.Rests p) :=
  inferInstanceAs (Decidable (_ ∨ _ ∨ ∃ k ∈ p.child, ∃ q ∈ s.acts[k]?, ¬ q.Done))

instance (s : Net V) : DecidablePred s.OneAtATime
  | .step i _ => inferInstanceAs (Decidable (
    (∀ j < s.acts.length, j ≠ i → ∀ q ∈ s.acts[j]?, s.Rests q) ∧
    ∀ p ∈ s.acts[i]?, (p.Unstarted → s.Quiet) ∧ ∀ j ∈ p.child, ∀ q ∈ s.acts[j]?, q.Done))
  | .submit _ _ | .deliver _ | .restart _ => inferInstanceAs (Decidable True)

/-- **Everything else rests** while one activation makes a call. -/
theorem OneAtATime.rests {s : Net V} {i j : ℕ} {o : Outcome} (h : s.OneAtATime (.step i o))
    {q : Activation S} (hq : s.acts[j]? = some q) (hji : j ≠ i) : s.Rests q :=
  h.1 j (lt_length hq) hji q hq

end Net

end Rpc
