import ReplicatedDB.Rpc.Run

/-!
# Runs with a record

What is to be said about a state may depend on how a run has got there: on what a node has missed,
say, which neither its state nor the messages in flight show. A record of any type is kept beside
the state then. Every step updates it, by a function of the label and the two states, and the
condition on the steps of a run may read it; the network itself does not see the record.

* `ReachWith.reach`: a run with a record is a run, so all invariants of runs hold of it.
* `ReachWith.invariant`: the invariant rule for a property of both the state and the record; the
  step may use that both states are reachable without the record.
* `ReachWith.of_steps`, `ReachWith.exists_of_steps`: a run found by taking the steps of a list.
-/

namespace Rpc.Net

open Relation

variable {S : Sig} [DecidableEq S.Addr] {V : Service S} {G : Type}
  {C : Net V → G → Label S → Prop} {update : Net V → Label S → Net V → G → G} {s₀ s : Net V}
  {g₀ g : G}

/-- Some run leads from one state and record to the other ones. Its steps satisfy `C`, a condition
on the state and the record before the step, and update the record. -/
def ReachWith (C : Net V → G → Label S → Prop) (update : Net V → Label S → Net V → G → G) :
    Net V × G → Net V × G → Prop :=
  ReflTransGen fun x y ↦ ∃ l, C x.1 x.2 l ∧ x.1.step l = some y.1 ∧ y.2 = update x.1 l y.1 x.2

/-- A run with a record is a run. -/
theorem ReachWith.reach {C' : Net V → Label S → Prop} (hC : ∀ s g l, C s g l → C' s l)
    {x y : Net V × G} (h : ReachWith C update x y) : Reach C' x.1 y.1 := by
  induction h with
  | refl => exact .refl
  | tail _ hs ih =>
    obtain ⟨l, hl, hstep, -⟩ := hs
    exact ih.tail ⟨l, hC _ _ l hl, hstep⟩

/-- **The invariant rule**: what holds at the start and is kept by every step holds of every state
and its record. -/
theorem ReachWith.invariant {I : Net V → G → Prop} {C' : Net V → Label S → Prop}
    (hC : ∀ s g l, C s g l → C' s l) (h : ReachWith C update (s₀, g₀) (s, g)) (hinit : I s₀ g₀)
    (hstep : ∀ s g l s', Reach C' s₀ s → Reach C' s₀ s' → I s g → C s g l → Step s l s' →
      I s' (update s l s' g)) : I s g := by
  have hall : ∀ x, ReachWith C update (s₀, g₀) x → I x.1 x.2 := by
    intro x hx
    induction hx with
    | refl => exact hinit
    | @tail x y hr hs ih =>
      obtain ⟨l, hl, hstep', hg⟩ := hs
      have hreach : Reach C' s₀ x.1 := ReachWith.reach hC hr
      rw [hg]
      exact hstep _ _ _ _ hreach (hreach.tail ⟨l, hC _ _ l hl, hstep'⟩) ih hl (.of_step hstep')
  exact hall _ h

/-- Take the steps with the given labels, as long as each satisfies `C`. -/
def stepsWith (C : Net V → G → Label S → Prop) [∀ s g l, Decidable (C s g l)]
    (update : Net V → Label S → Net V → G → G) : Net V × G → List (Label S) → Option (Net V × G)
  | x, [] => some x
  | x, l :: ls =>
    if C x.1 x.2 l then
      (x.1.step l).bind fun s ↦ stepsWith C update (s, update x.1 l s x.2) ls
    else none

theorem ReachWith.of_steps [∀ s g l, Decidable (C s g l)] :
    ∀ {ls : List (Label S)} {x y : Net V × G}, stepsWith C update x ls = some y →
      ReachWith C update x y
  | [], _, _, h => by
    obtain rfl := Option.some.inj h
    exact .refl
  | l :: ls, x, y, h => by
    rw [stepsWith] at h
    split at h
    · rename_i hC
      obtain ⟨s, hs, h⟩ := Option.bind_eq_some_iff.1 h
      exact ReflTransGen.head ⟨l, hC, hs, rfl⟩ (ReachWith.of_steps h)
    · cases h

/-- A state that some steps lead to with its record, found by taking them. -/
theorem ReachWith.exists_of_steps [∀ s g l, Decidable (C s g l)] {ls : List (Label S)}
    {x : Net V × G} {P : Net V × G → Prop} [DecidablePred P]
    (h : (stepsWith C update x ls).any (fun y ↦ P y) = true) :
    ∃ y, ReachWith C update x y ∧ P y := by
  rcases hy : stepsWith C update x ls with _ | y
  · rw [hy] at h
    cases h
  · rw [hy, Option.any_some] at h
    exact ⟨y, .of_steps hy, of_decide_eq_true h⟩

end Rpc.Net
