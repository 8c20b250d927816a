import Mathlib.Data.Finset.Basic
import Mathlib.Logic.Function.Basic

/-!
# Voting on one slot

Acceptors hold at most one value for a slot and vote by answering that they hold one. A value
is **chosen** when a quorum has voted for it, at whatever times. Nothing keeps an acceptor from
voting for several values in turn; what makes the choice unique is the discipline of the votes.

`Settled` is the invariant: as long as nothing is chosen every vote is for the value still
held, and as soon as `v` is chosen some quorum holds `v` and never voted for anything else. It
is kept by votes for the value already held, if there is one (`Settled.vote`), and by teaching
any acceptor a chosen value (`Settled.learn`), and it makes chosen values unique
(`Settled.unique`). Quorums only have to intersect.
-/

namespace Voting

variable {A W : Type*}

/-- Who has ever voted for what, and who holds what. -/
structure Slot (A W : Type*) where
  voted : A → W → Prop
  held : A → Option W

variable (quorum : Finset A → Prop)

/-- A quorum has voted for the value. -/
def Slot.Chosen (b : Slot A W) (v : W) : Prop := ∃ Q, quorum Q ∧ ∀ d ∈ Q, b.voted d v

/-- Nothing is chosen and votes are for what is held, or a quorum is committed to one value. -/
def Slot.Settled (b : Slot A W) : Prop :=
  ((∀ v, ¬ b.Chosen quorum v) ∧ ∀ d v, b.voted d v → b.held d = some v) ∨
  ∃ v Q, quorum Q ∧ ∀ d ∈ Q, b.held d = some v ∧ ∀ w, b.voted d w → w = v

variable {quorum} (hinter : ∀ Q₁ Q₂, quorum Q₁ → quorum Q₂ → ∃ d, d ∈ Q₁ ∧ d ∈ Q₂)
  {b b' : Slot A W}

theorem Slot.Chosen.mono {v : W} (h : b.Chosen quorum v)
    (hvoted : ∀ d w, b.voted d w → b'.voted d w) : b'.Chosen quorum v := by
  obtain ⟨Q, hQ, hv⟩ := h
  exact ⟨Q, hQ, fun d hd ↦ hvoted d v (hv d hd)⟩

namespace Slot.Settled

/-- Votes that are for what is held settle the slot, whether or not something is chosen. -/
theorem of_held (h : ∀ d v, b.voted d v → b.held d = some v) : b.Settled quorum := by
  by_cases hc : ∃ v, b.Chosen quorum v
  · obtain ⟨v, Q, hQ, hv⟩ := hc
    refine .inr ⟨v, Q, hQ, fun d hd ↦ ⟨h d v (hv d hd), fun w hw ↦ ?_⟩⟩
    exact Option.some.inj ((h d w hw).symm.trans (h d v (hv d hd)))
  · exact .inl ⟨fun v hv ↦ hc ⟨v, hv⟩, h⟩

include hinter

/-- **A chosen value is unique.** -/
theorem unique (h : b.Settled quorum) {v w : W} (hv : b.Chosen quorum v)
    (hw : b.Chosen quorum w) : v = w := by
  rcases h with ⟨hnone, -⟩ | ⟨u, Q, hQ, hu⟩
  · exact absurd hv (hnone v)
  · have hall : ∀ w, b.Chosen quorum w → w = u := by
      rintro w ⟨Q', hQ', hw⟩
      obtain ⟨d, hd, hd'⟩ := hinter Q Q' hQ hQ'
      exact (hu d hd).2 w (hw d hd')
    rw [hall v hv, hall w hw]

omit hinter in
/-- **A vote** for a value that is not held against another one. -/
theorem vote [DecidableEq A] (h : b.Settled quorum) {d : A} {v : W}
    (hagree : ∀ w, b.held d = some w → w = v)
    (hvoted : ∀ d' w, b'.voted d' w → b.voted d' w ∨ d' = d ∧ w = v)
    (hheld : b'.held = Function.update b.held d (some v)) : b'.Settled quorum := by
  have hself : b'.held d = some v := by rw [hheld, Function.update_self]
  rcases h with ⟨-, hall⟩ | ⟨u, Q, hQ, hu⟩
  · refine of_held fun d' w hw ↦ ?_
    rcases hvoted d' w hw with hw | ⟨rfl, rfl⟩
    · by_cases hd : d' = d
      · subst hd
        rw [hself, hagree w (hall d' w hw)]
      · rw [hheld, Function.update_of_ne hd]
        exact hall d' w hw
    · exact hself
  · refine .inr ⟨u, Q, hQ, fun d' hd' ↦ ?_⟩
    have huv : d' = d → v = u := by
      rintro rfl
      exact (hagree u (hu d' hd').1).symm
    refine ⟨?_, fun w hw ↦ ?_⟩
    · by_cases hd : d' = d
      · rw [hd, hself, huv hd]
      · rw [hheld, Function.update_of_ne hd]
        exact (hu d' hd').1
    · rcases hvoted d' w hw with hw | ⟨hd, rfl⟩
      · exact (hu d' hd').2 w hw
      · exact huv hd

/-- **Teaching** an acceptor a chosen value. -/
theorem learn [DecidableEq A] (h : b.Settled quorum) {d : A} {v : W} (hv : b.Chosen quorum v)
    (hvoted : ∀ d' w, b'.voted d' w → b.voted d' w)
    (hheld : b'.held = Function.update b.held d (some v)) : b'.Settled quorum := by
  rcases h with ⟨hnone, -⟩ | ⟨u, Q, hQ, hu⟩
  · exact absurd hv (hnone v)
  have huv : v = u := by
    obtain ⟨Q', hQ', hv'⟩ := hv
    obtain ⟨d', hd, hd'⟩ := hinter Q Q' hQ hQ'
    exact (hu d' hd).2 v (hv' d' hd')
  refine .inr ⟨u, Q, hQ, fun d' hd' ↦ ⟨?_, fun w hw ↦ (hu d' hd').2 w (hvoted d' w hw)⟩⟩
  by_cases hd : d' = d
  · rw [hheld, hd, Function.update_self, huv]
  · rw [hheld, Function.update_of_ne hd]
    exact (hu d' hd').1

omit hinter in
/-- Steps of others. -/
theorem frame (h : b.Settled quorum) (hvoted : ∀ d' w, b'.voted d' w → b.voted d' w)
    (hheld : b'.held = b.held) : b'.Settled quorum := by
  rcases h with ⟨-, hall⟩ | ⟨u, Q, hQ, hu⟩
  · exact of_held fun d' w hw ↦ hheld ▸ hall d' w (hvoted d' w hw)
  · exact .inr ⟨u, Q, hQ, fun d' hd' ↦
      ⟨hheld ▸ (hu d' hd').1, fun w hw ↦ (hu d' hd').2 w (hvoted d' w hw)⟩⟩

end Slot.Settled

end Voting
