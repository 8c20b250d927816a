import Mathlib.Algebra.Order.Floor.Ring
import Mathlib.Data.Finset.Card
import Mathlib.Data.Rat.Floor
import Mathlib.Tactic.Linarith
import Mathlib.Tactic.NormNum
import ReplicatedDB.Model.Procedures

/-!
# Quorums

The quorum test of `AttemptConsensus` compares a count with `ceil(n / 2) - 1`. The source computes
it in floating point, where half of an `int` is exact, so the rational numbers of `NoQuorum` do
the same.

* `not_noQuorum_iff`: a count passes the test exactly when it is at least half of `n`. This is
  what all later modules use of the test.
* `exists_mem_inter_of_odd`: two sets of members that both pass have a common member if `n` is
  odd. Agreement in one round rests on it.

For even `n` two disjoint halves both pass, so nothing of the kind holds there: what follows for
two attempts in one round is in `Protocol.Intersection`.
-/

namespace ReplicatedDB

/-- The quorum test passes when at least half of the replicas are counted. -/
theorem not_noQuorum_iff {n count : ℕ} : ¬ NoQuorum n count ↔ n ≤ 2 * count := by
  rw [NoQuorum, not_le, Int.sub_one_lt_iff, Int.ceil_le]
  constructor
  · intro h
    have h2 : (n : ℚ) ≤ ((2 * count : ℕ) : ℚ) := by
      push_cast at h ⊢
      linarith
    exact_mod_cast h2
  · intro h
    have h2 : (n : ℚ) ≤ ((2 * count : ℕ) : ℚ) := by exact_mod_cast h
    push_cast at h2 ⊢
    linarith

/-- Everybody is a quorum. -/
theorem not_noQuorum_self (n : ℕ) : ¬ NoQuorum n n := not_noQuorum_iff.2 (by omega)

/-- A set of members that passes the quorum test. -/
def IsQuorum (members : List String) (Q : Finset String) : Prop :=
  Q ⊆ members.toFinset ∧ members.length ≤ 2 * Q.card

/-- **Quorums of a cluster of odd size intersect.** -/
theorem exists_mem_inter_of_odd {members : List String} (hodd : Odd members.length)
    {Q₁ Q₂ : Finset String} (h₁ : IsQuorum members Q₁) (h₂ : IsQuorum members Q₂) :
    ∃ d, d ∈ Q₁ ∧ d ∈ Q₂ := by
  have hcard : members.toFinset.card ≤ members.length := List.toFinset_card_le members
  obtain ⟨m, hm⟩ := hodd
  have hlt : members.toFinset.card < Q₁.card + Q₂.card := by
    have := h₁.2
    have := h₂.2
    omega
  obtain ⟨d, hd⟩ := Finset.inter_nonempty_of_card_lt_card_add_card h₁.1 h₂.1 hlt
  exact ⟨d, Finset.mem_inter.1 hd⟩

/-- A quorum of a nonempty cluster is not empty. -/
theorem IsQuorum.nonempty {members : List String} {Q : Finset String}
    (h : IsQuorum members Q) (hne : members ≠ []) : Q.Nonempty := by
  rw [← Finset.card_pos]
  have := List.length_pos_of_ne_nil hne
  have := h.2
  omega

end ReplicatedDB
