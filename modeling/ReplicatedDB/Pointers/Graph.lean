import Mathlib.Data.List.Chain
import Mathlib.Logic.Function.Basic
import Mathlib.Logic.Relation

/-!
# Pointer graphs

Every point has at most one pointer, to some point. A pointer graph is **acyclic** if following
the pointers never leads back to where one started. Redirecting one pointer keeps it acyclic
exactly if the new target does not lead back to the source (`acyclic_update_iff`), and in an
acyclic graph no path has a point twice (`Acyclic.nodup`).
-/

namespace Pointers

open Relation

variable {A : Type*}

/-- The pointer of `a` is to `b`. -/
def Points (f : A → Option A) (a b : A) : Prop := f a = some b

/-- Following the pointers leads from one point to another. -/
def Leads (f : A → Option A) : A → A → Prop := ReflTransGen (Points f)

/-- No point leads back to itself. -/
def Acyclic (f : A → Option A) : Prop := ∀ a, ¬ TransGen (Points f) a a

/-- A point without a pointer leads to itself only. -/
theorem Leads.eq_of_none {f : A → Option A} {a b : A} (h : Leads f a b) (ha : f a = none) :
    b = a := by
  rcases ReflTransGen.cases_head h with rfl | ⟨c, hc, -⟩
  · rfl
  · cases ha.symm.trans hc

theorem acyclic_none : Acyclic fun _ : A ↦ none := by
  intro a h
  obtain ⟨b, hb, -⟩ := TransGen.head'_iff.1 h
  cases hb

/-- In an acyclic graph, a path has no point twice. -/
theorem Acyclic.nodup {f : A → Option A} (h : Acyclic f) {l : List A}
    (hl : l.IsChain (Points f)) : l.Nodup := by
  have hpair : l.Pairwise (TransGen (Points f)) :=
    List.isChain_iff_pairwise.1 (hl.imp fun _ _ hab ↦ .single hab)
  refine hpair.imp fun hab heq ↦ ?_
  exact h _ (heq ▸ hab)

section Update

variable [DecidableEq A] {f : A → Option A} {d v : A}

/-- From a point that does not lead to `d`, redirecting the pointer of `d` changes nothing. -/
theorem leads_of_update {o : Option A} (hv : ¬ Leads f v d) {x : A}
    (h : Leads (Function.update f d o) v x) : Leads f v x := by
  induction h with
  | refl => exact .refl
  | @tail b c _ hbc ih =>
    have hne : b ≠ d := by
      rintro rfl
      exact hv ih
    rw [Points, Function.update_of_ne hne] at hbc
    exact ih.tail hbc

/-- A path to `d` is still there when the pointer of `d` is redirected, up to its first visit. -/
theorem Leads.update {o : Option A} {x : A} (h : Leads f x d) :
    Leads (Function.update f d o) x d := by
  induction h using ReflTransGen.head_induction_on with
  | refl => exact .refl
  | @head b c hbc _ ih =>
    by_cases hb : b = d
    · subst hb
      exact .refl
    · refine .head ?_ ih
      rwa [Points, Function.update_of_ne hb]

/-- A path after redirecting the pointer of `d` is an old one, or goes through `d`. -/
theorem transGen_update {o : Option A} {x y : A}
    (h : TransGen (Points (Function.update f d o)) x y) :
    TransGen (Points f) x y ∨
      Leads (Function.update f d o) x d ∧ TransGen (Points (Function.update f d o)) d y := by
  induction h with
  | @single b hxb =>
    by_cases hx : x = d
    · subst hx
      exact .inr ⟨.refl, .single hxb⟩
    · rw [Points, Function.update_of_ne hx] at hxb
      exact .inl (.single hxb)
  | @tail b c hxb hbc ih =>
    rcases ih with ih | ⟨hxd, hdb⟩
    · by_cases hb : b = d
      · subst hb
        exact .inr ⟨hxb.to_reflTransGen, .single hbc⟩
      · rw [Points, Function.update_of_ne hb] at hbc
        exact .inl (ih.tail hbc)
    · exact .inr ⟨hxd, hdb.tail hbc⟩

/-- **Redirecting a pointer** keeps the graph acyclic exactly if the new target does not lead
back. -/
theorem acyclic_update_iff (h : Acyclic f) :
    Acyclic (Function.update f d (some v)) ↔ ¬ Leads f v d := by
  constructor
  · intro hac hv
    exact hac d (TransGen.head'_iff.2 ⟨v, Function.update_self .., hv.update⟩)
  · intro hv x hx
    rcases transGen_update hx with hx | ⟨hxd, hdx⟩
    · exact h x hx
    · -- a cycle through `d` takes the new pointer
      obtain ⟨b, hb, hbx⟩ := TransGen.head'_iff.1 (hdx.trans_left hxd)
      obtain rfl : v = b := by
        rw [Points, Function.update_self] at hb
        exact Option.some.inj hb
      exact hv (leads_of_update hv hbx)

/-- Removing a pointer keeps the graph acyclic. -/
theorem Acyclic.update_none (h : Acyclic f) : Acyclic (Function.update f d none) := by
  intro x hx
  rcases transGen_update hx with hx | ⟨-, hdx⟩
  · exact h x hx
  · obtain ⟨b, hb, -⟩ := TransGen.head'_iff.1 hdx
    rw [Points, Function.update_self] at hb
    cases hb

end Update

end Pointers
