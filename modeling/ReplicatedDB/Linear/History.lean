import Mathlib.Data.List.Basic
import Mathlib.Data.List.Nodup

/-!
# Linearizability

An `Object` says what operations answer one after another. A `History` says which operations were
called in a concurrent system, when, and which of them were answered what and when. It is
**linearizable** if the calls that were answered, and some of the others, can be put in an order in
which the object answers them the same, and in which no call precedes one that was answered before
it was made.

The order is built up along with the history, one point for each call, at any time between the call
and its answer: `Linearization.snoc` adds a point, and `Linearization.advance` lets the history go
on.
-/

namespace Linear

variable {Op Ans : Type}

/-- What operations answer, and what they do. -/
structure Object (Op Ans : Type) where
  State : Type
  init : State
  step : State → Op → Ans × State

/-- A call, with its answer and the time at which it was given. -/
structure Call (Op Ans : Type) where
  op : Op
  start : ℕ
  answer : Option (ℕ × Ans) := none

/-- The calls, by their names. -/
abbrev History (Op Ans : Type) := ℕ → Option (Call Op Ans)

/-- A call was answered before another one was made. -/
def History.Before (H : History Op Ans) (i j : ℕ) : Prop :=
  ∃ c ∈ H i, ∃ c' ∈ H j, ∃ t r, c.answer = some (t, r) ∧ t < c'.start

/-- A call in the order. -/
structure Point (Op Ans : Type) where
  name : ℕ
  op : Op
  ans : Ans

section Order

variable (O : Object Op Ans)

/-- The state after all calls of an order. -/
def Object.after (l : List (Point Op Ans)) : O.State :=
  l.foldl (fun st e ↦ (O.step st e.op).2) O.init

/-- The object answers each call as the order says. -/
inductive Object.Legal : List (Point Op Ans) → Prop where
  | nil : Legal []
  | snoc {l : List (Point Op Ans)} {e : Point Op Ans} (h : Legal l)
      (hans : (O.step (O.after l) e.op).1 = e.ans) : Legal (l ++ [e])

theorem Object.after_snoc (l : List (Point Op Ans)) (e : Point Op Ans) :
    O.after (l ++ [e]) = (O.step (O.after l) e.op).2 := by
  rw [after, List.foldl_append]
  rfl

/-- The order explains the history. -/
structure Linearization (H : History Op Ans) (l : List (Point Op Ans)) : Prop where
  /-- No call is there twice. -/
  nodup : (l.map Point.name).Nodup
  /-- Nothing is there that was not called. -/
  called : ∀ e ∈ l, ∃ c ∈ H e.name, c.op = e.op
  /-- All answers are those of the order. -/
  answered : ∀ i, ∀ c ∈ H i, ∀ t r, c.answer = some (t, r) → ∃ e ∈ l, e.name = i ∧ e.ans = r
  /-- Whoever was answered before another one was called precedes it. -/
  realTime : l.Pairwise fun e e' ↦ ¬ H.Before e'.name e.name
  legal : O.Legal l

end Order

variable {O : Object Op Ans} {H H' : History Op Ans} {l : List (Point Op Ans)}

/-- Nothing was called. -/
theorem Linearization.nil (hH : ∀ i, H i = none) : Linearization O H [] where
  nodup := List.nodup_nil
  called _ he := absurd he List.not_mem_nil
  answered i _ hc := nomatch (hH i).symm.trans hc
  realTime := .nil
  legal := .nil

/-- **One more point** for a call that has not been answered and has none yet. -/
theorem Linearization.snoc (h : Linearization O H l) {e : Point Op Ans}
    (hnew : e.name ∉ l.map Point.name) (hcalled : ∃ c ∈ H e.name, c.op = e.op ∧ c.answer = none)
    (hans : (O.step (O.after l) e.op).1 = e.ans) : Linearization O H (l ++ [e]) := by
  obtain ⟨c, hc, hop, hnone⟩ := hcalled
  refine ⟨?_, fun e' he' ↦ ?_, fun i c' hc' t r hr ↦ ?_, ?_, h.legal.snoc hans⟩
  · rw [List.map_append, List.map_singleton]
    exact h.nodup.append (List.nodup_singleton _) (by simpa using hnew)
  · rcases List.mem_append.1 he' with he' | he'
    · exact h.called e' he'
    · obtain rfl := List.mem_singleton.1 he'
      exact ⟨c, hc, hop⟩
  · obtain ⟨e', he', hrest⟩ := h.answered i c' hc' t r hr
    exact ⟨e', List.mem_append_left _ he', hrest⟩
  · refine List.pairwise_append.2 ⟨h.realTime, List.pairwise_singleton _ _, fun e₁ _ e₂ he₂ ↦ ?_⟩
    -- the new call was not answered before anything
    obtain rfl := List.mem_singleton.1 he₂
    rintro ⟨c₂, hc₂, -, -, t, r, hr, -⟩
    obtain rfl := Option.some.inj (Option.mem_def.1 hc ▸ hc₂)
    cases hnone.symm.trans hr

/-- The history goes on at the time `now`: calls are made, and calls are answered. -/
structure History.Extends (now : ℕ) (H H' : History Op Ans) : Prop where
  starts : ∀ i, ∀ c ∈ H i, c.start ≤ now
  keeps : ∀ i, ∀ c ∈ H i, ∃ c' ∈ H' i, c'.op = c.op ∧ c'.start = c.start ∧
    ∀ t r, c'.answer = some (t, r) → c.answer = some (t, r) ∨ t = now

/-- **The history goes on**: the order explains it as long as it has a point for every new
answer. -/
theorem Linearization.advance (h : Linearization O H l) {now : ℕ} (hext : H.Extends now H')
    (hnew : ∀ i, ∀ c' ∈ H' i, ∀ t r, c'.answer = some (t, r) →
      (∃ c ∈ H i, c.answer = some (t, r)) ∨ ∃ e ∈ l, e.name = i ∧ e.ans = r) :
    Linearization O H' l := by
  refine ⟨h.nodup, fun e he ↦ ?_, fun i c' hc' t r hr ↦ ?_, ?_, h.legal⟩
  · obtain ⟨c, hc, hop⟩ := h.called e he
    obtain ⟨c', hc', hop', -⟩ := hext.keeps _ c hc
    exact ⟨c', hc', hop'.trans hop⟩
  · rcases hnew i c' hc' t r hr with ⟨c, hc, hr⟩ | he
    · exact h.answered i c hc t r hr
    · exact he
  · refine h.realTime.imp_of_mem fun {e e'} he he' hnot ↦ ?_
    rintro ⟨c₁, hc₁, c₂, hc₂, t, r, hr, hlt⟩
    obtain ⟨c, hc, -⟩ := h.called e he
    obtain ⟨c', hc', -⟩ := h.called e' he'
    obtain ⟨c₂', hc₂', -, hstart, -⟩ := hext.keeps _ c hc
    obtain ⟨c₁', hc₁', -, -, hanswer⟩ := hext.keeps _ c' hc'
    obtain rfl := Option.some.inj (Option.mem_def.1 hc₂ ▸ hc₂')
    obtain rfl := Option.some.inj (Option.mem_def.1 hc₁ ▸ hc₁')
    rcases hanswer t r hr with hr | rfl
    · exact hnot ⟨c', hc', c, hc, t, r, hr, hstart ▸ hlt⟩
    · -- an answer given now is not before a call that was made
      have := hext.starts _ c hc
      omega

end Linear
