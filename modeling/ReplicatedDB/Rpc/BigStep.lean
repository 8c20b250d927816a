import Mathlib.Data.List.Basic
import ReplicatedDB.Rpc.Run

/-!
# Evaluating a procedure

When a procedure runs while nothing else moves, all that matters is what becomes of its requests.
A `Plan` fixes the outcome of each, and `Evals` is the evaluation of a program under a plan: a
big-step semantics, from the states of the nodes to a result and the states afterwards, with
rules for sequencing (`Evals.bind`) and for broadcasts (`Evals.broadcast`).

That this is the same as running in a network is shown in `ReplicatedDB.Rpc.Thread`.
-/

namespace Rpc

open Relation

variable {S : Sig} {V : Service S}

/-! ### Evaluation -/

/-- What becomes of each request, by its destination and action. -/
abbrev Plan (S : Sig) := S.Addr → S.Act → Outcome

/-- Everything is executed and answered. -/
def Plan.prompt : Plan S := fun _ _ ↦ .delivered

/-- The outcome of an action: at the own node it is always executed and answered. -/
def Plan.outcome (w : Plan S) : Option S.Addr → S.Act → Outcome
  | none, _ => .delivered
  | some d, a => w d a

/-- The state of a node after a request with this outcome. -/
def Outcome.effect (V : Service S) (o : Outcome) (a : S.Act) (st : V.State) : V.State :=
  if o.Executed then (V.act a st).2 else st

/-- The answer the caller gets. -/
def Outcome.reply (V : Service S) (o : Outcome) (a : S.Act) (st : V.State) : S.Ret a :=
  if o = .delivered then (V.act a st).1 else V.lost a

@[simp] theorem outcome_none (w : Plan S) (a : S.Act) : w.outcome none a = .delivered := rfl

@[simp] theorem outcome_some (w : Plan S) (d : S.Addr) (a : S.Act) :
    w.outcome (some d) a = w d a := rfl

@[simp] theorem effect_delivered (a : S.Act) (st : V.State) :
    Outcome.effect V .delivered a st = (V.act a st).2 := rfl

@[simp] theorem reply_delivered (a : S.Act) (st : V.State) :
    Outcome.reply V .delivered a st = (V.act a st).1 := rfl

variable [DecidableEq S.Addr]

/-- The program at the node `me` evaluates to a result. -/
inductive Evals (V : Service S) (w : Plan S) :
    {α : Type} → S.Addr → Prog S α → (S.Addr → V.State) → α → (S.Addr → V.State) → Prop where
  | ret {α : Type} {me : S.Addr} {x : α} {N : S.Addr → V.State} : Evals V w me (.ret x) N x N
  | act {α : Type} {me : S.Addr} {dest : Option S.Addr} {a : S.Act} {k : S.Ret a → Prog S α}
      {N N' : S.Addr → V.State} {x : α}
      (h : Evals V w me (k ((w.outcome dest a).reply V a (N (dest.getD me))))
        (Function.update N (dest.getD me) ((w.outcome dest a).effect V a (N (dest.getD me))))
        x N') : Evals V w me (.call (.act dest a) k) N x N'
  | invoke {α : Type} {me : S.Addr} {dest : Option S.Addr} {t : S.Task}
      {k : S.Reply → Prog S α} {N N₁ N' : S.Addr → V.State} {r : S.Reply} {x : α}
      (hbody : Evals V w (dest.getD me) (V.body (dest.getD me) t) N r N₁)
      (h : Evals V w me (k r) N₁ x N') : Evals V w me (.call (.invoke dest t) k) N x N'

namespace Evals

variable {w : Plan S} {α β : Type} {me : S.Addr} {N N₁ N' N'' : S.Addr → V.State}

/-- **Evaluation is deterministic.** -/
theorem det {p : Prog S α} {x y : α} (h : Evals V w me p N x N') (h' : Evals V w me p N y N'') :
    x = y ∧ N' = N'' := by
  induction h generalizing N'' with
  | ret =>
    cases h'
    exact ⟨rfl, rfl⟩
  | act _ ih =>
    cases h' with
    | act h' => exact ih h'
  | invoke _ _ ihbody ih =>
    cases h' with
    | invoke hbody' h' =>
      obtain ⟨rfl, rfl⟩ := ihbody hbody'
      exact ih h'

/-- A call of an action at the own node. -/
theorem here {a : S.Act} {k : S.Ret a → Prog S α} {x : α}
    (h : Evals V w me (k (V.act a (N me)).1) (Function.update N me (V.act a (N me)).2) x N') :
    Evals V w me (.call (.act none a) k) N x N' := .act h

/-- A call of an action that changes nothing at the own node. -/
theorem read {a : S.Act} {k : S.Ret a → Prog S α} {x : α} (hst : (V.act a (N me)).2 = N me)
    (h : Evals V w me (k (V.act a (N me)).1) N x N') :
    Evals V w me (.call (.act none a) k) N x N' := by
  refine here ?_
  rwa [hst, Function.update_eq_self]

/-- **Sequencing.** -/
theorem bind {p : Prog S α} {f : α → Prog S β} {x : α} {y : β} (h : Evals V w me p N x N₁)
    (hf : Evals V w me (f x) N₁ y N') : Evals V w me (p >>= f) N y N' := by
  induction h with
  | ret => exact hf
  | act _ ih => exact .act (ih hf)
  | invoke hbody _ _ ih => exact .invoke hbody (ih hf)

/-- One turn of a loop. -/
theorem foldlM_cons {γ : Type} {f : β → γ → Prog S β} {b b₁ b' : β} {x : γ} {l : List γ}
    (h : Evals V w me (f b x) N b₁ N₁) (hrest : Evals V w me (l.foldlM f b₁) N₁ b' N') :
    Evals V w me ((x :: l).foldlM f b) N b' N' := by
  rw [List.foldlM_cons]
  exact h.bind hrest

/-- **A broadcast**: every node gets the action once, and each answer is counted. -/
theorem broadcast {a : S.Act} (f : β → S.Addr → S.Ret a → β) : ∀ {l : List S.Addr}, l.Nodup →
    ∀ (b : β) (N : S.Addr → V.State),
      Evals V w me (l.foldlM (fun v d ↦ do
          let r ← Prog.send d a
          pure (f v d r)) b) N
        (l.foldl (fun v d ↦ f v d ((w d a).reply V a (N d))) b)
        (fun d ↦ if d ∈ l then (w d a).effect V a (N d) else N d)
  | [], _, b, N => by
    simpa using Evals.ret
  | d :: l, hl, b, N => by
    obtain ⟨hd, hl⟩ := List.nodup_cons.1 hl
    refine foldlM_cons (.act .ret) ?_
    -- the other nodes are as they were
    have hothers : ∀ d' ∈ l, Function.update N d ((w d a).effect V a (N d)) d' = N d' :=
      fun d' hd' ↦ Function.update_of_ne (ne_of_mem_of_not_mem hd' hd) _ _
    have hvalue : l.foldl (fun v d' ↦ f v d' ((w d' a).reply V a
          (Function.update N d ((w d a).effect V a (N d)) d'))) (f b d ((w d a).reply V a (N d))) =
        (d :: l).foldl (fun v d' ↦ f v d' ((w d' a).reply V a (N d'))) b :=
      List.foldl_ext _ _ _ fun v d' hd' ↦ by rw [hothers d' hd']
    have hnodes : (fun d' ↦ if d' ∈ l then (w d' a).effect V a
          (Function.update N d ((w d a).effect V a (N d)) d')
        else Function.update N d ((w d a).effect V a (N d)) d') =
        fun d' ↦ if d' ∈ d :: l then (w d' a).effect V a (N d') else N d' := by
      funext d'
      by_cases hdd : d' = d
      · subst hdd
        simp [hd]
      · simp [hdd]
    have h := broadcast f hl (f b d ((w d a).reply V a (N d)))
      (Function.update N d ((w d a).effect V a (N d)))
    rw [hvalue, hnodes] at h
    exact h

end Evals

/-! ### Procedures -/

/-- The program evaluates, and the procedures it calls do what `Q` says. -/
def EvalsVia (V : Service S) (w : Plan S)
    (Q : S.Addr → S.Task → (S.Addr → V.State) → S.Reply → (S.Addr → V.State) → Prop)
    {α : Type} (me : S.Addr) : Prog S α → (S.Addr → V.State) → α → (S.Addr → V.State) → Prop
  | .ret y, N, x, N' => x = y ∧ N' = N
  | .call (.act dest a) k, N, x, N' =>
    EvalsVia V w Q me (k ((w.outcome dest a).reply V a (N (dest.getD me))))
      (Function.update N (dest.getD me) ((w.outcome dest a).effect V a (N (dest.getD me)))) x N'
  | .call (.invoke dest t) k, N, x, N' => ∃ r N₁,
    Evals V w (dest.getD me) (V.body (dest.getD me) t) N r N₁ ∧ Q (dest.getD me) t N r N₁ ∧
      EvalsVia V w Q me (k r) N₁ x N'

section Via

variable {w : Plan S} {α : Type} {me : S.Addr} {N N' : S.Addr → V.State}
  {Q : S.Addr → S.Task → (S.Addr → V.State) → S.Reply → (S.Addr → V.State) → Prop}

/-- A call of an action that changes nothing at the own node. -/
theorem EvalsVia.of_read {a : S.Act} {k : S.Ret a → Prog S α} {x : α}
    (hst : (V.act a (N me)).2 = N me) (h : EvalsVia V w Q me (.call (.act none a) k) N x N') :
    EvalsVia V w Q me (k (V.act a (N me)).1) N x N' := by
  change EvalsVia V w Q me (k (V.act a (N me)).1)
    (Function.update N me (V.act a (N me)).2) x N' at h
  rwa [hst, Function.update_eq_self] at h

/-- If the body of every procedure does what `Q` says, as far as the procedures that it calls
do, then evaluations do. -/
theorem Evals.via (hQ : ∀ me t N r N', Evals V w me (V.body me t) N r N' →
      EvalsVia V w Q me (V.body me t) N r N' → Q me t N r N') {p : Prog S α} {x : α}
    (h : Evals V w me p N x N') : EvalsVia V w Q me p N x N' := by
  induction h with
  | ret => exact ⟨rfl, rfl⟩
  | act _ ih => exact ih
  | invoke hbody _ ihbody ih => exact ⟨_, _, hbody, hQ _ _ _ _ _ hbody ihbody, ih⟩

/-- **Induction on the procedures called.** -/
theorem Evals.of_procedures (hQ : ∀ me t N r N', Evals V w me (V.body me t) N r N' →
      EvalsVia V w Q me (V.body me t) N r N' → Q me t N r N') {t : S.Task} {r : S.Reply}
    (h : Evals V w me (V.body me t) N r N') : Q me t N r N' :=
  hQ _ _ _ _ _ h (h.via hQ)

end Via

end Rpc
