import ReplicatedDB.Rpc.Outage

/-!
# Stories

A `Story` is what happens to a network when things happen one after another: a client calls a
procedure, a node stops, a node starts or starts again. While something is handled, nothing else
moves, and only the nodes that are up can be reached.

Which nodes these are is kept by an abstract `Machine`, which also says what may happen next and
what clients are answered. If the service refines the machine (`Machine.Refines`), one deed at a
time, then in every story the answers are those of the machine (`Story.simulates`), and what the
machine allows can happen (`Story.exists_of_accepts`).
-/

namespace Rpc

open Relation

variable {S : Sig} {V : Service S}

/-- Something that happens to a network. -/
inductive Deed (S : Sig) where
  /-- A client calls a procedure. -/
  | call (a : S.Addr) (t : S.Task)
  /-- A node stops. -/
  | stop (a : S.Addr)
  /-- A node starts, or starts again. -/
  | start (a : S.Addr)

/-- What a network is to look like from the outside. -/
structure Machine (S : Sig) (A : Type) where
  /-- The nodes that are up. -/
  up : A → Finset S.Addr
  /-- What may happen next. -/
  allows : A → Deed S → Prop
  /-- The result of what happens, if there is one, and the state afterwards. -/
  next : A → Deed S → Option S.Reply × A

namespace Machine

variable {A : Type} (M : Machine S A)

/-- The results of what happens in turn, and the state afterwards. -/
def run : A → List (Deed S) → List (Option S.Reply) × A
  | x, [] => ([], x)
  | x, d :: ds => ((M.next x d).1 :: (run (M.next x d).2 ds).1, (run (M.next x d).2 ds).2)

/-- What happens in turn is allowed. -/
def Accepts : A → List (Deed S) → Prop
  | _, [] => True
  | x, d :: ds => M.allows x d ∧ Accepts (M.next x d).2 ds

instance decidableAccepts [∀ x d, Decidable (M.allows x d)] : ∀ x ds, Decidable (M.Accepts x ds)
  | _, [] => inferInstanceAs (Decidable True)
  | x, d :: ds =>
    have := decidableAccepts (M.next x d).2 ds
    inferInstanceAs (Decidable (_ ∧ M.Accepts (M.next x d).2 ds))

theorem run_append (ds' : List (Deed S)) : ∀ (ds : List (Deed S)) (x : A), M.run x (ds ++ ds') =
    ((M.run x ds).1 ++ (M.run (M.run x ds).2 ds').1, (M.run (M.run x ds).2 ds').2)
  | [], _ => rfl
  | d :: ds, x => by simp [run, run_append ds' ds]

theorem run_append_one (d : Deed S) (ds : List (Deed S)) (x : A) : M.run x (ds ++ [d]) =
    ((M.run x ds).1 ++ [(M.next (M.run x ds).2 d).1], (M.next (M.run x ds).2 d).2) := by
  rw [run_append]
  rfl

theorem length_run : ∀ (ds : List (Deed S)) (x : A), (M.run x ds).1.length = ds.length
  | [], _ => rfl
  | d :: ds, x => congrArg (· + 1) (length_run ds (M.next x d).2)

/-- The results of a run are those of its parts. -/
theorem results_append {σ₁ σ₂ : List (Deed S × Option S.Reply)} {x : A} :
    (M.run x ((σ₁ ++ σ₂).map (·.1))).1 = (σ₁ ++ σ₂).map (·.2) ↔
      (M.run x (σ₁.map (·.1))).1 = σ₁.map (·.2) ∧
        (M.run (M.run x (σ₁.map (·.1))).2 (σ₂.map (·.1))).1 = σ₂.map (·.2) := by
  have hlen : (M.run x (σ₁.map (·.1))).1.length = (σ₁.map (·.2)).length := by
    rw [length_run, List.length_map, List.length_map]
  rw [List.map_append, List.map_append, run_append]
  exact ⟨fun h ↦ List.append_inj h hlen, fun h ↦ congrArg₂ _ h.1 h.2⟩

/-- The result of one of the things that happen depends on those before it. -/
theorem next_of_run {σ₁ σ₂ : List (Deed S × Option S.Reply)} {d : Deed S} {r : Option S.Reply}
    {x : A} (h : (M.run x ((σ₁ ++ (d, r) :: σ₂).map (·.1))).1 = (σ₁ ++ (d, r) :: σ₂).map (·.2)) :
    (M.next (M.run x (σ₁.map (·.1))).2 d).1 = r :=
  (List.cons.inj (M.results_append.1 h).2).1

/-- **The induction rule** for runs: what holds at the start, and is kept by whatever happens next
with its result, holds of everything that happens and the state afterwards. -/
theorem run_induction {P : List (Deed S × Option S.Reply) → A → Prop} {x₀ : A} (hinit : P [] x₀)
    (hstep : ∀ σ x d, P σ x → P (σ ++ [(d, (M.next x d).1)]) (M.next x d).2)
    {σ : List (Deed S × Option S.Reply)} (h : (M.run x₀ (σ.map (·.1))).1 = σ.map (·.2)) :
    P σ (M.run x₀ (σ.map (·.1))).2 := by
  induction σ using List.reverseRecOn with
  | nil => exact hinit
  | append_singleton σ e ih =>
    obtain ⟨d, r⟩ := e
    have hr := M.next_of_run h
    rw [List.map_append, List.map_singleton, M.run_append_one, ← hr]
    exact hstep _ _ d (ih (M.results_append.1 h).1)

variable [DecidableEq S.Addr]

/-- **Refinement**: everything that the machine allows evaluates to the result that it says, and
keeps a relation between the states of the nodes and that of the machine. -/
structure Refines (V : Service S) (sim : (S.Addr → V.State) → A → Prop) : Prop where
  call : ∀ N x a t, sim N x → M.allows x (.call a t) → ∃ r N',
    EvalsAmong V (M.up x) a (V.body a t) N r N' ∧ (M.next x (.call a t)).1 = some r ∧
      sim N' (M.next x (.call a t)).2
  stop : ∀ N x a, sim N x → M.allows x (.stop a) → (M.next x (.stop a)).1 = none ∧
    sim N (M.next x (.stop a)).2
  start : ∀ N x a, sim N x → M.allows x (.start a) → ∃ r N',
    EvalsAmong V (insert a (M.up x)) a (V.body a V.boot) (Function.update N a V.fresh) r N' ∧
      (M.next x (.start a)).1 = some r ∧ sim N' (M.next x (.start a)).2

end Machine

namespace Net

variable {A : Type} [DecidableEq S.Addr]

/-- A node starts, or starts again, and its boot procedure returns `r`. -/
def StartsAmong (up : Finset S.Addr) (s : Net V) (a : S.Addr) (r : S.Reply) (s' : Net V) : Prop :=
  (s.crash a).HandlesAmong up a V.boot r s'

/-- What happens one after another, with the results, beside a machine in its state. -/
inductive Story (M : Machine S A) (s₀ : Net V) (x₀ : A) :
    List (Deed S × Option S.Reply) → A → Net V → Prop where
  | nil : Story M s₀ x₀ [] x₀ s₀
  | call {σ : List (Deed S × Option S.Reply)} {x : A} {s s' : Net V} {a : S.Addr} {t : S.Task}
      {r : S.Reply} (h : Story M s₀ x₀ σ x s) (hallows : M.allows x (.call a t))
      (hs : s.HandlesAmong (M.up x) a t r s') :
      Story M s₀ x₀ (σ ++ [(.call a t, some r)]) (M.next x (.call a t)).2 s'
  | stop {σ : List (Deed S × Option S.Reply)} {x : A} {s : Net V} {a : S.Addr}
      (h : Story M s₀ x₀ σ x s) (hallows : M.allows x (.stop a)) :
      Story M s₀ x₀ (σ ++ [(.stop a, none)]) (M.next x (.stop a)).2 s
  | start {σ : List (Deed S × Option S.Reply)} {x : A} {s s' : Net V} {a : S.Addr}
      {r : S.Reply} (h : Story M s₀ x₀ σ x s) (hallows : M.allows x (.start a))
      (hs : s.StartsAmong (insert a (M.up x)) a r s') :
      Story M s₀ x₀ (σ ++ [(.start a, some r)]) (M.next x (.start a)).2 s'

variable {M : Machine S A} {s₀ s s' : Net V} {x₀ x : A} {σ : List (Deed S × Option S.Reply)}

/-- What is handled is part of a run. -/
theorem HandlesAmong.reach {up : Finset S.Addr} {a : S.Addr} {t : S.Task} {r : S.Reply}
    (h : s.HandlesAmong up a t r s') : Reach (fun _ _ ↦ True) (s.open' a t none).tick s' :=
  h.1.mono fun _ _ _ ↦ trivial

/-- **A story is a run** of the network. -/
theorem Story.reach (h : Story M s₀ x₀ σ x s) : Reach (fun _ _ ↦ True) s₀ s := by
  induction h with
  | nil => exact .refl
  | @call _ _ s _ a t _ _ _ hs ih =>
    exact (ih.tail ⟨.submit a t, trivial, rfl⟩).trans hs.reach
  | stop _ _ ih => exact ih
  | @start _ _ s _ a _ _ _ hs ih =>
    exact (ih.tail ⟨.restart a, trivial, rfl⟩).trans hs.reach

/-- **Simulation**: the results are those of the machine, and so is the state. -/
theorem Story.simulates {sim : (S.Addr → V.State) → A → Prop} (hM : M.Refines V sim)
    (hinit : sim s₀.nodes x₀) (h : Story M s₀ x₀ σ x s) :
    sim s.nodes x ∧ M.run x₀ (σ.map (·.1)) = (σ.map (·.2), x) := by
  induction h with
  | nil => exact ⟨hinit, rfl⟩
  | @call σ x s s' a t r _ hallows hs ih =>
    obtain ⟨r', N', hev, hr, hsim⟩ := hM.call _ x a t ih.1 hallows
    obtain ⟨rfl, hN⟩ := (evalsAmong_of_handlesAmong hs).det hev
    refine ⟨hN ▸ hsim, ?_⟩
    simp only [List.map_append, List.map_cons, List.map_nil, M.run_append_one, ih.2, hr]
  | @stop σ x s a _ hallows ih =>
    obtain ⟨hr, hsim⟩ := hM.stop _ x a ih.1 hallows
    refine ⟨hsim, ?_⟩
    simp only [List.map_append, List.map_cons, List.map_nil, M.run_append_one, ih.2, hr]
  | @start σ x s s' a r _ hallows hs ih =>
    obtain ⟨r', N', hev, hr, hsim⟩ := hM.start _ x a ih.1 hallows
    obtain ⟨rfl, hN⟩ := (evalsAmong_of_handlesAmong hs).det hev
    refine ⟨hN ▸ hsim, ?_⟩
    simp only [List.map_append, List.map_cons, List.map_nil, M.run_append_one, ih.2, hr]

/-- **Progress**: whatever the machine allows can happen. -/
theorem Story.exists_next {sim : (S.Addr → V.State) → A → Prop} (hM : M.Refines V sim)
    (hinit : sim s₀.nodes x₀) (h : Story M s₀ x₀ σ x s) {d : Deed S} (hd : M.allows x d) :
    ∃ r s', Story M s₀ x₀ (σ ++ [(d, r)]) (M.next x d).2 s' := by
  have hsim := (h.simulates hM hinit).1
  cases d with
  | call a t =>
    obtain ⟨r, N', hev, -⟩ := hM.call _ x a t hsim hd
    obtain ⟨s', hs, -⟩ := handlesAmong_of_evalsAmong hev
    exact ⟨some r, s', h.call hd hs⟩
  | stop a => exact ⟨none, s, h.stop hd⟩
  | start a =>
    obtain ⟨r, N', hev, -⟩ := hM.start _ x a hsim hd
    obtain ⟨s', hs, -⟩ := handlesAmong_of_evalsAmong (s := s.crash a) hev
    exact ⟨some r, s', h.start hd hs⟩

/-- ... one thing after another. -/
theorem Story.exists_of_accepts {sim : (S.Addr → V.State) → A → Prop} (hM : M.Refines V sim)
    (hinit : sim s₀.nodes x₀) : ∀ {ds : List (Deed S)} {σ : List (Deed S × Option S.Reply)} {x : A}
      {s : Net V}, Story M s₀ x₀ σ x s → M.Accepts x ds →
      ∃ σ' x' s', Story M s₀ x₀ (σ ++ σ') x' s' ∧ σ'.map (·.1) = ds
  | [], σ, x, s, h, _ => ⟨[], x, s, by rwa [List.append_nil], rfl⟩
  | d :: ds, σ, x, s, h, hds => by
    obtain ⟨r, s₁, h₁⟩ := h.exists_next hM hinit hds.1
    obtain ⟨σ', x', s', h', hσ'⟩ := Story.exists_of_accepts hM hinit h₁ hds.2
    refine ⟨(d, r) :: σ', x', s', ?_, by rw [List.map_cons, hσ']⟩
    rwa [List.append_assoc] at h'

end Net

end Rpc
