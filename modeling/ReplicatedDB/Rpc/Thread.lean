import Mathlib.Data.List.Induction
import ReplicatedDB.Rpc.BigStep

/-!
# Threads

A `Thread` is a stack of activations that wait for each other. One step of a thread is one step
of the evaluation of its stack (`Thread.step`), also when other threads move in between.

Hence evaluating a procedure is the same as running it. However a client's call was handled while
nothing else moved (`Handles`), this was an evaluation (`evals_of_handles`), and a call that
evaluates can be handled (`handles_of_evals`). A `Session` is a sequence of such calls, and
`Session.simulates` compares it with an abstract machine.
-/

namespace Rpc

open Relation

variable {S : Sig} {V : Service S} [DecidableEq S.Addr]

/-- What a request does at once, and the answer its caller gets. -/
theorem Net.transmit_nodes (s : Net V) (i : ℕ) (d : S.Addr) (a : S.Act) (o : Outcome) :
    (s.transmit i d a o).nodes = Function.update s.nodes d (o.effect V a (s.nodes d)) := by
  by_cases ho : o.Executed
  · rw [transmit_nodes_of_executed _ _ _ _ _ ho, Outcome.effect, if_pos ho]
  · rw [transmit_nodes_of_not_executed _ _ _ _ _ ho, Outcome.effect, if_neg ho,
      Function.update_eq_self]

omit [DecidableEq S.Addr] in
theorem Net.answer_eq (s : Net V) (d : S.Addr) (a : S.Act) (o : Outcome) :
    s.answer d a o = o.reply V a (s.nodes d) := by
  cases o <;> rfl

/-! ### Threads -/

/-- What is left to do in a stack of programs: the top one, then each of the others with the
result of the one before. -/
def EvalsStack (V : Service S) (w : Plan S) : S.Addr → Prog S S.Reply →
    List (S.Addr × (S.Reply → Prog S S.Reply)) → (S.Addr → V.State) → S.Reply →
      (S.Addr → V.State) → Prop
  | me, p, [], N, r, N' => Evals V w me p N r N'
  | me, p, (me', k) :: fs, N, r, N' =>
    ∃ r₁ N₁, Evals V w me p N r₁ N₁ ∧ EvalsStack V w me' (k r₁) fs N₁ r N'

namespace EvalsStack

variable {w : Plan S} {me : S.Addr} {fs : List (S.Addr × (S.Reply → Prog S S.Reply))}
  {N N' : S.Addr → V.State} {r : S.Reply}

/-- An evaluation of the top may start with steps that are known. -/
theorem mono {me' : S.Addr} {p p' : Prog S S.Reply} {N₁ : S.Addr → V.State}
    (hp : ∀ x N₂, Evals V w me' p' N₁ x N₂ → Evals V w me p N x N₂)
    (h : EvalsStack V w me' p' fs N₁ r N') : EvalsStack V w me p fs N r N' := by
  cases fs with
  | nil => exact hp _ _ h
  | cons f fs =>
    obtain ⟨r₁, N₂, htop, hrest⟩ := h
    exact ⟨r₁, N₂, hp _ _ htop, hrest⟩

theorem invoke {dest : Option S.Addr} {t : S.Task} {k : S.Reply → Prog S S.Reply}
    (h : EvalsStack V w (dest.getD me) (V.body (dest.getD me) t) ((me, k) :: fs) N r N') :
    EvalsStack V w me (.call (.invoke dest t) k) fs N r N' := by
  obtain ⟨r₁, N₁, hbody, hrest⟩ := h
  exact hrest.mono fun x N₂ hk ↦ .invoke hbody hk

end EvalsStack

/-- The outcome planned for the next call of a program. -/
def Plan.next (w : Plan S) : Prog S S.Reply → Outcome
  | .call (.act dest a) _ => w.outcome dest a
  | _ => .delivered

namespace Net

/-- The activation `i` is waited for by the first of `js`, that one by the second, and so on;
`fs` is what they have left to do. -/
inductive Waits (s : Net V) : ℕ → List (S.Addr × (S.Reply → Prog S S.Reply)) → List ℕ → Prop where
  | nil {i : ℕ} : Waits s i [] []
  | cons {i j : ℕ} {p : Activation S} {dest : Option S.Addr} {t : S.Task}
      {k : S.Reply → Prog S S.Reply} {fs : List (S.Addr × (S.Reply → Prog S S.Reply))}
      {js : List ℕ} (hp : s.acts[j]? = some p) (halive : p.alive = true)
      (hc : p.prog = .call (.invoke dest t) k) (hchild : p.child = some i) (hlt : j < i)
      (hrest : Waits s j fs js) : Waits s i ((p.node, k) :: fs) (j :: js)

/-- A stack of activations: `p`, whose index is `i`, on top of those that wait for it. -/
structure Thread (s : Net V) (i : ℕ) (p : Activation S)
    (fs : List (S.Addr × (S.Reply → Prog S S.Reply))) (js : List ℕ) : Prop where
  top : s.acts[i]? = some p
  alive : p.alive = true
  child : p.child = none
  waits : s.Waits i fs js

namespace Waits

variable {s s' : Net V} {i : ℕ} {fs : List (S.Addr × (S.Reply → Prog S S.Reply))} {js : List ℕ}

omit [DecidableEq S.Addr] in
theorem lt (h : s.Waits i fs js) : ∀ j ∈ js, j < i := by
  induction h with
  | nil => exact nofun
  | cons _ _ _ _ hlt _ ih =>
    intro j hj
    rcases List.mem_cons.1 hj with rfl | hj
    · exact hlt
    · exact Nat.lt_trans (ih j hj) hlt

omit [DecidableEq S.Addr] in
/-- Who waits does not depend on the other activations. -/
theorem congr (h : s.Waits i fs js) (heq : ∀ j ∈ js, s'.acts[j]? = s.acts[j]?) :
    s'.Waits i fs js := by
  induction h with
  | nil => exact .nil
  | cons hp halive hc hchild hlt _ ih =>
    exact .cons ((heq _ (by simp)).trans hp) halive hc hchild hlt
      (ih fun j hj ↦ heq j (List.mem_cons_of_mem _ hj))

omit [DecidableEq S.Addr] in
/-- Whoever waits has called a procedure, and waits for somebody in the stack. -/
theorem waiting (h : s.Waits i fs js) {j : ℕ} (hj : j ∈ js) :
    ∃ p dest t k, s.acts[j]? = some p ∧ p.prog = .call (.invoke dest t) k ∧
      ∃ j' ∈ i :: js, p.child = some j' := by
  induction h with
  | nil => cases hj
  | @cons i j' p dest t k fs js hp _ hc hchild _ _ ih =>
    rcases List.mem_cons.1 hj with rfl | hj
    · exact ⟨p, dest, t, k, hp, hc, i, by simp, hchild⟩
    · obtain ⟨q, dest, t, k, hq, hcq, j'', hj'', hchild'⟩ := ih hj
      exact ⟨q, dest, t, k, hq, hcq, j'', List.mem_cons_of_mem _ hj'', hchild'⟩

omit [DecidableEq S.Addr] in
/-- What those that wait have left to do. -/
theorem forall_frames (h : s.Waits i fs js) {P : S.Addr × (S.Reply → Prog S S.Reply) → Prop}
    (hP : ∀ j ∈ js, ∀ (p : Activation S) dest t k, s.acts[j]? = some p →
      p.prog = .call (.invoke dest t) k → P (p.node, k)) : ∀ f ∈ fs, P f := by
  induction h with
  | nil => exact nofun
  | @cons i j p dest t k fs js hp _ hc _ _ _ ih =>
    intro f hf
    rcases List.mem_cons.1 hf with rfl | hf
    · exact hP j (by simp) p dest t k hp hc
    · exact ih (fun j' hj' ↦ hP j' (List.mem_cons_of_mem _ hj')) f hf

end Waits

namespace Thread

variable {w : Plan S} {s s' : Net V} {l : Label S} {i : ℕ} {p : Activation S}
  {fs : List (S.Addr × (S.Reply → Prog S S.Reply))} {js : List ℕ}

omit [DecidableEq S.Addr] in
theorem exists_of_mem (h : s.Thread i p fs js) {j : ℕ} (hj : j ∈ i :: js) :
    ∃ q, s.acts[j]? = some q := by
  rcases List.mem_cons.1 hj with rfl | hj
  · exact ⟨p, h.top⟩
  · obtain ⟨q, -, -, -, hq, -⟩ := h.waits.waiting hj
    exact ⟨q, hq⟩

omit [DecidableEq S.Addr] in
/-- A thread stays as it is while others move. -/
theorem congr (h : s.Thread i p fs js) (heq : ∀ j ∈ i :: js, s'.acts[j]? = s.acts[j]?) :
    s'.Thread i p fs js where
  top := (heq i (by simp)).trans h.top
  alive := h.alive
  child := h.child
  waits := h.waits.congr fun j hj ↦ heq j (List.mem_cons_of_mem _ hj)

omit [DecidableEq S.Addr] in
/-- When all have returned, nobody waits. -/
theorem of_finished (h : s.Thread i p fs js) (hdone : s.Finished) : fs = [] ∧ js = [] := by
  cases h.waits with
  | nil => exact ⟨rfl, rfl⟩
  | cons hq _ hc =>
    obtain ⟨r, hr⟩ := hdone.returned (List.mem_of_getElem? hq)
    cases hr.symm.trans hc

/-- **One step of a thread** is one step of the evaluation of its stack. -/
theorem step (h : s.Thread i p fs js) {j : ℕ} (hj : j ∈ i :: js) {o : Outcome}
    (ho : ∀ q ∈ s.acts[j]?, o = w.next q.prog) (hs : Step s (.step j o) s') :
    ∃ i' p' fs' js', s'.Thread i' p' fs' js' ∧
      (∀ r N', EvalsStack V w p'.node p'.prog fs' s'.nodes r N' →
        EvalsStack V w p.node p.prog fs s.nodes r N') ∧
      (i' :: js').getLast? = (i :: js).getLast? ∧
      (∀ j' ∈ i' :: js', j' ∈ i :: js ∨ j' = s.acts.length) ∧
      ∀ j', j' ∈ i :: js ∨ j' = s.acts.length →
        j' ∈ i' :: js' ∨ ∀ q ∈ s'.acts[j']?, ∃ r, q.Returned r := by
  have htop := h.top
  -- the others in the stack have called a procedure
  have hcases : ∀ q c k, s.acts[j]? = some q → q.prog = .call c k →
      (∀ dest t, c ≠ .invoke dest t) ∨ q.child = none → j = i ∧ q = p := by
    intro q c k hq hc hor
    rcases List.mem_cons.1 hj with rfl | hj
    · exact ⟨rfl, Option.some.inj (hq.symm.trans h.top)⟩
    · obtain ⟨q', dest, t, k', hq', hc', j', -, hchild⟩ := h.waits.waiting hj
      obtain rfl := Option.some.inj (hq.symm.trans hq')
      rcases hor with hne | hnone
      · exact absurd (Prog.call.inj (hc.symm.trans hc')).1 (hne dest t)
      · cases hnone.symm.trans hchild
  have hlt := h.waits.lt
  cases hs with
  | @act _ q _ dest a k hq halive hc _ =>
    obtain ⟨rfl, rfl⟩ := hcases q _ _ hq hc (.inl nofun)
    obtain rfl : o = w.outcome dest a := by rw [ho _ hq, hc]; rfl
    obtain ⟨x, hx⟩ : ∃ x, x = s.answer (dest.getD q.node) a (w.outcome dest a) := ⟨_, rfl⟩
    rw [← hx]
    refine ⟨j, q.resume s.clock (.act dest a) x (k x), fs, js, ⟨?_, halive, rfl, ?_⟩, ?_, rfl,
      fun j' hj' ↦ .inl hj', fun j' hj' ↦ hj'.imp_right ?_⟩
    · rw [tick_acts, put_acts, transmit_acts]
      exact set_self hq
    · refine h.waits.congr fun j' hj' ↦ ?_
      rw [tick_acts, put_acts, transmit_acts, List.getElem?_set_ne (Nat.ne_of_gt (hlt j' hj'))]
    · intro r N' hev
      rw [hc]
      refine hev.mono fun y N₂ hy ↦ .act ?_
      rwa [tick_nodes, put_nodes, transmit_nodes, Activation.resume_prog, hx, answer_eq] at hy
    · rintro rfl
      simp
  | @spawn _ q dest t k hq halive hc hchild =>
    obtain ⟨rfl, rfl⟩ := hcases q _ _ hq hc (.inr hchild)
    have hlen := lt_length hq
    have hnew : ((s.open' (dest.getD q.node) t (some j)).put j (q.await s.acts.length)).tick.acts =
        (s.acts ++ [s.opened (dest.getD q.node) t (some j)]).set j (q.await s.acts.length) := rfl
    refine ⟨s.acts.length, s.opened (dest.getD q.node) t (some j), (q.node, k) :: fs, j :: js,
      ⟨?_, rfl, rfl, ?_⟩, ?_, by simp, ?_, fun j' hj' ↦ .inl ?_⟩
    · rw [hnew, List.getElem?_set_ne (Nat.ne_of_lt hlen), List.getElem?_concat_length]
    · refine .cons (p := q.await s.acts.length) ?_ halive hc rfl hlen
        (h.waits.congr fun j' hj' ↦ ?_)
      · rw [hnew, List.getElem?_set_self (by simp; omega)]
      · rw [hnew, List.getElem?_set_ne (Nat.ne_of_gt (hlt j' hj')),
          List.getElem?_append_left (Nat.lt_trans (hlt j' hj') hlen)]
    · intro r N' hev
      rw [hc]
      exact hev.invoke
    · intro j' hj'
      rcases List.mem_cons.1 hj' with rfl | hj'
      · exact .inr rfl
      · exact .inl hj'
    · rcases hj' with hj' | rfl
      · exact List.mem_cons_of_mem _ hj'
      · exact List.mem_cons_self
  | @back _ i' q q' dest t r k hq halive hc hchild hq' hr =>
    -- the callee that has returned is on top
    have hne : j ≠ i := by
      rintro rfl
      obtain rfl := Option.some.inj (htop.symm.trans hq)
      cases h.child.symm.trans hchild
    have hi' : i' = i := by
      have hjs := (List.mem_cons.1 hj).resolve_left hne
      obtain ⟨q₁, -, -, -, hq₁, -, j', hj', hchild₁⟩ := h.waits.waiting hjs
      obtain rfl := Option.some.inj (hq.symm.trans hq₁)
      obtain rfl := Option.some.inj (hchild.symm.trans hchild₁)
      rcases List.mem_cons.1 hj' with rfl | hj'
      · rfl
      · obtain ⟨q₂, dest₂, t₂, k₂, hq₂, hc₂, -⟩ := h.waits.waiting hj'
        obtain rfl := Option.some.inj (hq'.symm.trans hq₂)
        cases hr.symm.trans hc₂
    subst hi'
    obtain rfl := Option.some.inj (htop.symm.trans hq')
    cases h.waits with
    | nil => exact absurd (List.mem_singleton.1 hj) hne
    | @cons _ j₁ q₁ dest₁ t₁ k₁ fs js hq₁ halive₁ hc₁ hchild₁ hlt₁ hrest =>
      -- and the one that goes on waits for it
      have hj₁ : j = j₁ := by
        rcases List.mem_cons.1 ((List.mem_cons.1 hj).resolve_left hne) with rfl | hjs
        · rfl
        obtain ⟨q₂, -, -, -, hq₂, -, j', hj', hchild₂⟩ := hrest.waiting hjs
        obtain rfl := Option.some.inj (hq.symm.trans hq₂)
        obtain rfl := Option.some.inj (hchild.symm.trans hchild₂)
        rcases List.mem_cons.1 hj' with rfl | hj'
        · exact absurd hlt₁ (Nat.lt_irrefl _)
        · exact absurd (Nat.lt_trans (hrest.lt _ hj') hlt₁) (Nat.lt_irrefl _)
      subst hj₁
      obtain rfl := Option.some.inj (hq.symm.trans hq₁)
      obtain ⟨hcall, hk⟩ := Prog.call.inj (hc.symm.trans hc₁)
      obtain ⟨rfl, rfl⟩ := Call.invoke.inj hcall
      obtain rfl := eq_of_heq hk
      refine ⟨j, q.resume s.clock (.invoke dest t) r (k r), fs, js,
        ⟨set_self hq, halive, rfl, hrest.congr fun j' hj' ↦ ?_⟩, ?_, by simp,
        fun j' hj' ↦ .inl (List.mem_cons_of_mem _ hj'), fun j' hj' ↦ ?_⟩
      · rw [tick_acts, put_acts, List.getElem?_set_ne (Nat.ne_of_gt (hrest.lt j' hj'))]
      · intro r' N' hev
        rw [show p.prog = .ret r from hr]
        exact ⟨r, _, .ret, hev⟩
      · rcases hj' with hj' | rfl
        · rcases List.mem_cons.1 hj' with rfl | hj'
          · refine .inr fun q' hq' ↦ ⟨r, ?_⟩
            rw [tick_acts, put_acts, List.getElem?_set_ne hne, htop] at hq'
            obtain rfl := Option.some.inj hq'
            exact hr
          · exact .inl hj'
        · exact .inr (by simp)
  | @giveUp _ q d t _ k hq halive hc hor =>
    rw [ho _ hq, hc] at hor
    rcases hor with ⟨-, hor⟩ | ⟨-, hor⟩ <;> cases hor

end Thread

/-- The step of an activation leaves the others alone, except for a new one. -/
theorem Step.other {s s' : Net V} {i j : ℕ} {o : Outcome} (hs : Step s (.step i o) s')
    {q : Activation S} (hq : s'.acts[j]? = some q) (hji : j ≠ i) (hnew : j ≠ s.acts.length) :
    s.acts[j]? = some q := by
  rcases hs.activation hq with h | ⟨heq, -⟩ | ⟨p, -, -, -, -, hl, -⟩ | ⟨p, -, -, hl⟩ |
    ⟨p, c, k, r, -, -, -, -, hans⟩
  · exact h
  · exact absurd heq hnew
  · exact absurd (Label.step.inj hl).1.symm hji
  · cases hl
  · obtain ⟨o', hl⟩ := hans.label
    exact absurd (Label.step.inj hl).1.symm hji

/-! ### Calls of clients -/

/-- One of the activations from the index `n` on makes its next call, with the outcome planned. -/
def Follows (w : Plan S) (n : ℕ) (s : Net V) (l : Label S) : Prop :=
  ∃ (i : ℕ) (p : Activation S), n ≤ i ∧ s.acts[i]? = some p ∧ l = .step i (w.next p.prog)

/-- A client's call of `t` at the node `a` is handled and returns `r`, while nothing else moves. -/
def Handles (w : Plan S) (s : Net V) (a : S.Addr) (t : S.Task) (r : S.Reply) (s' : Net V) : Prop :=
  Reach (Follows w s.acts.length) (s.open' a t none).tick s' ∧
    ∃ q, s'.acts[s.acts.length]? = some q ∧ q.Returned r

variable {w : Plan S} {s s' : Net V}

/-- **A call that is handled evaluates.** -/
theorem evals_of_handles {a : S.Addr} {t : S.Task} {r : S.Reply} (h : s.Handles w a t r s') :
    Evals V w a (V.body a t) s.nodes r s'.nodes := by
  obtain ⟨hr, q, hq, hret⟩ := h
  obtain ⟨n, hn⟩ : ∃ n, n = s.acts.length := ⟨_, rfl⟩
  rw [← hn] at hr hq
  -- the call is one thread, and everything else that it has started has returned
  have hinv : ∃ i p fs js, s'.Thread i p fs js ∧
      (∀ r N', EvalsStack V w p.node p.prog fs s'.nodes r N' →
        Evals V w a (V.body a t) s.nodes r N') ∧
      (i :: js).getLast? = some n ∧
      ∀ j, n ≤ j → j ∈ i :: js ∨ ∀ q ∈ s'.acts[j]?, ∃ r, q.Returned r := by
    refine hr.invariant (I := fun s' ↦ ∃ i p fs js, s'.Thread i p fs js ∧
      (∀ r N', EvalsStack V w p.node p.prog fs s'.nodes r N' →
        Evals V w a (V.body a t) s.nodes r N') ∧
      (i :: js).getLast? = some n ∧
      ∀ j, n ≤ j → j ∈ i :: js ∨ ∀ q ∈ s'.acts[j]?, ∃ r, q.Returned r) ?_ ?_
    · refine ⟨n, s.opened a t none, [], [], ⟨by simp [hn], rfl, rfl, .nil⟩, fun r N' hev ↦ hev,
        rfl, fun j hj ↦ ?_⟩
      by_cases hjn : j = n
      · exact .inl (by simp [hjn])
      · refine .inr fun q hq ↦ absurd (lt_length hq) ?_
        simp [← hn]
        omega
    · rintro s₁ l s₂ - - ⟨i, p, fs, js, hthread, hev, hlast, hrest⟩ ⟨j, q, hj, hq, rfl⟩ hs
      have hjs : j ∈ i :: js := by
        refine (hrest j hj).resolve_right fun hret ↦ ?_
        obtain ⟨q', c, k, hq', -, hc, -⟩ := hs.moved
        obtain ⟨r', hr'⟩ := hret q' hq'
        cases hr'.symm.trans hc
      obtain ⟨i', p', fs', js', hthread', hev', hlast', -, hrest'⟩ := hthread.step hjs (w := w)
        (fun q' hq' ↦ by rw [Option.some.inj (hq.symm.trans hq')]) hs
      refine ⟨i', p', fs', js', hthread', fun r N' h ↦ hev r N' (hev' r N' h), hlast'.trans hlast,
        fun j' hj' ↦ ?_⟩
      by_cases hold : j' ∈ i :: js ∨ j' = s₁.acts.length
      · exact hrest' j' hold
      obtain ⟨hnot, hne⟩ := not_or.1 hold
      refine .inr fun q' hq' ↦ ?_
      have hmoved : j' ≠ j := fun heq ↦ hnot (heq ▸ hjs)
      exact (hrest j' hj').resolve_left hnot q' (hs.other hq' hmoved hne)
  obtain ⟨i, p, fs, js, hthread, hev, hlast, -⟩ := hinv
  -- what has returned is all of the stack
  have hni : n = i := by
    refine (List.mem_cons.1 (List.mem_of_getLast? hlast)).resolve_right fun hjs ↦ ?_
    obtain ⟨q', dest, t', k, hq', hc, -⟩ := hthread.waits.waiting hjs
    obtain rfl := Option.some.inj (hq.symm.trans hq')
    cases hret.symm.trans hc
  subst hni
  have hjs : js = [] := by
    rcases List.eq_nil_or_concat js with rfl | ⟨js, j, rfl⟩
    · rfl
    · have hlt := hthread.waits.lt j (by simp)
      rw [List.concat_eq_append, ← List.cons_append, List.getLast?_append] at hlast
      simp at hlast
      omega
  subst hjs
  cases hthread.waits
  obtain rfl := Option.some.inj (hq.symm.trans hthread.top)
  refine hev r _ ?_
  rw [show q.prog = .ret r from hret]
  exact .ret

/-- Nothing else moves. -/
theorem Reach.others {n : ℕ} (h : Reach (Follows w n) s s') {j : ℕ} (hj : j < n)
    {p : Activation S} (hp : s.acts[j]? = some p) : s'.acts[j]? = some p := by
  refine h.invariant (I := fun s ↦ s.acts[j]? = some p) hp ?_
  rintro s l s' - - ih ⟨i, q, hi, -, rfl⟩ hs
  obtain ⟨q', hq', -⟩ := hs.keeps ih
  rcases hs.activation hq' with hold | ⟨rfl, -⟩ | ⟨p₀, -, -, -, -, hl, -⟩ | ⟨p₀, -, -, hl⟩ |
    ⟨p₀, c, k, r, -, -, -, -, hans⟩
  · rw [hq', ← hold, ih]
  · exact absurd (lt_length ih) (Nat.lt_irrefl _)
  · obtain ⟨rfl, -⟩ := Label.step.inj hl
    omega
  · cases hl
  · obtain ⟨o, hl⟩ := hans.label
    obtain ⟨rfl, -⟩ := Label.step.inj hl
    omega

/-- **The answers that a call gets** were planned, or the request failed. -/
theorem Handles.planned {a : S.Addr} {t : S.Task} {r : S.Reply} (h : s.Handles w a t r s')
    {j : ℕ} (hj : s.acts.length ≤ j) {p : Activation S} (hp : s'.acts[j]? = some p) {d : S.Addr}
    {b : S.Act} {x : S.Ret b} (hx : ⟨.act (some d) b, x⟩ ∈ p.hist) :
    w d b = .delivered ∨ x = V.lost b := by
  refine h.1.invariant (I := fun s₁ ↦ ∀ p : Activation S, s₁.acts[j]? = some p →
    ⟨.act (some d) b, x⟩ ∈ p.hist → w d b = .delivered ∨ x = V.lost b) ?_ ?_ p hp hx
  · intro p hp hx
    rcases getElem?_append_one hp with hp | ⟨-, rfl⟩
    · exact absurd (lt_length hp) (Nat.not_lt.2 hj)
    · simp at hx
  · rintro s₁ l s₂ - - ih ⟨i, q, -, hq, rfl⟩ hs p hp hx
    obtain ⟨p', hp', -, -, hx' | ⟨c, k, x', -, hc, heq, hans⟩⟩ := hs.event hp hx
    · exact ih p' hp' hx'
    · obtain ⟨rfl, heq⟩ := Sigma.mk.inj heq
      obtain rfl := eq_of_heq heq
      obtain ⟨o, hl, -, hans⟩ := hans
      obtain ⟨rfl, rfl⟩ := Label.step.inj hl
      obtain rfl := Option.some.inj (hq.symm.trans hp')
      rw [hans, hc]
      by_cases ho : w d b = .delivered
      · exact .inl ho
      · right
        change s₁.answer d b (w d b) = _
        cases hw : w d b <;> first | exact absurd hw ho | rfl

/-- A planned call of an action takes effect. -/
theorem follows_act {i n : ℕ} (hn : n ≤ i) {q : Activation S} {dest : Option S.Addr} {a : S.Act}
    {k : S.Ret a → Prog S S.Reply} (hq : s.acts[i]? = some q) (halive : q.alive = true)
    (hc : q.prog = .call (.act dest a) k) :
    ∃ s', Reach (Follows w n) s s' ∧
      s'.nodes = Function.update s.nodes (dest.getD q.node)
        ((w.outcome dest a).effect V a (s.nodes (dest.getD q.node))) ∧
      s'.acts = s.acts.set i (q.resume s.clock (.act dest a)
        ((w.outcome dest a).reply V a (s.nodes (dest.getD q.node)))
        (k ((w.outcome dest a).reply V a (s.nodes (dest.getD q.node))))) := by
  have hdest : dest.isSome ∨ w.outcome dest a = .delivered := by
    cases dest with
    | none => exact .inr rfl
    | some d => exact .inl rfl
  have hstep : s.step (.step i (w.outcome dest a)) =
      some ((s.transmit i (dest.getD q.node) a (w.outcome dest a)).put i
        (q.resume s.clock (.act dest a) (s.answer (dest.getD q.node) a (w.outcome dest a))
          (k (s.answer (dest.getD q.node) a (w.outcome dest a))))).tick := by
    simp only [Net.step, hq, Option.bind_some, halive, if_true, hc, advance, if_pos hdest,
      Option.map_some]
  refine ⟨_, .single ⟨.step i (w.outcome dest a), ⟨i, q, hn, hq, by rw [hc]; rfl⟩, hstep⟩, ?_, ?_⟩
  · rw [tick_nodes, put_nodes, transmit_nodes]
  · rw [tick_acts, put_acts, transmit_acts, answer_eq]

/-- A call of a procedure starts a thread of its own. -/
theorem follows_spawn {i n : ℕ} (hn : n ≤ i) {q : Activation S} {dest : Option S.Addr}
    {t : S.Task} {k : S.Reply → Prog S S.Reply} (hq : s.acts[i]? = some q)
    (halive : q.alive = true) (hchild : q.child = none)
    (hc : q.prog = .call (.invoke dest t) k) :
    ∃ s', Reach (Follows w n) s s' ∧ s'.nodes = s.nodes ∧
      s'.acts = (s.acts ++ [s.opened (dest.getD q.node) t (some i)]).set i
        (q.await s.acts.length) := by
  have hstep : s.step (.step i .delivered) =
      some ((s.open' (dest.getD q.node) t (some i)).put i (q.await s.acts.length)).tick := by
    simp only [Net.step, hq, Option.bind_some, halive, if_true, hc, advance, hchild,
      Option.map_some]
  exact ⟨_, .single ⟨.step i .delivered, ⟨i, q, hn, hq, by rw [hc]; rfl⟩, hstep⟩, rfl, rfl⟩

/-- A caller goes on when its callee has returned. -/
theorem follows_back {i j n : ℕ} (hn : n ≤ i) {q q' : Activation S} {dest : Option S.Addr}
    {t : S.Task} {r : S.Reply} {k : S.Reply → Prog S S.Reply} (hq : s.acts[i]? = some q)
    (halive : q.alive = true) (hchild : q.child = some j)
    (hc : q.prog = .call (.invoke dest t) k) (hq' : s.acts[j]? = some q') (hr : q'.Returned r) :
    ∃ s', Reach (Follows w n) s s' ∧ s'.nodes = s.nodes ∧
      s'.acts = s.acts.set i (q.resume s.clock (.invoke dest t) r (k r)) := by
  have hstep : s.step (.step i .delivered) =
      some (s.put i (q.resume s.clock (.invoke dest t) r (k r))).tick := by
    simp only [Net.step, hq, Option.bind_some, halive, if_true, hc, advance, hchild, hq',
      Prog.result?_eq_some_iff.2 hr, Option.map_some]
  exact ⟨_, .single ⟨.step i .delivered, ⟨i, q, hn, hq, by rw [hc]; rfl⟩, hstep⟩, rfl, rfl⟩

/-- **A program that evaluates can be run**, whatever comes after it. -/
theorem run_of_evals {α : Type} {me : S.Addr} {p : Prog S α} {N N' : S.Addr → V.State} {x : α}
    (h : Evals V w me p N x N') : ∀ {s : Net V} {i n : ℕ} {q : Activation S}
      {f : α → Prog S S.Reply}, n ≤ i → s.acts[i]? = some q → q.alive = true → q.child = none →
      q.node = me → q.prog = p >>= f → s.nodes = N →
      ∃ s', Reach (Follows w n) s s' ∧ s'.nodes = N' ∧
        (∃ q', s'.acts[i]? = some q' ∧ q'.alive = true ∧ q'.child = none ∧ q'.node = me ∧
          q'.prog = f x) ∧
        s.acts.length ≤ s'.acts.length ∧
        ∀ j < s.acts.length, j ≠ i → s'.acts[j]? = s.acts[j]? := by
  induction h with
  | ret =>
    intro s i n q f hn hq halive hchild hnode hprog hN
    exact ⟨s, .refl, hN, ⟨q, hq, halive, hchild, hnode, hprog⟩, Nat.le_refl _, fun _ _ _ ↦ rfl⟩
  | @act α me dest a k N N' x _ ih =>
    rintro s i n q f hn hq halive hchild rfl hprog rfl
    obtain ⟨s₁, hr₁, hnodes₁, hacts₁⟩ := follows_act (w := w) hn hq halive hprog
    have hi₁ : s₁.acts[i]? = some _ := (congrArg (fun l ↦ l[i]?) hacts₁).trans (set_self hq)
    obtain ⟨s', hr', hnodes', hq', hlen, hothers⟩ := ih hn hi₁ halive rfl rfl rfl hnodes₁
    have hlen₁ : s₁.acts.length = s.acts.length := by rw [hacts₁, List.length_set]
    refine ⟨s', hr₁.trans hr', hnodes', hq', hlen₁ ▸ hlen, fun j hj hji ↦ ?_⟩
    rw [hothers j (hlen₁ ▸ hj) hji, hacts₁, List.getElem?_set_ne (Ne.symm hji)]
  | @invoke α me dest t k N N₁ N' r x _ _ ihbody ih =>
    rintro s i n q f hn hq halive hchild rfl hprog rfl
    have hlt := lt_length hq
    obtain ⟨s₁, hr₁, hnodes₁, hacts₁⟩ := follows_spawn (w := w) hn hq halive hchild hprog
    have hlen₁ : s₁.acts.length = s.acts.length + 1 := by simp [hacts₁]
    -- the callee runs,
    obtain ⟨s₂, hr₂, hnodes₂, ⟨q₂, hq₂, -, -, -, hret₂⟩, hlen₂, hothers₂⟩ :=
      ihbody (i := s.acts.length) (q := s.opened (dest.getD q.node) t (some i))
        (Nat.le_trans hn (Nat.le_of_lt hlt))
        (by rw [hacts₁, List.getElem?_set_ne (Nat.ne_of_lt hlt), List.getElem?_concat_length])
        rfl rfl rfl (Prog.bind_ret _).symm hnodes₁
    have hi₂ : s₂.acts[i]? = some (q.await s.acts.length) := by
      rw [hothers₂ i (by omega) (Nat.ne_of_lt hlt), hacts₁, List.getElem?_set_self (by simp; omega)]
    -- returns,
    obtain ⟨s₃, hr₃, hnodes₃, hacts₃⟩ := follows_back (w := w) hn hi₂ halive rfl hprog hq₂ hret₂
    have hlen₃ : s₃.acts.length = s₂.acts.length := by rw [hacts₃, List.length_set]
    -- and the caller goes on
    have hi₃ : s₃.acts[i]? = some _ := (congrArg (fun l ↦ l[i]?) hacts₃).trans (set_self hi₂)
    obtain ⟨s', hr', hnodes', hq', hlen', hothers'⟩ :=
      ih hn hi₃ halive rfl rfl rfl (hnodes₃.trans hnodes₂)
    refine ⟨s', ((hr₁.trans hr₂).trans hr₃).trans hr', hnodes', hq', by omega, fun j hj hji ↦ ?_⟩
    rw [hothers' j (by omega) hji, hacts₃, List.getElem?_set_ne (Ne.symm hji),
      hothers₂ j (by omega) (Nat.ne_of_lt hj), hacts₁, List.getElem?_set_ne (Ne.symm hji),
      List.getElem?_append_left hj]

/-- **A call that evaluates can be handled.** -/
theorem handles_of_evals {a : S.Addr} {t : S.Task} {r : S.Reply} {N' : S.Addr → V.State}
    (h : Evals V w a (V.body a t) s.nodes r N') : ∃ s', s.Handles w a t r s' ∧ s'.nodes = N' := by
  obtain ⟨s', hr, hnodes, ⟨q, hq, -, -, -, hret⟩, -⟩ := run_of_evals h
    (s := (s.open' a t none).tick) (i := s.acts.length) (n := s.acts.length) (f := .ret)
    (q := s.opened a t none) (Nat.le_refl _) (by simp) rfl rfl rfl (Prog.bind_ret _).symm rfl
  exact ⟨s', ⟨hr, q, hq, hret⟩, hnodes⟩

/-! ### Sessions -/

/-- Calls of clients that are handled one after another, each with the plan for its procedure;
and their answers. -/
inductive Session (W : S.Task → Plan S) (allowed : S.Addr → S.Task → Prop) (s₀ : Net V) :
    List (S.Addr × S.Task × S.Reply) → Net V → Prop where
  | nil : Session W allowed s₀ [] s₀
  | snoc {σ : List (S.Addr × S.Task × S.Reply)} {s s' : Net V} {a : S.Addr} {t : S.Task}
      {r : S.Reply} (h : Session W allowed s₀ σ s) (hcall : allowed a t)
      (hs : s.Handles (W t) a t r s') : Session W allowed s₀ (σ ++ [(a, t, r)]) s'

/-- **Induction on sessions.** -/
theorem Session.invariant {W : S.Task → Plan S} {allowed : S.Addr → S.Task → Prop} {s₀ : Net V}
    {I : List (S.Addr × S.Task × S.Reply) → Net V → Prop} (hinit : I [] s₀)
    (hstep : ∀ σ s a t r s', Session W allowed s₀ σ s → I σ s → allowed a t →
      s.Handles (W t) a t r s' → I (σ ++ [(a, t, r)]) s')
    {σ : List (S.Addr × S.Task × S.Reply)} (h : Session W allowed s₀ σ s) : I σ s := by
  induction h with
  | nil => exact hinit
  | snoc h hcall hs ih => exact hstep _ _ _ _ _ _ h ih hcall hs

/-- What an abstract machine answers to calls, and its state afterwards. -/
def serve {A : Type} (f : A → S.Task → S.Reply × A) : A → List S.Task → List S.Reply × A
  | x, [] => ([], x)
  | x, t :: ts => ((f x t).1 :: (serve f (f x t).2 ts).1, (serve f (f x t).2 ts).2)

omit [DecidableEq S.Addr] in
theorem serve_append_one {A : Type} {f : A → S.Task → S.Reply × A} (t : S.Task) :
    ∀ (ts : List S.Task) (x : A), serve f x (ts ++ [t]) =
      ((serve f x ts).1 ++ [(f (serve f x ts).2 t).1], (f (serve f x ts).2 t).2)
  | [], _ => rfl
  | t' :: ts, x => by simp [serve, serve_append_one t ts]

/-- **Simulation**: if every call evaluates as the abstract machine says and keeps a relation to
its state, then sessions get the answers of the machine. -/
theorem Session.simulates {W : S.Task → Plan S} {allowed : S.Addr → S.Task → Prop} {s₀ : Net V}
    {A : Type} {f : A → S.Task → S.Reply × A} {sim : (S.Addr → V.State) → A → Prop} {x₀ : A}
    (hstep : ∀ N x a t, sim N x → allowed a t →
      ∃ N', Evals V (W t) a (V.body a t) N (f x t).1 N' ∧ sim N' (f x t).2)
    (hinit : sim s₀.nodes x₀) {σ : List (S.Addr × S.Task × S.Reply)}
    (h : Session W allowed s₀ σ s) :
    sim s.nodes (serve f x₀ (σ.map (·.2.1))).2 ∧
      σ.map (·.2.2) = (serve f x₀ (σ.map (·.2.1))).1 := by
  refine h.invariant (I := fun σ s ↦ sim s.nodes (serve f x₀ (σ.map (·.2.1))).2 ∧
    σ.map (·.2.2) = (serve f x₀ (σ.map (·.2.1))).1) ⟨hinit, rfl⟩ ?_
  rintro σ s a t r s' - ⟨hsim, hanswers⟩ hcall hs
  obtain ⟨N', hev, hsim'⟩ := hstep _ _ a t hsim hcall
  obtain ⟨hr, hN⟩ := (evals_of_handles hs).det hev
  simp only [List.map_append, List.map_cons, List.map_nil, serve_append_one]
  exact ⟨hN ▸ hsim', by rw [hanswers, hr]⟩

/-- ... and every call can be handled. -/
theorem Session.exists_handles {W : S.Task → Plan S} {allowed : S.Addr → S.Task → Prop}
    {s₀ : Net V} {A : Type} {f : A → S.Task → S.Reply × A} {sim : (S.Addr → V.State) → A → Prop}
    {x₀ : A} (hstep : ∀ N x a t, sim N x → allowed a t →
      ∃ N', Evals V (W t) a (V.body a t) N (f x t).1 N' ∧ sim N' (f x t).2)
    (hinit : sim s₀.nodes x₀) {σ : List (S.Addr × S.Task × S.Reply)}
    (h : Session W allowed s₀ σ s) {a : S.Addr} {t : S.Task} (hcall : allowed a t) :
    ∃ r s', s.Handles (W t) a t r s' := by
  obtain ⟨N', hev, -⟩ := hstep _ _ a t (h.simulates hstep hinit).1 hcall
  obtain ⟨s', hs, -⟩ := handles_of_evals hev
  exact ⟨_, s', hs⟩

/-- If every call can be handled, then so can every sequence of calls. -/
theorem Session.exists_of_calls {W : S.Task → Plan S} {allowed : S.Addr → S.Task → Prop}
    {s₀ : Net V}
    (hnext : ∀ σ s a t, Session W allowed s₀ σ s → allowed a t → ∃ r s', s.Handles (W t) a t r s')
    (calls : List (S.Addr × S.Task)) (hcalls : ∀ c ∈ calls, allowed c.1 c.2) :
    ∃ σ s, Session W allowed s₀ σ s ∧ σ.map (fun e ↦ (e.1, e.2.1)) = calls := by
  induction calls using List.reverseRecOn with
  | nil => exact ⟨[], s₀, .nil, rfl⟩
  | append_singleton calls c ih =>
    obtain ⟨σ, s, h, hσ⟩ := ih fun c hc ↦ hcalls c (List.mem_append_left _ hc)
    have hc : allowed c.1 c.2 := hcalls c (by simp)
    obtain ⟨r, s', hs⟩ := hnext σ s c.1 c.2 h hc
    exact ⟨σ ++ [(c.1, c.2, r)], s', h.snoc hc hs, by simp [hσ]⟩

end Net

end Rpc
