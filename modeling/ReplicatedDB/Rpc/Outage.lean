import Mathlib.Data.Finset.Insert
import ReplicatedDB.Rpc.Thread

/-!
# Evaluating while nodes are down

Some nodes are up: what is sent to them is executed and answered, and what is sent to the others is
lost, requests and calls of procedures alike. `EvalsAmong` is the evaluation of a program then. A
program that calls no procedures evaluates as in `ReplicatedDB.Rpc.BigStep`, under the plan that
loses what is sent to nodes that are down (`Evals.among`).

Again this is the same as running in a network: a call that was handled while nothing else moved
was evaluated (`evalsAmong_of_handlesAmong`), and a call that evaluates can be handled
(`handlesAmong_of_evalsAmong`).
-/

namespace Rpc

open Relation

variable {S : Sig} {V : Service S}

/-! ### Programs without procedure calls -/

/-- The program calls no procedures. -/
def Prog.Direct {α : Type} : Prog S α → Prop
  | .ret _ => True
  | .call (.act _ _) k => ∀ r, (k r).Direct
  | .call (.invoke _ _) _ => False

namespace Prog.Direct

variable {α β γ : Type}

theorem bind {f : α → Prog S β} : ∀ {p : Prog S α}, p.Direct → (∀ a, (f a).Direct) →
    (p >>= f).Direct
  | .ret a, _, hf => hf a
  | .call (.act _ _) _, hp, hf => fun r ↦ (hp r).bind hf
  | .call (.invoke _ _) _, hp, _ => absurd hp id

theorem foldlM {f : β → γ → Prog S β} (hf : ∀ b x, (f b x).Direct) :
    ∀ (l : List γ) (b : β), (l.foldlM f b).Direct
  | [], _ => trivial
  | x :: l, b => by
    rw [List.foldlM_cons]
    exact (hf b x).bind fun b' ↦ foldlM hf l b'

theorem ite {c : Prop} [Decidable c] {p q : Prog S α} (hp : p.Direct) (hq : q.Direct) :
    (if c then p else q).Direct := by
  split
  · exact hp
  · exact hq

end Prog.Direct

variable [DecidableEq S.Addr]

/-- What is sent to a node that is up is executed and answered, all else is lost. -/
def Plan.among (up : Finset S.Addr) : Plan S :=
  fun d _ ↦ if d ∈ up then .delivered else .requestLost

theorem among_of_mem {up : Finset S.Addr} {d : S.Addr} (hd : d ∈ up) (a : S.Act) :
    Plan.among up d a = .delivered := if_pos hd

theorem among_of_notMem {up : Finset S.Addr} {d : S.Addr} (hd : d ∉ up) (a : S.Act) :
    Plan.among up d a = .requestLost := if_neg hd

/-! ### Evaluation -/

/-- The program at the node `me` evaluates to a result, while only the nodes `up` can be reached
over the network. -/
inductive EvalsAmong (V : Service S) (up : Finset S.Addr) :
    {α : Type} → S.Addr → Prog S α → (S.Addr → V.State) → α → (S.Addr → V.State) → Prop where
  | ret {α : Type} {me : S.Addr} {x : α} {N : S.Addr → V.State} : EvalsAmong V up me (.ret x) N x N
  | act {α : Type} {me : S.Addr} {dest : Option S.Addr} {a : S.Act} {k : S.Ret a → Prog S α}
      {N N' : S.Addr → V.State} {x : α}
      (h : EvalsAmong V up me
        (k (((Plan.among up).outcome dest a).reply V a (N (dest.getD me))))
        (Function.update N (dest.getD me)
          (((Plan.among up).outcome dest a).effect V a (N (dest.getD me))))
        x N') : EvalsAmong V up me (.call (.act dest a) k) N x N'
  | invoke {α : Type} {me : S.Addr} {dest : Option S.Addr} {t : S.Task}
      {k : S.Reply → Prog S α} {N N₁ N' : S.Addr → V.State} {r : S.Reply} {x : α}
      (hup : ∀ d ∈ dest, d ∈ up)
      (hbody : EvalsAmong V up (dest.getD me) (V.body (dest.getD me) t) N r N₁)
      (h : EvalsAmong V up me (k r) N₁ x N') : EvalsAmong V up me (.call (.invoke dest t) k) N x N'
  | unreached {α : Type} {me d : S.Addr} {t : S.Task} {k : S.Reply → Prog S α}
      {N N' : S.Addr → V.State} {x : α} (hd : d ∉ up)
      (h : EvalsAmong V up me (k V.failed) N x N') :
      EvalsAmong V up me (.call (.invoke (some d) t) k) N x N'

namespace EvalsAmong

variable {up : Finset S.Addr} {α β : Type} {me : S.Addr} {N N₁ N' N'' : S.Addr → V.State}

/-- **Evaluation is deterministic.** -/
theorem det {p : Prog S α} {x y : α} (h : EvalsAmong V up me p N x N')
    (h' : EvalsAmong V up me p N y N'') : x = y ∧ N' = N'' := by
  induction h generalizing N'' with
  | ret =>
    cases h'
    exact ⟨rfl, rfl⟩
  | act _ ih =>
    cases h' with
    | act h' => exact ih h'
  | invoke hup _ _ ihbody ih =>
    cases h' with
    | invoke _ hbody' h' =>
      obtain ⟨rfl, rfl⟩ := ihbody hbody'
      exact ih h'
    | unreached hd => exact absurd (hup _ rfl) hd
  | unreached hd _ ih =>
    cases h' with
    | invoke hup _ _ => exact absurd (hup _ rfl) hd
    | unreached _ h' => exact ih h'

/-- A call of an action at the own node. -/
theorem here {a : S.Act} {k : S.Ret a → Prog S α} {x : α}
    (h : EvalsAmong V up me (k (V.act a (N me)).1) (Function.update N me (V.act a (N me)).2) x N') :
    EvalsAmong V up me (.call (.act none a) k) N x N' := .act h

/-- A call of an action that changes nothing at the own node. -/
theorem read {a : S.Act} {k : S.Ret a → Prog S α} {x : α} (hst : (V.act a (N me)).2 = N me)
    (h : EvalsAmong V up me (k (V.act a (N me)).1) N x N') :
    EvalsAmong V up me (.call (.act none a) k) N x N' := by
  refine here ?_
  rwa [hst, Function.update_eq_self]

/-- A procedure that runs at the own node. -/
theorem run {t : S.Task} {k : S.Reply → Prog S α} {r : S.Reply} {x : α}
    (hbody : EvalsAmong V up me (V.body me t) N r N₁) (h : EvalsAmong V up me (k r) N₁ x N') :
    EvalsAmong V up me (.call (.invoke none t) k) N x N' := .invoke nofun hbody h

/-- A procedure that runs at a node that is up. -/
theorem reached {d : S.Addr} (hd : d ∈ up) {t : S.Task} {k : S.Reply → Prog S α} {r : S.Reply}
    {x : α} (hbody : EvalsAmong V up d (V.body d t) N r N₁)
    (h : EvalsAmong V up me (k r) N₁ x N') :
    EvalsAmong V up me (.call (.invoke (some d) t) k) N x N' := by
  refine .invoke (fun d' hd' ↦ ?_) hbody h
  obtain rfl := Option.some.inj hd'
  exact hd

/-- **Sequencing.** -/
theorem bind {p : Prog S α} {f : α → Prog S β} {x : α} {y : β} (h : EvalsAmong V up me p N x N₁)
    (hf : EvalsAmong V up me (f x) N₁ y N') : EvalsAmong V up me (p >>= f) N y N' := by
  induction h with
  | ret => exact hf
  | act _ ih => exact .act (ih hf)
  | invoke hup hbody _ _ ih => exact .invoke hup hbody (ih hf)
  | unreached hd _ ih => exact .unreached hd (ih hf)

end EvalsAmong

/-- **A program that calls no procedures** only depends on what becomes of its requests. -/
theorem Evals.among {up : Finset S.Addr} {α : Type} {me : S.Addr} {p : Prog S α}
    {N N' : S.Addr → V.State} {x : α} (h : Evals V (Plan.among up) me p N x N') (hp : p.Direct) :
    EvalsAmong V up me p N x N' := by
  induction h with
  | ret => exact .ret
  | act _ ih => exact .act (ih (hp _))
  | invoke _ _ _ _ => exact absurd hp id

/-! ### Stacks -/

/-- What is left to do in a stack of programs. -/
def EvalsStackAmong (V : Service S) (up : Finset S.Addr) : S.Addr → Prog S S.Reply →
    List (S.Addr × (S.Reply → Prog S S.Reply)) → (S.Addr → V.State) → S.Reply →
      (S.Addr → V.State) → Prop
  | me, p, [], N, r, N' => EvalsAmong V up me p N r N'
  | me, p, (me', k) :: fs, N, r, N' =>
    ∃ r₁ N₁, EvalsAmong V up me p N r₁ N₁ ∧ EvalsStackAmong V up me' (k r₁) fs N₁ r N'

/-- An evaluation of the top may start with steps that are known. -/
theorem EvalsStackAmong.mono {up : Finset S.Addr} {me me' : S.Addr}
    {fs : List (S.Addr × (S.Reply → Prog S S.Reply))} {p p' : Prog S S.Reply}
    {N N₁ N' : S.Addr → V.State} {r : S.Reply}
    (hp : ∀ x N₂, EvalsAmong V up me' p' N₁ x N₂ → EvalsAmong V up me p N x N₂)
    (h : EvalsStackAmong V up me' p' fs N₁ r N') : EvalsStackAmong V up me p fs N r N' := by
  cases fs with
  | nil => exact hp _ _ h
  | cons f fs =>
    obtain ⟨r₁, N₂, htop, hrest⟩ := h
    exact ⟨r₁, N₂, hp _ _ htop, hrest⟩

theorem EvalsStackAmong.invoke {up : Finset S.Addr} {me : S.Addr}
    {fs : List (S.Addr × (S.Reply → Prog S S.Reply))} {N N' : S.Addr → V.State} {r : S.Reply}
    {dest : Option S.Addr} (hup : ∀ d ∈ dest, d ∈ up) {t : S.Task} {k : S.Reply → Prog S S.Reply}
    (h : EvalsStackAmong V up (dest.getD me) (V.body (dest.getD me) t) ((me, k) :: fs) N r N') :
    EvalsStackAmong V up me (.call (.invoke dest t) k) fs N r N' := by
  obtain ⟨r₁, N₁, hbody, hrest⟩ := h
  exact hrest.mono fun x N₂ hk ↦ .invoke hup hbody hk

/-- What becomes of the next call of a program. -/
def nextAmong (up : Finset S.Addr) : Prog S S.Reply → Outcome
  | .call (.act dest a) _ => (Plan.among up).outcome dest a
  | .call (.invoke (some d) _) _ => if d ∈ up then .delivered else .requestLost
  | .call (.invoke none _) _ | .ret _ => .delivered

/-- A procedure call that gets through is made at the own node or at one that is up. -/
theorem mem_of_nextAmong {up : Finset S.Addr} {dest : Option S.Addr} {t : S.Task}
    {k : S.Reply → Prog S S.Reply}
    (h : Outcome.delivered = nextAmong up (.call (.invoke dest t) k)) : ∀ d ∈ dest, d ∈ up := by
  rintro d rfl
  by_contra hd
  rw [nextAmong, if_neg hd] at h
  cases h

namespace Net

namespace Thread

variable {up : Finset S.Addr} {s s' : Net V} {i : ℕ} {p : Activation S}
  {fs : List (S.Addr × (S.Reply → Prog S S.Reply))} {js : List ℕ}

omit [DecidableEq S.Addr] in
/-- Only the top of a thread calls an action, starts a procedure or gives up. -/
theorem eq_top (h : s.Thread i p fs js) {j : ℕ} (hj : j ∈ i :: js) {q : Activation S} {c : Call S}
    {k : c.Ret → Prog S S.Reply} (hq : s.acts[j]? = some q) (hc : q.prog = .call c k)
    (hor : (∀ dest t, c ≠ .invoke dest t) ∨ q.child = none) : j = i ∧ q = p := by
  rcases List.mem_cons.1 hj with rfl | hj
  · exact ⟨rfl, Option.some.inj (hq.symm.trans h.top)⟩
  · obtain ⟨q', dest, t, k', hq', hc', j', -, hchild⟩ := h.waits.waiting hj
    obtain rfl := Option.some.inj (hq.symm.trans hq')
    rcases hor with hne | hnone
    · exact absurd (Prog.call.inj (hc.symm.trans hc')).1 (hne dest t)
    · cases hnone.symm.trans hchild

omit [DecidableEq S.Addr] in
/-- Whoever goes on because its callee has returned is the first that waits in the thread. -/
theorem eq_waiting (h : s.Thread i p fs js) {j i' : ℕ} (hj : j ∈ i :: js) {q q' : Activation S}
    {r : S.Reply} (hq : s.acts[j]? = some q) (hchild : q.child = some i')
    (hq' : s.acts[i']? = some q') (hr : q'.Returned r) : i' = i ∧ q' = p ∧ js.head? = some j := by
  have hne : j ≠ i := by
    rintro rfl
    obtain rfl := Option.some.inj (h.top.symm.trans hq)
    cases h.child.symm.trans hchild
  have hjs := (List.mem_cons.1 hj).resolve_left hne
  have hi' : i' = i := by
    obtain ⟨q₁, -, -, -, hq₁, -, j', hj', hchild₁⟩ := h.waits.waiting hjs
    obtain rfl := Option.some.inj (hq.symm.trans hq₁)
    obtain rfl := Option.some.inj (hchild.symm.trans hchild₁)
    rcases List.mem_cons.1 hj' with rfl | hj'
    · rfl
    · -- those that wait have not returned
      obtain ⟨q₂, dest₂, t₂, k₂, hq₂, hc₂, -⟩ := h.waits.waiting hj'
      obtain rfl := Option.some.inj (hq'.symm.trans hq₂)
      cases hr.symm.trans hc₂
  subst hi'
  refine ⟨rfl, Option.some.inj (hq'.symm.trans h.top), ?_⟩
  cases h.waits with
  | nil => cases hjs
  | @cons _ j₁ q₁ dest₁ t₁ k₁ fs js hq₁ _ _ _ hlt₁ hrest =>
    rcases List.mem_cons.1 hjs with rfl | hjs
    · rfl
    · obtain ⟨q₂, -, -, -, hq₂, -, j', hj', hchild₂⟩ := hrest.waiting hjs
      obtain rfl := Option.some.inj (hq.symm.trans hq₂)
      obtain rfl := Option.some.inj (hchild.symm.trans hchild₂)
      rcases List.mem_cons.1 hj' with rfl | hj'
      · exact absurd hlt₁ (Nat.lt_irrefl _)
      · exact absurd (Nat.lt_trans (hrest.lt _ hj') hlt₁) (Nat.lt_irrefl _)

omit [DecidableEq S.Addr] in
/-- The top of a thread goes on with an answer. -/
theorem resume (h : s.Thread i p fs js) {c : Call S} {r : c.Ret} {k : Prog S S.Reply}
    (hacts : s'.acts = s.acts.set i (p.resume s.clock c r k)) :
    s'.Thread i (p.resume s.clock c r k) fs js where
  top := by
    rw [hacts]
    exact set_self h.top
  alive := h.alive
  child := rfl
  waits := h.waits.congr fun j hj ↦ by
    rw [hacts, List.getElem?_set_ne (Nat.ne_of_gt (h.waits.lt j hj))]

omit [DecidableEq S.Addr] in
/-- The top of a thread calls a procedure, and waits for it. -/
theorem call (h : s.Thread i p fs js) {dest : Option S.Addr} {t : S.Task}
    {k : S.Reply → Prog S S.Reply} (hc : p.prog = .call (.invoke dest t) k)
    (hacts : s'.acts = (s.acts ++ [s.opened (dest.getD p.node) t (some i)]).set i
      (p.await s.acts.length)) :
    s'.Thread s.acts.length (s.opened (dest.getD p.node) t (some i)) ((p.node, k) :: fs)
      (i :: js) where
  top := by
    rw [hacts, List.getElem?_set_ne (Nat.ne_of_lt (lt_length h.top)), List.getElem?_concat_length]
  alive := rfl
  child := rfl
  waits := by
    have hlen := lt_length h.top
    refine .cons (p := p.await s.acts.length) ?_ h.alive hc rfl hlen
      (h.waits.congr fun j hj ↦ ?_)
    · rw [hacts, List.getElem?_set_self (by simp; omega)]
    · have hlt := h.waits.lt j hj
      rw [hacts, List.getElem?_set_ne (Nat.ne_of_gt hlt),
        List.getElem?_append_left (Nat.lt_trans hlt hlen)]

/-- **One step of a thread** while only the nodes `up` can be reached is one step of the
evaluation of its stack. -/
theorem stepAmong (h : s.Thread i p fs js) {j : ℕ} (hj : j ∈ i :: js) {o : Outcome}
    (ho : ∀ q ∈ s.acts[j]?, o = nextAmong up q.prog) (hs : Step s (.step j o) s') :
    ∃ i' p' fs' js', s'.Thread i' p' fs' js' ∧
      (∀ r N', EvalsStackAmong V up p'.node p'.prog fs' s'.nodes r N' →
        EvalsStackAmong V up p.node p.prog fs s.nodes r N') ∧
      (i' :: js').getLast? = (i :: js).getLast? ∧
      ∀ j', j' ∈ i :: js ∨ j' = s.acts.length →
        j' ∈ i' :: js' ∨ ∀ q ∈ s'.acts[j']?, ∃ r, q.Returned r := by
  have htop := h.top
  have hlt := h.waits.lt
  cases hs with
  | @act _ q _ dest a k hq halive hc _ =>
    obtain ⟨rfl, rfl⟩ := h.eq_top hj hq hc (.inl nofun)
    obtain rfl : o = (Plan.among up).outcome dest a := by rw [ho _ hq, hc]; rfl
    obtain ⟨x, hx⟩ : ∃ x, x = s.answer (dest.getD q.node) a ((Plan.among up).outcome dest a) :=
      ⟨_, rfl⟩
    rw [← hx]
    refine ⟨j, q.resume s.clock (.act dest a) x (k x), fs, js, h.resume ?_, ?_, rfl,
      fun j' hj' ↦ hj'.imp_right ?_⟩
    · rw [tick_acts, put_acts, transmit_acts]
    · intro r N' hev
      rw [hc]
      refine hev.mono fun y N₂ hy ↦ .act ?_
      rwa [tick_nodes, put_nodes, transmit_nodes, Activation.resume_prog, hx, answer_eq] at hy
    · rintro rfl
      simp
  | @spawn _ q dest t k hq halive hc hchild =>
    obtain ⟨rfl, rfl⟩ := h.eq_top hj hq hc (.inr hchild)
    refine ⟨s.acts.length, s.opened (dest.getD q.node) t (some j), (q.node, k) :: fs, j :: js,
      h.call hc rfl, ?_, by simp, fun j' hj' ↦ .inl ?_⟩
    · intro r N' hev
      rw [hc]
      exact hev.invoke (mem_of_nextAmong (by rw [ho _ hq, hc]))
    · rcases hj' with hj' | rfl
      · exact List.mem_cons_of_mem _ hj'
      · exact List.mem_cons_self
  | @back _ i' q q' dest t r k hq halive hc hchild hq' hr =>
    -- the callee that has returned is on top, and the one that goes on waits for it
    obtain ⟨rfl, rfl, hhead⟩ := h.eq_waiting hj hq hchild hq' hr
    cases h.waits with
    | nil => cases hhead
    | @cons _ j₁ q₁ dest₁ t₁ k₁ fs js hq₁ halive₁ hc₁ hchild₁ hlt₁ hrest =>
      obtain rfl := Option.some.inj hhead
      obtain rfl := Option.some.inj (hq.symm.trans hq₁)
      obtain ⟨hcall, hk⟩ := Prog.call.inj (hc.symm.trans hc₁)
      obtain ⟨rfl, rfl⟩ := Call.invoke.inj hcall
      obtain rfl := eq_of_heq hk
      refine ⟨j₁, q.resume s.clock (.invoke dest t) r (k r), fs, js,
        ⟨set_self hq, halive, rfl, hrest.congr fun j' hj' ↦ ?_⟩, ?_, by simp, fun j' hj' ↦ ?_⟩
      · rw [tick_acts, put_acts, List.getElem?_set_ne (Nat.ne_of_gt (hrest.lt j' hj'))]
      · intro r' N' hev
        rw [show q'.prog = .ret r from hr]
        exact ⟨r, _, .ret, hev⟩
      · rcases hj' with hj' | rfl
        · rcases List.mem_cons.1 hj' with rfl | hj'
          · refine .inr fun q'' hq'' ↦ ⟨r, ?_⟩
            rw [tick_acts, put_acts, List.getElem?_set_ne (Nat.ne_of_lt hlt₁), htop] at hq''
            obtain rfl := Option.some.inj hq''
            exact hr
          · exact .inl hj'
        · exact .inr (by simp)
  | @giveUp _ q d t _ k hq halive hc hor =>
    have hnext := ho _ hq
    rw [hc, nextAmong] at hnext
    split at hnext
    · subst hnext
      rcases hor with ⟨-, hor⟩ | ⟨-, hor⟩ <;> cases hor
    · rename_i hd
      subst hnext
      obtain ⟨hchild, -⟩ := hor.resolve_right fun hor ↦ nomatch hor.2
      obtain ⟨rfl, rfl⟩ := h.eq_top hj hq hc (.inr hchild)
      refine ⟨j, q.resume s.clock (.invoke (some d) t) V.failed (k V.failed), fs, js, h.resume rfl,
        ?_, rfl, fun j' hj' ↦ hj'.imp_right ?_⟩
      · intro r N' hev
        rw [hc]
        exact hev.mono fun y N₂ hy ↦ .unreached hd hy
      · rintro rfl
        simp

end Thread

/-! ### Calls of clients -/

/-- One of the activations from the index `n` on makes its next call, while only the nodes `up` can
be reached. -/
def FollowsAmong (up : Finset S.Addr) (n : ℕ) (s : Net V) (l : Label S) : Prop :=
  ∃ (i : ℕ) (p : Activation S), n ≤ i ∧ s.acts[i]? = some p ∧ l = .step i (nextAmong up p.prog)

/-- A client's call of `t` at the node `a` is handled and returns `r`, while nothing else moves and
only the nodes `up` can be reached. -/
def HandlesAmong (up : Finset S.Addr) (s : Net V) (a : S.Addr) (t : S.Task) (r : S.Reply)
    (s' : Net V) : Prop :=
  Reach (FollowsAmong up s.acts.length) (s.open' a t none).tick s' ∧
    ∃ q, s'.acts[s.acts.length]? = some q ∧ q.Returned r

variable {up : Finset S.Addr} {s s' : Net V}

/-- The call `n` of `t` at the node `a` is a thread in the state `s'`, and whatever else it has
started has returned. -/
def Underway (up : Finset S.Addr) (n : ℕ) (a : S.Addr) (t : S.Task) (N : S.Addr → V.State)
    (s' : Net V) : Prop :=
  ∃ i p fs js, s'.Thread i p fs js ∧
    (∀ r N', EvalsStackAmong V up p.node p.prog fs s'.nodes r N' →
      EvalsAmong V up a (V.body a t) N r N') ∧
    (i :: js).getLast? = some n ∧
    ∀ j, n ≤ j → j ∈ i :: js ∨ ∀ q ∈ s'.acts[j]?, ∃ r, q.Returned r

/-- What has returned is all of the thread. -/
theorem Underway.evals {n : ℕ} {a : S.Addr} {t : S.Task} {N : S.Addr → V.State}
    (h : Underway up n a t N s') {q : Activation S} {r : S.Reply} (hq : s'.acts[n]? = some q)
    (hret : q.Returned r) : EvalsAmong V up a (V.body a t) N r s'.nodes := by
  obtain ⟨i, p, fs, js, hthread, hev, hlast, -⟩ := h
  have hni : n = i := by
    refine (List.mem_cons.1 (List.mem_of_getLast? hlast)).resolve_right fun hjs ↦ ?_
    obtain ⟨q', dest, t', k, hq', hc, -⟩ := hthread.waits.waiting hjs
    obtain rfl := Option.some.inj (hq.symm.trans hq')
    cases hret.symm.trans hc
  subst hni
  have hjs : js = [] := by
    rcases List.eq_nil_or_concat js with rfl | ⟨js, j, rfl⟩
    · rfl
    · have hlt := hthread.waits.lt j (by simp)
      rw [List.concat_eq_append, ← List.cons_append, List.getLast?_append] at hlast
      simp at hlast
      omega
  subst hjs
  cases hthread.waits
  obtain rfl := Option.some.inj (hq.symm.trans hthread.top)
  refine hev r _ ?_
  rw [show q.prog = .ret r from hret]
  exact .ret

/-- **A call that is handled evaluates.** -/
theorem evalsAmong_of_handlesAmong {a : S.Addr} {t : S.Task} {r : S.Reply}
    (h : s.HandlesAmong up a t r s') : EvalsAmong V up a (V.body a t) s.nodes r s'.nodes := by
  obtain ⟨hr, q, hq, hret⟩ := h
  obtain ⟨n, hn⟩ : ∃ n, n = s.acts.length := ⟨_, rfl⟩
  rw [← hn] at hr hq
  refine Underway.evals (hr.invariant (I := Underway up n a t s.nodes) ?_ ?_) hq hret
  · refine ⟨n, s.opened a t none, [], [], ⟨by simp [hn], rfl, rfl, .nil⟩, fun r N' hev ↦ hev,
      rfl, fun j hj ↦ ?_⟩
    by_cases hjn : j = n
    · exact .inl (by simp [hjn])
    · refine .inr fun q hq ↦ absurd (lt_length hq) ?_
      simp [← hn]
      omega
  · rintro s₁ l s₂ - - ⟨i, p, fs, js, hthread, hev, hlast, hrest⟩ ⟨j, q, hj, hq, rfl⟩ hs
    have hjs : j ∈ i :: js := by
      refine (hrest j hj).resolve_right fun hret ↦ ?_
      obtain ⟨q', c, k, hq', -, hc, -⟩ := hs.moved
      obtain ⟨r', hr'⟩ := hret q' hq'
      cases hr'.symm.trans hc
    have hnext : ∀ q' ∈ s₁.acts[j]?, nextAmong up q.prog = nextAmong up q'.prog := fun q' hq' ↦ by
      rw [Option.some.inj (hq.symm.trans hq')]
    obtain ⟨i', p', fs', js', hthread', hev', hlast', hrest'⟩ := hthread.stepAmong hjs hnext hs
    refine ⟨i', p', fs', js', hthread', fun r N' h ↦ hev r N' (hev' r N' h), hlast'.trans hlast,
      fun j' hj' ↦ ?_⟩
    by_cases hold : j' ∈ i :: js ∨ j' = s₁.acts.length
    · exact hrest' j' hold
    obtain ⟨hnot, hne⟩ := not_or.1 hold
    refine .inr fun q' hq' ↦ ?_
    have hmoved : j' ≠ j := fun heq ↦ hnot (heq ▸ hjs)
    exact (hrest j' hj').resolve_left hnot q' (hs.other hq' hmoved hne)

/-- The steps of an activation whose next call is answered at once: an action, or a procedure of a
node that is down. -/
theorem followsAmong_answer {i n : ℕ} (hn : n ≤ i) {q : Activation S} {c : Call S}
    {k : c.Ret → Prog S S.Reply} (hq : s.acts[i]? = some q) (halive : q.alive = true)
    {r : c.Ret} {N : S.Addr → V.State} (s₁ : Net V)
    (hadv : s.advance i q (nextAmong up q.prog) q.prog = some s₁) (hnodes : s₁.nodes = N)
    (hacts : s₁.acts = s.acts.set i (q.resume s.clock c r (k r))) :
    ∃ s', Reach (FollowsAmong up n) s s' ∧ s'.nodes = N ∧
      s'.acts = s.acts.set i (q.resume s.clock c r (k r)) := by
  have hstep : s.step (.step i (nextAmong up q.prog)) = some s₁.tick := by
    simp only [Net.step, hq, Option.bind_some, halive, if_true, hadv, Option.map_some]
  exact ⟨_, .single ⟨.step i (nextAmong up q.prog), ⟨i, q, hn, hq, rfl⟩, hstep⟩, hnodes, hacts⟩

variable (up) in
/-- A request takes effect if its node is up. -/
theorem followsAmong_act {i n : ℕ} (hn : n ≤ i) {q : Activation S} {dest : Option S.Addr}
    {a : S.Act} {k : S.Ret a → Prog S S.Reply} (hq : s.acts[i]? = some q)
    (halive : q.alive = true) (hc : q.prog = .call (.act dest a) k) :
    ∃ s', Reach (FollowsAmong up n) s s' ∧
      s'.nodes = Function.update s.nodes (dest.getD q.node)
        (((Plan.among up).outcome dest a).effect V a (s.nodes (dest.getD q.node))) ∧
      s'.acts = s.acts.set i (q.resume s.clock (.act dest a)
        (((Plan.among up).outcome dest a).reply V a (s.nodes (dest.getD q.node)))
        (k (((Plan.among up).outcome dest a).reply V a (s.nodes (dest.getD q.node))))) := by
  have hdest : dest.isSome ∨ (Plan.among up).outcome dest a = .delivered := by
    cases dest with
    | none => exact .inr rfl
    | some d => exact .inl rfl
  refine followsAmong_answer hn hq halive
    ((s.transmit i (dest.getD q.node) a ((Plan.among up).outcome dest a)).put i
      (q.resume s.clock (.act dest a)
        (s.answer (dest.getD q.node) a ((Plan.among up).outcome dest a))
        (k (s.answer (dest.getD q.node) a ((Plan.among up).outcome dest a))))) ?_ ?_ ?_
  · rw [hc]
    exact if_pos hdest
  · rw [put_nodes, transmit_nodes]
  · rw [put_acts, transmit_acts, answer_eq]

/-- A call of a procedure at a node that is down fails. -/
theorem followsAmong_giveUp {i n : ℕ} (hn : n ≤ i) {q : Activation S} {d : S.Addr} {t : S.Task}
    {k : S.Reply → Prog S S.Reply} (hq : s.acts[i]? = some q) (halive : q.alive = true)
    (hchild : q.child = none) (hc : q.prog = .call (.invoke (some d) t) k) (hd : d ∉ up) :
    ∃ s', Reach (FollowsAmong up n) s s' ∧ s'.nodes = s.nodes ∧
      s'.acts = s.acts.set i (q.resume s.clock (.invoke (some d) t) V.failed (k V.failed)) := by
  refine followsAmong_answer hn hq halive
    (s.put i (q.resume s.clock (.invoke (some d) t) V.failed (k V.failed))) ?_ rfl rfl
  rw [hc, nextAmong, if_neg hd]
  simp only [advance, hchild, Option.isSome_some, if_true]

/-- A call of a procedure that gets through starts a thread of its own. -/
theorem followsAmong_spawn {i n : ℕ} (hn : n ≤ i) {q : Activation S} {dest : Option S.Addr}
    {t : S.Task} {k : S.Reply → Prog S S.Reply} (hq : s.acts[i]? = some q)
    (halive : q.alive = true) (hchild : q.child = none)
    (hc : q.prog = .call (.invoke dest t) k) (hup : ∀ d ∈ dest, d ∈ up) :
    ∃ s', Reach (FollowsAmong up n) s s' ∧ s'.nodes = s.nodes ∧
      s'.acts = (s.acts ++ [s.opened (dest.getD q.node) t (some i)]).set i
        (q.await s.acts.length) := by
  have hnext : nextAmong up q.prog = .delivered := by
    rw [hc]
    cases dest with
    | none => rfl
    | some d => exact if_pos (hup d rfl)
  have hstep : s.step (.step i .delivered) =
      some ((s.open' (dest.getD q.node) t (some i)).put i (q.await s.acts.length)).tick := by
    simp only [Net.step, hq, Option.bind_some, halive, if_true, hc, advance, hchild,
      Option.map_some]
  exact ⟨_, .single ⟨.step i .delivered, ⟨i, q, hn, hq, by rw [hnext]⟩, hstep⟩, rfl, rfl⟩

/-- A caller goes on when its callee has returned. -/
theorem followsAmong_back {i j n : ℕ} (hn : n ≤ i) {q q' : Activation S} {dest : Option S.Addr}
    {t : S.Task} {r : S.Reply} {k : S.Reply → Prog S S.Reply} (hq : s.acts[i]? = some q)
    (halive : q.alive = true) (hchild : q.child = some j)
    (hc : q.prog = .call (.invoke dest t) k) (hup : ∀ d ∈ dest, d ∈ up)
    (hq' : s.acts[j]? = some q') (hr : q'.Returned r) :
    ∃ s', Reach (FollowsAmong up n) s s' ∧ s'.nodes = s.nodes ∧
      s'.acts = s.acts.set i (q.resume s.clock (.invoke dest t) r (k r)) := by
  refine followsAmong_answer hn hq halive
    (s.put i (q.resume s.clock (.invoke dest t) r (k r))) ?_ rfl rfl
  have hnext : nextAmong up q.prog = .delivered := by
    rw [hc]
    cases dest with
    | none => rfl
    | some d => exact if_pos (hup d rfl)
  rw [hnext, hc]
  simp only [advance, hchild, hq', Option.bind_some, Prog.result?_eq_some_iff.2 hr, Option.map_some]

/-- The activation `i` of the node `me` goes on until `p` is left to run. What was started before
has not moved otherwise. -/
def RunsTo (up : Finset S.Addr) (n i : ℕ) (me : S.Addr) (p : Prog S S.Reply)
    (N : S.Addr → V.State) (s : Net V) : Prop :=
  ∃ s', Reach (FollowsAmong up n) s s' ∧ s'.nodes = N ∧
    (∃ q, s'.acts[i]? = some q ∧ q.alive = true ∧ q.child = none ∧ q.node = me ∧ q.prog = p) ∧
    s.acts.length ≤ s'.acts.length ∧ ∀ j < s.acts.length, j ≠ i → s'.acts[j]? = s.acts[j]?

/-- A call that is answered at once comes before the rest. -/
theorem RunsTo.of_answer {n i : ℕ} {me : S.Addr} {p : Prog S S.Reply} {N : S.Addr → V.State}
    (hr : Reach (FollowsAmong up n) s s') {x : Activation S} (hacts : s'.acts = s.acts.set i x)
    (h : s'.RunsTo up n i me p N) : s.RunsTo up n i me p N := by
  obtain ⟨s₂, hr₂, hnodes, hq, hlen, hothers⟩ := h
  have hlen' : s'.acts.length = s.acts.length := by rw [hacts, List.length_set]
  refine ⟨s₂, hr.trans hr₂, hnodes, hq, hlen' ▸ hlen, fun j hj hji ↦ ?_⟩
  rw [hothers j (hlen' ▸ hj) hji, hacts, List.getElem?_set_ne (Ne.symm hji)]

/-- **A program that evaluates can be run**, whatever comes after it. -/
theorem run_of_evalsAmong {α : Type} {me : S.Addr} {p : Prog S α} {N N' : S.Addr → V.State} {x : α}
    (h : EvalsAmong V up me p N x N') : ∀ {s : Net V} {i n : ℕ} {q : Activation S}
      {f : α → Prog S S.Reply}, n ≤ i → s.acts[i]? = some q → q.alive = true → q.child = none →
      q.node = me → q.prog = p >>= f → s.nodes = N → s.RunsTo up n i me (f x) N' := by
  have hset : ∀ {s s₁ : Net V} {i : ℕ} {q y : Activation S}, s.acts[i]? = some q →
      s₁.acts = s.acts.set i y → s₁.acts[i]? = some y :=
    fun hq hacts ↦ (congrArg (fun l ↦ l[_]?) hacts).trans (set_self hq)
  induction h with
  | ret =>
    intro s i n q f hn hq halive hchild hnode hprog hN
    exact ⟨s, .refl, hN, ⟨q, hq, halive, hchild, hnode, hprog⟩, Nat.le_refl _, fun _ _ _ ↦ rfl⟩
  | @act α me dest a k N N' x _ ih =>
    rintro s i n q f hn hq halive hchild rfl hprog rfl
    obtain ⟨s₁, hr₁, hnodes₁, hacts₁⟩ := followsAmong_act up hn hq halive hprog
    exact .of_answer hr₁ hacts₁ (ih hn (hset hq hacts₁) halive rfl rfl rfl hnodes₁)
  | @unreached α me d t k N N' x hd _ ih =>
    rintro s i n q f hn hq halive hchild rfl hprog rfl
    obtain ⟨s₁, hr₁, hnodes₁, hacts₁⟩ := followsAmong_giveUp hn hq halive hchild hprog hd
    exact .of_answer hr₁ hacts₁ (ih hn (hset hq hacts₁) halive rfl rfl rfl hnodes₁)
  | @invoke α me dest t k N N₁ N' r x hup _ _ ihbody ih =>
    rintro s i n q f hn hq halive hchild rfl hprog rfl
    have hlt := lt_length hq
    obtain ⟨s₁, hr₁, hnodes₁, hacts₁⟩ := followsAmong_spawn hn hq halive hchild hprog hup
    have hlen₁ : s₁.acts.length = s.acts.length + 1 := by simp [hacts₁]
    -- the callee runs,
    obtain ⟨s₂, hr₂, hnodes₂, ⟨q₂, hq₂, -, -, -, hret₂⟩, hlen₂, hothers₂⟩ :=
      ihbody (i := s.acts.length) (q := s.opened (dest.getD q.node) t (some i))
        (Nat.le_trans hn (Nat.le_of_lt hlt))
        (by rw [hacts₁, List.getElem?_set_ne (Nat.ne_of_lt hlt), List.getElem?_concat_length])
        rfl rfl rfl (Prog.bind_ret _).symm hnodes₁
    have hi₂ : s₂.acts[i]? = some (q.await s.acts.length) := by
      rw [hothers₂ i (by omega) (Nat.ne_of_lt hlt), hacts₁, List.getElem?_set_self (by simp; omega)]
    -- returns, and the caller goes on
    obtain ⟨s₃, hr₃, hnodes₃, hacts₃⟩ := followsAmong_back hn hi₂ halive rfl hprog hup hq₂ hret₂
    obtain ⟨s', hr', hnodes', hq', hlen', hothers'⟩ := RunsTo.of_answer hr₃ hacts₃
      (ih hn (hset hi₂ hacts₃) halive rfl rfl rfl (hnodes₃.trans hnodes₂))
    refine ⟨s', (hr₁.trans hr₂).trans hr', hnodes', hq', by omega, fun j hj hji ↦ ?_⟩
    rw [hothers' j (by omega) hji, hothers₂ j (by omega) (Nat.ne_of_lt hj), hacts₁,
      List.getElem?_set_ne (Ne.symm hji), List.getElem?_append_left hj]

/-- **A call that evaluates can be handled.** -/
theorem handlesAmong_of_evalsAmong {a : S.Addr} {t : S.Task} {r : S.Reply} {N' : S.Addr → V.State}
    (h : EvalsAmong V up a (V.body a t) s.nodes r N') :
    ∃ s', s.HandlesAmong up a t r s' ∧ s'.nodes = N' := by
  obtain ⟨s', hr, hnodes, ⟨q, hq, -, -, -, hret⟩, -⟩ := run_of_evalsAmong h
    (s := (s.open' a t none).tick) (i := s.acts.length) (n := s.acts.length) (f := .ret)
    (q := s.opened a t none) (Nat.le_refl _) (by simp) rfl rfl rfl (Prog.bind_ret _).symm rfl
  exact ⟨s', ⟨hr, q, hq, hret⟩, hnodes⟩

end Net

end Rpc
