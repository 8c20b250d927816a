import ReplicatedDB.Rpc.Thread

/-!
# Programs that touch a part of the state

`Within rely allowed p` says that `p` only makes allowed calls, as long as the answers satisfy
`rely`. If allowed actions answer alike in states that are related, and keep them related, then an
evaluation carries over from one assignment of states to a related one (`Evals.congr`), and so does
that of a stack (`EvalsStack.congr`). What no allowed action changes is as it was before
(`Evals.frame`). Without procedure calls a program always evaluates (`Evals.exists_of_within`).

A relation that says "equal as far as one key is concerned" thus gives the independence of
programs about different keys.
-/

namespace Rpc

variable {S : Sig} {V : Service S} {α β : Type}

/-- As long as the answers satisfy `rely`, every call of the program is allowed. -/
def Prog.Within (rely : ∀ c : Call S, c.Ret → Prop) (allowed : Call S → Prop) :
    Prog S α → Prop
  | .ret _ => True
  | .call c k => allowed c ∧ ∀ r : c.Ret, rely c r → (k r).Within rely allowed

section Within

variable {rely rely' : ∀ c : Call S, c.Ret → Prop} {allowed : Call S → Prop}
  {emits : List (Event S) → Call S → Prop} {returns : List (Event S) → α → Prop}

/-- A program that keeps a contract makes the calls that the contract allows. -/
theorem Sat.within (hrely : ∀ c r, rely' c r → rely c r)
    (hallowed : ∀ h c, emits h c → allowed c) :
    ∀ {p : Prog S α} {h : List (Event S)}, Sat rely emits returns p h → p.Within rely' allowed
  | .ret _, _, _ => trivial
  | .call _ _, _, hp =>
    ⟨hallowed _ _ hp.1, fun r hr ↦ (hp.2 r (hrely _ r hr)).within hrely hallowed⟩

theorem Prog.Within.mono {allowed' : Call S → Prop} (hallowed : ∀ c, allowed c → allowed' c) :
    ∀ {p : Prog S α}, p.Within rely allowed → p.Within rely allowed'
  | .ret _, _ => trivial
  | .call _ _, hp => ⟨hallowed _ hp.1, fun r hr ↦ (hp.2 r hr).mono hallowed⟩

end Within

variable [DecidableEq S.Addr]

/-- What the evaluations of programs at the node `me` that make allowed calls need: answers are
as relied on, related states give equal answers and remain related, and procedures are called
at the own node only. -/
structure Local (V : Service S) (me : S.Addr) (rely : ∀ c : Call S, c.Ret → Prop)
    (allowed : Call S → Prop) (rel : S.Addr → V.State → V.State → Prop) : Prop where
  lost : ∀ d a, allowed (.act (some d) a) → rely (.act (some d) a) (V.lost a)
  act : ∀ dest a, allowed (.act dest a) → ∀ st st', rel (dest.getD me) st st' →
    (V.act a st).1 = (V.act a st').1 ∧ rely (.act dest a) (V.act a st).1 ∧
      rel (dest.getD me) (V.act a st).2 (V.act a st').2
  invoke : ∀ dest t, allowed (.invoke dest t) → dest = none ∧
    (V.body me t).Within rely allowed ∧ ∀ r, rely (.invoke dest t) r

section Local

variable {w : Plan S} {me : S.Addr} {rely : ∀ c : Call S, c.Ret → Prop}
  {allowed : Call S → Prop} {rel : S.Addr → V.State → V.State → Prop}
  {N N' M : S.Addr → V.State}

omit [DecidableEq S.Addr] in
/-- Whatever becomes of a request, related states give equal answers and remain related. -/
theorem Local.outcome (hlocal : Local V me rely allowed rel) {dest : Option S.Addr} {a : S.Act}
    (ha : allowed (.act dest a)) {st st' : V.State} (hst : rel (dest.getD me) st st') :
    (w.outcome dest a).reply V a st = (w.outcome dest a).reply V a st' ∧
      rely (.act dest a) ((w.outcome dest a).reply V a st) ∧
      rel (dest.getD me) ((w.outcome dest a).effect V a st)
        ((w.outcome dest a).effect V a st') := by
  obtain ⟨hans, hrely, hrel⟩ := hlocal.act dest a ha st st' hst
  have heffect : rel (dest.getD me) ((w.outcome dest a).effect V a st)
      ((w.outcome dest a).effect V a st') := by
    by_cases hex : (w.outcome dest a).Executed
    · rwa [Outcome.effect, Outcome.effect, if_pos hex, if_pos hex]
    · rwa [Outcome.effect, Outcome.effect, if_neg hex, if_neg hex]
  by_cases ho : w.outcome dest a = .delivered
  · rw [Outcome.reply, Outcome.reply, if_pos ho, if_pos ho]
    exact ⟨hans, hrely, heffect⟩
  · rw [Outcome.reply, Outcome.reply, if_neg ho, if_neg ho]
    cases dest with
    | none => exact absurd rfl ho
    | some d => exact ⟨rfl, hlocal.lost d a ha, heffect⟩

omit [DecidableEq S.Addr] in
/-- The answers that activations get in a network are as relied on. -/
theorem Local.rely_of_answers (hlocal : Local V me rely allowed rel) {s : Net V} {l : Label S}
    {j : ℕ} {p : Activation S} {c : Call S} {r : c.Ret} (hnode : p.node = me) (hc : allowed c)
    (hrel : ∀ d, rel d (s.nodes d) (s.nodes d)) (hans : s.Answers l j p c r) : rely c r := by
  subst hnode
  cases c with
  | invoke dest t => exact (hlocal.invoke dest t hc).2.2 r
  | act dest a =>
    obtain ⟨o, -, ho, rfl⟩ := hans
    by_cases hdel : o = .delivered
    · subst hdel
      exact (hlocal.act dest a hc _ _ (hrel _)).2.1
    · obtain ⟨d, rfl⟩ := Option.isSome_iff_exists.1 (ho.resolve_right hdel)
      rw [Net.answer_eq, Outcome.reply, if_neg hdel]
      exact hlocal.lost d a hc

theorem Local.update (hlocal : Local V me rely allowed rel) {dest : Option S.Addr} {a : S.Act}
    (ha : allowed (.act dest a)) (hrel : ∀ d, rel d (N d) (M d)) (d : S.Addr) :
    rel d
      (Function.update N (dest.getD me) ((w.outcome dest a).effect V a (N (dest.getD me))) d)
      (Function.update M (dest.getD me) ((w.outcome dest a).effect V a (M (dest.getD me))) d) := by
  by_cases hd : d = dest.getD me
  · subst hd
    rw [Function.update_self, Function.update_self]
    exact (hlocal.outcome ha (hrel _)).2.2
  · rw [Function.update_of_ne hd, Function.update_of_ne hd]
    exact hrel d

/-- **Evaluations carry over to related states.** -/
theorem Evals.congr (hlocal : Local V me rely allowed rel) {p : Prog S α} {x : α}
    (h : Evals V w me p N x N') : ∀ {M : S.Addr → V.State}, p.Within rely allowed →
      (∀ d, rel d (N d) (M d)) → ∃ M', Evals V w me p M x M' ∧ ∀ d, rel d (N' d) (M' d) := by
  obtain ⟨me', hme⟩ : ∃ me', me' = me := ⟨_, rfl⟩
  rw [← hme] at h ⊢
  induction h with
  | ret => exact fun _ hrel ↦ ⟨_, .ret, hrel⟩
  | @act α me' dest a k N N' x _ ih =>
    subst hme
    intro M hp hrel
    obtain ⟨hans, hrely, -⟩ := hlocal.outcome (w := w) hp.1 (hrel (dest.getD me'))
    obtain ⟨M', hev, hrel'⟩ := ih rfl (hp.2 _ hrely) (hlocal.update hp.1 hrel)
    exact ⟨M', .act (hans ▸ hev), hrel'⟩
  | @invoke α me' dest t k N N₁ N' r x _ _ ihbody ih =>
    subst hme
    intro M hp hrel
    obtain ⟨rfl, hbody, hr⟩ := hlocal.invoke dest t hp.1
    obtain ⟨M₁, hev₁, hrel₁⟩ := ihbody rfl hbody hrel
    obtain ⟨M', hev', hrel'⟩ := ih rfl (hp.2 r (hr r)) hrel₁
    exact ⟨M', .invoke hev₁ hev', hrel'⟩

/-- **What no allowed action changes** is as it was before. -/
theorem Evals.frame {X : Type} {f : V.State → X} (hlocal : Local V me rely allowed rel)
    (hf : ∀ dest a, allowed (.act dest a) → ∀ st, f (V.act a st).2 = f st) {p : Prog S α} {x : α}
    (h : Evals V w me p N x N') (hp : p.Within rely allowed) (hrel : ∀ d, rel d (N d) (N d)) :
    ∀ d, f (N' d) = f (N d) := by
  obtain ⟨me', hme⟩ : ∃ me', me' = me := ⟨_, rfl⟩
  rw [← hme] at h
  induction h with
  | ret => exact fun _ ↦ rfl
  | @act α me' dest a k N N' x _ ih =>
    subst hme
    obtain ⟨-, hrely, -⟩ := hlocal.outcome (w := w) hp.1 (hrel (dest.getD me'))
    intro d
    refine (ih (hp.2 _ hrely) (hlocal.update hp.1 hrel) rfl d).trans ?_
    by_cases hd : d = dest.getD me'
    · subst hd
      rw [Function.update_self, Outcome.effect]
      split
      · exact hf dest a hp.1 _
      · rfl
    · rw [Function.update_of_ne hd]
  | @invoke α me' dest t k N N₁ N' r x hbody _ ihbody ih =>
    subst hme
    obtain ⟨rfl, hwithin, hr⟩ := hlocal.invoke dest t hp.1
    obtain ⟨M₁, hev₁, hrel₁⟩ := hbody.congr hlocal hwithin hrel
    obtain rfl := (hbody.det hev₁).2
    exact fun d ↦ (ih (hp.2 r (hr r)) hrel₁ rfl d).trans (ihbody hwithin hrel rfl d)

/-- **A program that calls no procedure evaluates.** -/
theorem Evals.exists_of_within {allowed' : Call S → Prop} (hsub : ∀ c, allowed' c → allowed c)
    (hno : ∀ dest t, ¬ allowed' (.invoke dest t)) (hlocal : Local V me rely allowed rel) :
    ∀ {p : Prog S α} {N : S.Addr → V.State}, p.Within rely allowed' →
      (∀ d, rel d (N d) (N d)) → ∃ x N', Evals V w me p N x N'
  | .ret x, N, _, _ => ⟨x, N, .ret⟩
  | .call (.invoke dest t) _, _, hp, _ => absurd hp.1 (hno dest t)
  | .call (.act dest a) k, N, hp, hrel => by
    obtain ⟨-, hrely, -⟩ := hlocal.outcome (w := w) (hsub _ hp.1) (hrel (dest.getD me))
    obtain ⟨x, N', h⟩ := Evals.exists_of_within hsub hno hlocal (hp.2 _ hrely)
      (hlocal.update (hsub _ hp.1) hrel)
    exact ⟨x, N', .act h⟩

/-- **Evaluations of a stack carry over to related states.** -/
theorem EvalsStack.congr (hlocal : Local V me rely allowed rel) {p : Prog S S.Reply}
    {fs : List (S.Addr × (S.Reply → Prog S S.Reply))} {r : S.Reply} :
    ∀ {N M : S.Addr → V.State}, EvalsStack V w me p fs N r N' → p.Within rely allowed →
      (∀ f ∈ fs, f.1 = me ∧ ∀ r, (f.2 r).Within rely allowed) → (∀ d, rel d (N d) (M d)) →
      ∃ M', EvalsStack V w me p fs M r M' ∧ ∀ d, rel d (N' d) (M' d) := by
  induction fs generalizing p with
  | nil => exact fun h hp _ hrel ↦ Evals.congr hlocal h hp hrel
  | cons f fs ih =>
    obtain ⟨me', k⟩ := f
    rintro N M ⟨r₁, N₁, htop, hrest⟩ hp hfs hrel
    obtain ⟨rfl, hk⟩ := hfs (me', k) (by simp)
    obtain ⟨M₁, htop', hrel₁⟩ := htop.congr hlocal hp hrel
    obtain ⟨M', hrest', hrel'⟩ :=
      ih hrest (hk r₁) (fun f hf ↦ hfs f (List.mem_cons_of_mem _ hf)) hrel₁
    exact ⟨M', ⟨r₁, M₁, htop', hrest'⟩, hrel'⟩

end Local

end Rpc
