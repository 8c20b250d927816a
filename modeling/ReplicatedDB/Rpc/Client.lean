import ReplicatedDB.Rpc.Lineage

/-!
# For which client

Every activation runs on behalf of one call of a client, the `root` of its lineage. Actions are
executed for the activations that call them (`Reach.calledBy_of_served`), and those that get through
are noted with the answer that their callers have got (`Reach.served_of_mem_hist`). An activation
makes its calls one after the other (`Reach.emits_of_sibling`).
-/

namespace Rpc.Net

variable {S : Sig} {V : Service S} {s₀ s s' : Net V} {l : Label S}

/-- The call of a client on whose behalf an activation runs. -/
def root (s : Net V) (i : ℕ) : ℕ := (s.lineage i).getLast?.getD i

section Roots

variable (hlt : ∀ i j, s.origin? i = some j → j < i)
include hlt

/-- A call of a client is its own root. -/
theorem root_of_client {i : ℕ} (h : s.origin? i = none) : s.root i = i := by
  rw [root, lineage_eq hlt, h]
  rfl

/-- **The root** is that of the caller. -/
theorem root_of_origin {i j : ℕ} (h : s.origin? i = some j) : s.root i = s.root j := by
  obtain ⟨x, hx⟩ : ∃ x, (s.lineage j).getLast? = some x :=
    ⟨_, List.getLast?_eq_some_getLast (List.ne_nil_of_mem (mem_lineage_self hlt j))⟩
  rw [root, root, lineage_eq hlt, h, Option.elim_some, List.getLast?_cons, hx]
  rfl

/-- An activation runs on behalf of its root, which is a call of a client. -/
theorem root_spec (i : ℕ) : s.root i ∈ s.lineage i ∧ s.origin? (s.root i) = none := by
  induction i using Nat.strongRecOn with
  | ind i ih =>
    rcases horigin : s.origin? i with _ | j
    · rw [root_of_client hlt horigin]
      exact ⟨mem_lineage_self hlt i, horigin⟩
    · rw [root_of_origin hlt horigin]
      obtain ⟨hmem, hnone⟩ := ih j (hlt i j horigin)
      exact ⟨(mem_lineage_iff hlt).2 (.inr ⟨j, horigin, hmem⟩), hnone⟩

end Roots

variable [DecidableEq S.Addr] {C : Net V → Label S → Prop}

/-- A step does not change roots. -/
theorem Step.root (hinit : s₀.acts = []) (h : Reach C s₀ s) (h' : Reach C s₀ s')
    (hs : Step s l s') {i : ℕ} {p : Activation S} (hp : s.acts[i]? = some p) :
    s'.root i = s.root i := by
  rw [Net.root, Net.root, hs.lineage hinit h h' hp]

/-- **What a step adds to the actions executed**: nothing, one that was in flight, or one that an
activation has called. -/
theorem Step.served_by (hs : Step s l s') : (s.executed? l = none ∧ s'.served = s.served) ∨
    (∃ d a, (d, a) ∈ s.late ∧ s.executed? l = some (d, a) ∧
      s'.served = s.served ++ [⟨d, a, (V.act a (s.nodes d)).1, none⟩]) ∨
    ∃ (i : ℕ) (o : Outcome) (p : Activation S) (dest : Option S.Addr) (a : S.Act)
      (k : S.Ret a → Prog S S.Reply) (r : S.Ret a), l = .step i o ∧
      s.executed? l = some (dest.getD p.node, a) ∧ s.acts[i]? = some p ∧
      p.prog = .call (.act dest a) k ∧
      s'.acts[i]? = some (p.resume s.clock (.act dest a) r (k r)) ∧
      s'.served = s.served ++
        [⟨dest.getD p.node, a, (V.act a (s.nodes (dest.getD p.node))).1, some i⟩] := by
  cases hs with
  | submit a t => exact .inl ⟨rfl, rfl⟩
  | @act i p o dest a k hp halive hc ho =>
    have hput : ((s.transmit i (dest.getD p.node) a o).put i
        (p.resume s.clock (.act dest a) (s.answer (dest.getD p.node) a o)
          (k (s.answer (dest.getD p.node) a o)))).tick.acts[i]? =
        some (p.resume s.clock (.act dest a) (s.answer (dest.getD p.node) a o)
          (k (s.answer (dest.getD p.node) a o))) := by
      rw [tick_acts, put_acts, transmit_acts]
      exact set_self hp
    have hex := executed?_eq hp hc o
    cases o with
    | delivered => exact .inr (.inr ⟨i, _, p, dest, a, k, _, rfl, hex, hp, hc, hput, rfl⟩)
    | replyLost => exact .inr (.inr ⟨i, _, p, dest, a, k, _, rfl, hex, hp, hc, hput, rfl⟩)
    | requestLost => exact .inl ⟨hex, rfl⟩
    | late => exact .inl ⟨hex, rfl⟩
  | spawn hp halive hc hchild => exact .inl ⟨executed?_invoke hp hc _, rfl⟩
  | back hp halive hc hchild hq hr => exact .inl ⟨executed?_invoke hp hc _, rfl⟩
  | giveUp hp halive hc ho => exact .inl ⟨executed?_invoke hp hc _, rfl⟩
  | restart a => exact .inl ⟨rfl, rfl⟩
  | @deliver j d a hj => exact .inr (.inl ⟨d, a, List.mem_of_getElem? hj, hj, rfl⟩)

/-- **Whoever an action was executed for** has called it. -/
theorem Reach.calledBy_of_served_for (hserved : s₀.served = []) (h : Reach C s₀ s) {e : Served S}
    (he : e ∈ s.served) {j : ℕ} (hj : e.caller = some j) : s.CalledBy j e.node e.act := by
  refine h.invariant (I := fun s ↦ ∀ e ∈ s.served, e.caller = some j → s.CalledBy j e.node e.act)
    (by simp [hserved]) ?_ e he hj
  intro s l s' _ _ ih _ hs e he hj
  rcases hs.served_by with ⟨-, heq⟩ | ⟨d, a, -, -, heq⟩ |
    ⟨i, o, p, dest, a, k, r, -, -, -, -, hp', heq⟩ <;> rw [heq] at he
  · exact (ih e he hj).mono hs
  · rcases List.mem_append.1 he with he | he
    · exact (ih e he hj).mono hs
    · obtain rfl := List.mem_singleton.1 he
      cases hj
  · rcases List.mem_append.1 he with he | he
    · exact (ih e he hj).mono hs
    · obtain rfl := List.mem_singleton.1 he
      obtain rfl := Option.some.inj hj
      exact ⟨_, dest, r, hp', rfl, by simp⟩

/-- **An action that always gets through** was executed for whoever has called it, with the answer
that it has got. -/
theorem Reach.served_of_mem_hist (hinit : s₀.acts = []) (h : Reach C s₀ s)
    {dest : Option S.Addr} {a : S.Act}
    (hC : ∀ s, Reach C s₀ s → ∀ (i : ℕ) (p : Activation S) (o : Outcome)
      (k : S.Ret a → Prog S S.Reply), C s (.step i o) → s.acts[i]? = some p →
        p.prog = .call (.act dest a) k → dest.isSome → o = .delivered)
    {j : ℕ} {p : Activation S} (hp : s.acts[j]? = some p) {r : S.Ret a}
    (he : ⟨.act dest a, r⟩ ∈ p.hist) : ⟨dest.getD p.node, a, r, some j⟩ ∈ s.served := by
  have hall := h.answered hinit (P := fun s j (e : Event S) ↦ ∀ p r, s.acts[j]? = some p →
    e = ⟨.act dest a, r⟩ → ⟨dest.getD p.node, a, r, some j⟩ ∈ s.served) ?_ ?_
  · exact hall j p hp _ he p r hp rfl
  · intro s l s' _ _ _ hs j p hp e _ hkeep p' r hp' heq
    obtain ⟨p'', hp'', hnode, -⟩ := hs.keeps hp
    obtain rfl := Option.some.inj (hp'.symm.trans hp'')
    have hmem := hkeep p r hp heq
    rw [hnode]
    rcases hs.served_by with ⟨-, heq⟩ | ⟨_, _, -, -, heq⟩ |
      ⟨_, _, _, _, _, _, _, -, -, -, -, -, heq⟩ <;> rw [heq]
    · exact hmem
    · exact List.mem_append_left _ hmem
    · exact List.mem_append_left _ hmem
  · intro s l s' hr _ hl hs j p c k r hp _ hc hans p' r' hp' heq
    obtain ⟨rfl, hr'⟩ := Sigma.mk.inj heq
    obtain rfl := eq_of_heq hr'
    obtain ⟨o, rfl, ho, rfl⟩ := hans
    obtain rfl : o = .delivered := ho.elim (hC s hr j p o k hl hp hc) id
    obtain ⟨p'', hp'', hnode, -⟩ := hs.keeps hp
    obtain rfl := Option.some.inj (hp'.symm.trans hp'')
    rw [hnode]
    rcases hs.served with ⟨hex, -⟩ | ⟨d, b, caller, hex, hserved, hcaller⟩
    · cases hex.symm.trans (executed?_of_executed hp hc (.inl rfl))
    · obtain ⟨rfl, rfl⟩ := Prod.mk.inj (Option.some.inj
        (hex.symm.trans (executed?_of_executed hp hc (.inl rfl))))
      rw [hserved, hcaller j _ rfl]
      exact List.mem_append_right _ (List.mem_singleton_self _)

/-- **Calls are made one after the other**: whoever was called after somebody else was called when
the caller had an answer. -/
theorem Reach.emits_of_sibling (K : Contract V) (hinit : s₀.acts = []) (h : Reach C s₀ s)
    {b₁ b₂ c : ℕ} (hb₁ : s.origin? b₁ = some c) {q : Activation S} (hq : s.acts[b₂]? = some q)
    (hb₂ : s.origin? b₂ = some c) (hlt : b₁ < b₂) : ∃ p h dest, s.acts[c]? = some p ∧
      h <+: p.hist ∧ K.emits p.node p.task h (.invoke dest q.task) ∧
      ∃ dest' t r, ⟨.invoke dest' t, r⟩ ∈ h := by
  refine h.invariant (I := fun s ↦ ∀ (b₂ : ℕ) (q : Activation S), s.origin? b₁ = some c →
    s.acts[b₂]? = some q → q.origin = some c → b₁ < b₂ → ∃ p h dest, s.acts[c]? = some p ∧
      h <+: p.hist ∧ K.emits p.node p.task h (.invoke dest q.task) ∧
      ∃ dest' t r, ⟨.invoke dest' t, r⟩ ∈ h) (fun b₂ q _ hq ↦ ?_) ?_ b₂ q hb₁ hq
    ((origin?_eq hq).symm.trans hb₂) hlt
  · rw [hinit] at hq
    cases hq
  intro s l s' hr hr' ih _ hs b₂ q' hb₁ hq' hb₂ hlt
  -- the earlier one was there before the step
  have hfirst : b₁ < s.acts.length → s.origin? b₁ = some c := fun hlen ↦
    (hs.origin? (List.getElem?_eq_getElem hlen)).symm.trans hb₁
  have hkeep : ∀ p, s.acts[c]? = some p → (∃ h dest, h <+: p.hist ∧
      K.emits p.node p.task h (.invoke dest q'.task) ∧ ∃ dest' t r, ⟨.invoke dest' t, r⟩ ∈ h) →
      ∃ p h dest, s'.acts[c]? = some p ∧ h <+: p.hist ∧
        K.emits p.node p.task h (.invoke dest q'.task) ∧ ∃ dest' t r, ⟨.invoke dest' t, r⟩ ∈ h := by
    rintro p hp ⟨h, dest, hpre, hemit, hearlier⟩
    obtain ⟨p', hp', hnode, htask, -, -, hhist, -⟩ := hs.keeps hp
    exact ⟨p', h, dest, hp', hpre.trans hhist, by rwa [hnode, htask], hearlier⟩
  have hold : ∀ q, s.acts[b₂]? = some q → q.origin = some c → q.task = q'.task →
      ∃ p h dest, s'.acts[c]? = some p ∧ h <+: p.hist ∧
        K.emits p.node p.task h (.invoke dest q'.task) ∧ ∃ dest' t r, ⟨.invoke dest' t, r⟩ ∈ h := by
    intro q hq horigin htask
    obtain ⟨p, h, dest, hp, hpre, hemit, hearlier⟩ :=
      ih b₂ q (hfirst (Nat.lt_trans hlt (lt_length hq))) hq horigin hlt
    exact hkeep p hp ⟨h, dest, hpre, htask ▸ hemit, hearlier⟩
  rcases hs.activation hq' with hq | ⟨rfl, a, t, origin, rfl, hopen⟩ | ⟨q, hq, rfl, -⟩ |
    ⟨q, hq, rfl, -⟩ | ⟨q, _, _, _, hq, -, -, rfl, -⟩
  · exact hold q' hq hb₂ rfl
  · rcases hopen with ⟨-, rfl⟩ | ⟨-, -, rfl⟩ | ⟨i, p, dest, k, -, hp, -, hcall, hchild, -, rfl⟩
    · cases hb₂
    · cases hb₂
    · obtain rfl := Option.some.inj hb₂
      refine hkeep p hp ⟨p.hist, dest, List.prefix_rfl, (K.lawful hinit hr i p hp).emits hcall, ?_⟩
      obtain ⟨p₀, hp₀, hb | hmem⟩ := hr.called_of_origin hinit (hfirst hlt)
      · rw [Option.some.inj (hp₀.symm.trans hp), hchild] at hb
        cases hb
      · exact Option.some.inj (hp₀.symm.trans hp) ▸ hmem
  · exact hold q hq hb₂ rfl
  · exact hold q hq hb₂ rfl
  · exact hold q hq hb₂ rfl

end Rpc.Net
