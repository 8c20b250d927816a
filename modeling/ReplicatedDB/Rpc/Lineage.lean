import ReplicatedDB.Rpc.Sequential

/-!
# On whose behalf an activation runs

Every activation was called by another one, or by a client. Its **lineage** are the activations on
whose behalf it runs, from itself up to a call of a client.

`Over P b` says that all that runs on behalf of `b` has ended without doing `P`. Nothing can be
added to it then (`Over.step`). If, of any two calls that an activation has made, the earlier one
was over before the later one did `P`, then `P` is done at most once on behalf of every activation
(`unique_of_siblings`).
-/

namespace Rpc

variable {S : Sig} {V : Service S}

namespace Net

variable {s₀ s s' : Net V} {l : Label S}

/-- Whoever has called the activation. -/
def origin? (s : Net V) (i : ℕ) : Option ℕ := s.acts[i]?.bind Activation.origin

/-- The lineage of an activation, at most `n` calls up. -/
def lineageUpTo (s : Net V) : ℕ → ℕ → List ℕ
  | 0, i => [i]
  | n + 1, i => i :: (s.origin? i).elim [] (s.lineageUpTo n)

/-- The activations on whose behalf `i` runs, itself first. Callers have smaller indices, so they
are at most `i` calls up. -/
def lineage (s : Net V) (i : ℕ) : List ℕ := s.lineageUpTo i i

/-- What runs on behalf of `b` has ended, and has not done `P`. -/
def Over (s : Net V) (P : S.Task → List (Event S) → Prop) (b : ℕ) : Prop :=
  ∀ (j : ℕ) (p : Activation S), s.acts[j]? = some p → b ∈ s.lineage j →
    p.Done ∧ ¬ P p.task p.hist

theorem origin?_eq {i : ℕ} {p : Activation S} (hp : s.acts[i]? = some p) :
    s.origin? i = p.origin := by
  rw [origin?, hp]
  rfl

section Callers

variable (hlt : ∀ i j, s.origin? i = some j → j < i)
include hlt

theorem lineageUpTo_eq : ∀ {i n : ℕ}, i ≤ n → s.lineageUpTo n i = s.lineage i := by
  intro i
  induction i using Nat.strongRecOn with
  | ind i ih =>
    have hunfold : ∀ n, i ≤ n → s.lineageUpTo n i = i :: (s.origin? i).elim [] s.lineage := by
      intro n hn
      rcases horigin : s.origin? i with _ | j
      · cases n with
        | zero => rfl
        | succ n => rw [lineageUpTo, horigin]; rfl
      · have hj := hlt i j horigin
        cases n with
        | zero => omega
        | succ n =>
          rw [lineageUpTo, horigin]
          exact congrArg (i :: ·) (ih j hj (by omega))
    intro n hn
    rw [hunfold n hn, lineage, hunfold i (Nat.le_refl i)]

/-- **The lineage** is that of the caller, and the activation. -/
theorem lineage_eq (i : ℕ) : s.lineage i = i :: (s.origin? i).elim [] s.lineage := by
  rw [← lineageUpTo_eq hlt (Nat.le_succ i), lineageUpTo]
  rcases horigin : s.origin? i with _ | j
  · rfl
  · exact congrArg (i :: ·) (lineageUpTo_eq hlt (Nat.le_of_lt (hlt i j horigin)))

theorem mem_lineage_self (i : ℕ) : i ∈ s.lineage i := by
  rw [lineage_eq hlt]
  exact List.mem_cons_self

theorem mem_lineage_iff {c i : ℕ} :
    c ∈ s.lineage i ↔ c = i ∨ ∃ j, s.origin? i = some j ∧ c ∈ s.lineage j := by
  rw [lineage_eq hlt, List.mem_cons]
  rcases s.origin? i with _ | j <;> simp

theorem le_of_mem_lineage {c i : ℕ} (hc : c ∈ s.lineage i) : c ≤ i := by
  induction i using Nat.strongRecOn with
  | ind i ih =>
    rcases (mem_lineage_iff hlt).1 hc with rfl | ⟨j, horigin, hmem⟩
    · exact Nat.le_refl _
    · have hj := hlt i j horigin
      exact Nat.le_trans (ih j hj hmem) (Nat.le_of_lt hj)

/-- Whoever runs on behalf of an activation runs on behalf of one that it has called. -/
theorem exists_child {c i : ℕ} (hc : c ∈ s.lineage i) (hne : c ≠ i) :
    ∃ b, s.origin? b = some c ∧ b ∈ s.lineage i := by
  induction i using Nat.strongRecOn with
  | ind i ih =>
    obtain ⟨j, horigin, hmem⟩ := ((mem_lineage_iff hlt).1 hc).resolve_left hne
    by_cases hcj : c = j
    · subst hcj
      exact ⟨i, horigin, mem_lineage_self hlt i⟩
    · obtain ⟨b, hb, hbj⟩ := ih j (hlt i j horigin) hmem hcj
      exact ⟨b, hb, (mem_lineage_iff hlt).2 (.inr ⟨j, horigin, hbj⟩)⟩

theorem mem_lineage_trans {a b i : ℕ} (hab : a ∈ s.lineage b) (hbi : b ∈ s.lineage i) :
    a ∈ s.lineage i := by
  induction i using Nat.strongRecOn with
  | ind i ih =>
    rcases (mem_lineage_iff hlt).1 hbi with rfl | ⟨j, horigin, hj⟩
    · exact hab
    · exact (mem_lineage_iff hlt).2 (.inr ⟨j, horigin, ih j (hlt i j horigin) hj⟩)

/-- **At most once**: of two calls of one activation, the earlier one is over if `P` is done on
behalf of the later one, and who has done `P` has made no calls. -/
theorem unique_of_siblings {P : S.Task → List (Event S) → Prop}
    (hleaf : ∀ (i : ℕ) (p : Activation S), s.acts[i]? = some p → P p.task p.hist →
      ∀ b, s.origin? b ≠ some i)
    (hsiblings : ∀ c b₁ b₂, s.origin? b₁ = some c → s.origin? b₂ = some c → b₁ < b₂ →
      ∀ (i : ℕ) (p : Activation S), s.acts[i]? = some p → b₂ ∈ s.lineage i → P p.task p.hist →
        s.Over P b₁)
    {c i₁ i₂ : ℕ} {p₁ p₂ : Activation S} (hp₁ : s.acts[i₁]? = some p₁)
    (hp₂ : s.acts[i₂]? = some p₂) (hc₁ : c ∈ s.lineage i₁) (hc₂ : c ∈ s.lineage i₂)
    (hP₁ : P p₁.task p₁.hist) (hP₂ : P p₂.task p₂.hist) : i₁ = i₂ := by
  -- from `c` downwards
  obtain ⟨n, hn⟩ : ∃ n, n = i₁ - c := ⟨_, rfl⟩
  induction n using Nat.strongRecOn generalizing c with
  | ind n ih =>
    by_cases h₁ : c = i₁
    · by_contra hne
      subst h₁
      obtain ⟨b, hb, -⟩ := exists_child hlt hc₂ hne
      exact hleaf c p₁ hp₁ hP₁ b hb
    by_cases h₂ : c = i₂
    · subst h₂
      obtain ⟨b, hb, -⟩ := exists_child hlt hc₁ h₁
      exact absurd hb (hleaf c p₂ hp₂ hP₂ b)
    obtain ⟨b₁, hb₁, hmem₁⟩ := exists_child hlt hc₁ h₁
    obtain ⟨b₂, hb₂, hmem₂⟩ := exists_child hlt hc₂ h₂
    rcases Nat.lt_trichotomy b₁ b₂ with hlt' | rfl | hlt'
    · exact absurd hP₁ (hsiblings c b₁ b₂ hb₁ hb₂ hlt' i₂ p₂ hp₂ hmem₂ hP₂ i₁ p₁ hp₁ hmem₁).2
    · have hcb := hlt b₁ c hb₁
      have hbi := le_of_mem_lineage hlt hmem₁
      exact ih (i₁ - b₁) (by omega) hmem₁ hmem₂ rfl
    · exact absurd hP₂ (hsiblings c b₂ b₁ hb₂ hb₁ hlt' i₁ p₁ hp₁ hmem₁ hP₁ i₂ p₂ hp₂ hmem₂).2

end Callers

section Runs

variable [DecidableEq S.Addr] {C : Net V → Label S → Prop}

theorem Reach.origin?_lt (hinit : s₀.acts = []) (h : Reach C s₀ s) {i j : ℕ}
    (horigin : s.origin? i = some j) : j < i := by
  obtain ⟨p, hp, hj⟩ := Option.bind_eq_some_iff.1 horigin
  exact h.origin_lt hinit hp hj

/-- A step does not change whoever has called an activation. -/
theorem Step.origin? (hs : Step s l s') {i : ℕ} {p : Activation S} (hp : s.acts[i]? = some p) :
    s'.origin? i = s.origin? i := by
  obtain ⟨p', hp', -, -, horigin, -⟩ := hs.keeps hp
  rw [origin?_eq hp', origin?_eq hp, horigin]

/-- A step does not change lineages. -/
theorem Step.lineage (hinit : s₀.acts = []) (h : Reach C s₀ s) (h' : Reach C s₀ s')
    (hs : Step s l s') {i : ℕ} {p : Activation S} (hp : s.acts[i]? = some p) :
    s'.lineage i = s.lineage i := by
  induction i using Nat.strongRecOn generalizing p with
  | ind i ih =>
    rw [lineage_eq fun _ _ ↦ h'.origin?_lt hinit, lineage_eq (s := s) fun _ _ ↦ h.origin?_lt hinit,
      hs.origin? hp]
    rcases horigin : s.origin? i with _ | j
    · rfl
    · have hj := h.origin?_lt hinit horigin
      obtain ⟨q, hq⟩ : ∃ q, s.acts[j]? = some q :=
        ⟨_, List.getElem?_eq_getElem (Nat.lt_trans hj (lt_length hp))⟩
      exact congrArg (i :: ·) (ih j hj hq)

/-- **What is over stays over.** -/
theorem Over.step {P : S.Task → List (Event S) → Prop} (hinit : s₀.acts = []) (h : Reach C s₀ s)
    (h' : Reach C s₀ s') (hs : Step s l s') {b : ℕ} {q : Activation S} (hq : s.acts[b]? = some q)
    (hover : s.Over P b) : s'.Over P b := by
  intro j p' hp' hmem
  have hold : ∀ p, s.acts[j]? = some p → p.Done ∧ ¬ P p.task p.hist := fun p hp ↦
    hover j p hp (hs.lineage hinit h h' hp ▸ hmem)
  rcases hs.activation hp' with hp | ⟨rfl, a, t, origin, rfl, hopen⟩ |
    ⟨p, hp, rfl, -, hal, -, _, _, _, hcall, -⟩ | ⟨p, hp, rfl, -⟩ | ⟨p, c, k, r, hp, hal, hc, rfl, -⟩
  · exact hold p' hp
  · -- nobody who is done has called it
    exfalso
    rcases (mem_lineage_iff fun _ _ ↦ h'.origin?_lt hinit).1 hmem with rfl | ⟨i, horigin, hmem⟩
    · exact absurd (lt_length hq) (Nat.lt_irrefl _)
    · rw [origin?_eq hp'] at horigin
      obtain rfl : origin = some i := horigin
      rcases hopen with ⟨-, heq⟩ | ⟨-, -, heq⟩ | ⟨i', p, dest, k, -, hp, hal, hc, -, -, heq⟩
      · cases heq
      · cases heq
      · obtain rfl := Option.some.inj heq
        rw [hs.lineage hinit h h' hp] at hmem
        exact Activation.not_done hal hc (hover _ p hp hmem).1
  · exact absurd (hold p hp).1 (Activation.not_done hal hcall)
  · exact ⟨.inl rfl, (hold p hp).2⟩
  · exact absurd (hold p hp).1 (Activation.not_done hal hc)

/-- **Who was called** is waited for, or the caller has got an answer to some call. -/
theorem Reach.called_of_origin (hinit : s₀.acts = []) (h : Reach C s₀ s) {b c : ℕ}
    (horigin : s.origin? b = some c) : ∃ p, s.acts[c]? = some p ∧
      (p.child = some b ∨ ∃ dest t r, ⟨.invoke dest t, r⟩ ∈ p.hist) := by
  refine h.invariant (I := fun s ↦ ∀ b c, s.origin? b = some c → ∃ p, s.acts[c]? = some p ∧
    (p.child = some b ∨ ∃ dest t r, ⟨.invoke dest t, r⟩ ∈ p.hist)) ?_ ?_ b c horigin
  · intro b c horigin
    rw [origin?, hinit] at horigin
    cases horigin
  intro s l s' hr hr' ih _ hs b c horigin
  obtain ⟨q', hq', hc⟩ := Option.bind_eq_some_iff.1 horigin
  -- a caller that was there before the step
  have hkeep : s.origin? b = some c → ∃ p, s'.acts[c]? = some p ∧
      (p.child = some b ∨ ∃ dest t r, ⟨.invoke dest t, r⟩ ∈ p.hist) := by
    intro horigin
    obtain ⟨p, hp, hcase⟩ := ih b c horigin
    obtain ⟨p', hp', -, -, -, -, hhist, -⟩ := hs.keeps hp
    refine ⟨p', hp', ?_⟩
    rcases hcase with hchild | ⟨dest, t, r, hmem⟩
    case inr => exact .inr ⟨dest, t, r, hhist.subset hmem⟩
    rcases hs.activation hp' with hsame | ⟨hlen, -⟩ | ⟨p₀, hp₀, -, hnone, -⟩ | ⟨p₀, hp₀, rfl, -⟩ |
      ⟨p₀, call, k, r, hp₀, -, hcall, rfl, -⟩
    · exact .inl (Option.some.inj (hp.symm.trans hsame) ▸ hchild)
    · exact absurd hlen (Nat.ne_of_lt (lt_length hp))
    · rw [Option.some.inj (hp₀.symm.trans hp), hchild] at hnone
      cases hnone
    · exact .inl (Option.some.inj (hp.symm.trans hp₀) ▸ hchild)
    · obtain rfl := Option.some.inj (hp.symm.trans hp₀)
      obtain ⟨dest, t, k', -, hcall', -⟩ := hr.child hinit hp hchild
      obtain ⟨rfl, -⟩ := Prog.call.inj (hcall.symm.trans hcall')
      exact .inr ⟨dest, t, r, by simp⟩
  rcases hs.activation hq' with hq | ⟨rfl, a, t, origin, rfl, hopen⟩ | ⟨q, hq, rfl, -⟩ |
    ⟨q, hq, rfl, -⟩ | ⟨q, _, _, _, hq, -, -, rfl, -⟩
  · exact hkeep (by rw [origin?_eq hq]; exact hc)
  · rcases hopen with ⟨-, rfl⟩ | ⟨-, -, rfl⟩ | ⟨i, p, dest, k, rfl, hp, -, hcall, hchild, -, rfl⟩
    · cases hc
    · cases hc
    · obtain rfl := Option.some.inj hc
      -- it now waits for the new one
      obtain ⟨p₀, call, k', hp₀, -, -, ⟨r, hacts⟩ | ⟨dest', t', -, -, hacts⟩⟩ := hs.moved
      · rw [hacts, List.getElem?_set_ne (Nat.ne_of_lt (lt_length hp)),
          List.getElem?_eq_none (Nat.le_refl _)] at hq'
        cases hq'
      · refine ⟨p₀.await s.acts.length, ?_, .inl rfl⟩
        rw [hacts]
        exact set_self (p := p₀) (by rw [List.getElem?_append_left (lt_length hp), hp₀])
  · exact hkeep (by rw [origin?_eq hq]; exact hc)
  · exact hkeep (by rw [origin?_eq hq]; exact hc)
  · exact hkeep (by rw [origin?_eq hq]; exact hc)

/-- **Whoever was called** was called as the contract of its caller allows. -/
theorem Reach.emits_of_origin (K : Contract V) (hinit : s₀.acts = []) (h : Reach C s₀ s) {b c : ℕ}
    {q : Activation S} (hq : s.acts[b]? = some q) (horigin : s.origin? b = some c) :
    ∃ p h dest, s.acts[c]? = some p ∧ h <+: p.hist ∧
      K.emits p.node p.task h (.invoke dest q.task) := by
  refine h.invariant (I := fun s ↦ ∀ (b : ℕ) (q : Activation S), s.acts[b]? = some q →
    q.origin = some c → ∃ p h dest, s.acts[c]? = some p ∧ h <+: p.hist ∧
      K.emits p.node p.task h (.invoke dest q.task)) ?_ ?_ b q hq
    ((origin?_eq hq).symm.trans horigin)
  · intro b q hq
    rw [hinit] at hq
    cases hq
  intro s l s' hr _ ih _ hs b q' hq' horigin
  have hkeep : ∀ p, s.acts[c]? = some p →
      (∃ h dest, h <+: p.hist ∧ K.emits p.node p.task h (.invoke dest q'.task)) →
      ∃ p h dest, s'.acts[c]? = some p ∧ h <+: p.hist ∧
        K.emits p.node p.task h (.invoke dest q'.task) := by
    rintro p hp ⟨h, dest, hpre, hemit⟩
    obtain ⟨p', hp', hnode, htask, -, -, hhist, -⟩ := hs.keeps hp
    exact ⟨p', h, dest, hp', hpre.trans hhist, by rwa [hnode, htask]⟩
  have hold : ∀ q, s.acts[b]? = some q → q.origin = some c → q.task = q'.task →
      ∃ p h dest, s'.acts[c]? = some p ∧ h <+: p.hist ∧
        K.emits p.node p.task h (.invoke dest q'.task) := by
    intro q hq horigin htask
    obtain ⟨p, h, dest, hp, hpre, hemit⟩ := ih b q hq horigin
    exact hkeep p hp ⟨h, dest, hpre, htask ▸ hemit⟩
  rcases hs.activation hq' with hq | ⟨rfl, a, t, origin, rfl, hopen⟩ | ⟨q, hq, rfl, -⟩ |
    ⟨q, hq, rfl, -⟩ | ⟨q, _, _, _, hq, -, -, rfl, -⟩
  · exact hold q' hq horigin rfl
  · rcases hopen with ⟨-, rfl⟩ | ⟨-, -, rfl⟩ | ⟨i, p, dest, k, -, hp, -, hcall, -, -, rfl⟩
    · cases horigin
    · cases horigin
    · obtain rfl := Option.some.inj horigin
      exact hkeep p hp ⟨p.hist, dest, List.prefix_rfl, (K.lawful hinit hr i p hp).emits hcall⟩
  · exact hold q hq horigin rfl
  · exact hold q hq horigin rfl
  · exact hold q hq horigin rfl

end Runs

end Net

end Rpc
