import ReplicatedDB.Protocol.Agreement

/-!
# One proposer

Only the node `a` runs attempts, one after the other, and what they send to `a` itself arrives
(`Solo`); what they send to others is delivered, lost, or executed at any later time.

Then the logs of `a` have no gaps (`Counted`), so each attempt takes a round that is larger than
all rounds proposed before (`Ordered`). Hence nothing is accepted in that round yet, no old entry
is adopted (`OwnEntries`), and nobody refuses the success messages of the attempt while it runs
(`current_of_call`).
-/

namespace ReplicatedDB

open Rpc Rpc.Net

variable {cl : Cluster}

/-- Only the node `a` runs attempts, one after the other, and they reach it. -/
structure Solo (a : String) (nodes : String → Replica) (C : Net (db cl) → Label Db → Prop) :
    Prop where
  reaches : ∀ s l, C s l → AttemptsReach a s l ∧ l.NoRestart
  node : ∀ s, Reach C (cl.start nodes) s → ∀ (j : ℕ) (p : Activation Db) r,
    s.acts[j]? = some p → p.task = .attemptConsensus r → p.node = a
  /-- An attempt that makes a call is the last one, and all others have returned. -/
  last : ∀ s, Reach C (cl.start nodes) s → ∀ (i j : ℕ) (p q : Activation Db) r r'
    (c : Call Db) (k : c.Ret → Program Reply), s.acts[j]? = some p →
      p.task = .attemptConsensus r → p.prog = .call c k → s.acts[i]? = some q →
      q.task = .attemptConsensus r' → i ≠ j → i < j ∧ ∃ rep, q.Returned rep

/-- Counting goes on when the number of rounds is added to them, or nothing new. -/
theorem counted_insert {rounds : Finset ℤ} (hlt : ∀ x ∈ rounds, x < rounds.card) {round : ℤ}
    (hround : round ∈ rounds ∨ round = rounds.card) :
    (∀ x ∈ insert round rounds, x < (insert round rounds).card) ∧
      ∀ x, x ∈ rounds ∨ x = rounds.card →
        x ∈ insert round rounds ∨ x = (insert round rounds).card := by
  rcases hround with hmem | rfl
  · rw [Finset.insert_eq_of_mem hmem]
    exact ⟨hlt, fun x hx ↦ hx⟩
  · have hnew : (rounds.card : ℤ) ∉ rounds := fun hmem ↦ lt_irrefl _ (hlt _ hmem)
    rw [Finset.card_insert_of_notMem hnew]
    refine ⟨fun x hx ↦ ?_, fun x hx ↦ .inl ?_⟩
    · rcases Finset.mem_insert.1 hx with rfl | hx
      · omega
      · have := hlt x hx
        omega
    · rcases hx with hx | rfl
      · exact Finset.mem_insert_of_mem hx
      · exact Finset.mem_insert_self _ _

/-- The rounds logged by the proposer are smaller than their number, and each attempt has taken one
of them or the next one. -/
structure Counted (a : String) (s : Net (db cl)) : Prop where
  lt : ∀ key, ∀ round ∈ ((s.nodes a).log key).keys, round < ((s.nodes a).log key).size
  taken : ∀ (j : ℕ) (p : Activation Db) r, s.acts[j]? = some p → p.task = .attemptConsensus r →
    p.hist ≠ [] → roundOf p.hist ∈ ((s.nodes a).log r.key).keys ∨
      roundOf p.hist = ((s.nodes a).log r.key).size

/-- **Rounds increase**: each attempt has taken a larger round than those in which earlier
attempts on its key have proposed. -/
def Ordered (s : Net (db cl)) : Prop :=
  ∀ (i j : ℕ) (r r' : Request) (round : ℤ) (p : Activation Db), Proposes s i r round →
    s.acts[j]? = some p → p.task = .attemptConsensus r' → r'.key = r.key → i < j →
      p.hist ≠ [] → round < roundOf p.hist

/-- Whatever is accepted in a slot is the operation and value of the attempt that has proposed
there, and so is what is reported to an attempt. -/
structure OwnEntries (s : Net (db cl)) : Prop where
  accepted : ∀ d key round, ((s.nodes d).log key).Accepted round →
    ∃ j r, Proposes s j r round ∧ r.key = key ∧ r.op = (((s.nodes d).log key).entry round).op ∧
      r.value = (((s.nodes d).log key).entry round).acceptedValue
  heard : ∀ (j : ℕ) (p : Activation Db) r, s.acts[j]? = some p → p.task = .attemptConsensus r →
    ∀ d q, ∀ x : Status × Response, Heard p.hist d (.propose q) x → x.1.Ok →
      0 < x.2.aserverId → x.2.op = r.op ∧ x.2.value = r.value

section Runs

variable {C : Net (db cl) → Label Db → Prop} {a : String} {nodes : String → Replica}
  {s s' : Net (db cl)} {l : Label Db} (hsolo : Solo a nodes C)
include hsolo

/-! ### Rounds -/

/-- **What a step adds to the log of the proposer**: nothing, or the round of an attempt. -/
theorem keys_step (h : Reach C (cl.start nodes) s) (hl : C s l)
    (hs : Step s l s') :
    (∀ key, ((s'.nodes a).log key).keys = ((s.nodes a).log key).keys) ∨
    ∃ (j : ℕ) (p : Activation Db) (r : Request), s.acts[j]? = some p ∧
      p.task = .attemptConsensus r ∧ p.hist ≠ [] ∧ ∀ key, ((s'.nodes a).log key).keys =
        if key = r.key then insert (roundOf p.hist) ((s.nodes a).log key).keys
        else ((s.nodes a).log key).keys := by
  rcases replica_step hs a with hnode | ⟨b, hex, hnode⟩ | ⟨rfl, -⟩
  · exact .inl fun key ↦ by rw [hnode]
  · by_cases hslot : ∃ key round, b.slot? = some (key, round)
    · obtain ⟨key, round, hslot⟩ := hslot
      obtain ⟨j, o, p, dest, k, x, -, -, hp, hc, -⟩ | hm := hs.executed_by hex
      case inr =>
        cases hslot.symm.trans
          (slot?_of_late rfl rfl (fun s l hl ↦ (hsolo.reaches s l hl).1) h _ hm rfl)
      obtain ⟨r, d, htask, rfl, -, hemit, rfl, rfl⟩ := attempt_of_call rfl h hp hc hslot
      refine .inr ⟨j, p, r, hp, htask, ?_, fun key ↦ Finset.ext fun x ↦ ?_⟩
      · intro hnil
        rw [hnil] at hemit
        cases b with
        | propose q => exact hemit.2.2.1 rfl
        | accept q =>
          obtain ⟨-, -, ⟨⟨d', x, hx⟩, -⟩, -⟩ := hemit
          cases hx
        | success q =>
          obtain ⟨-, ⟨⟨d', x, hx⟩, -⟩, -⟩ := hemit
          cases hx
        | _ => cases hslot
      · rw [hnode, mem_keys_act, hslot]
        by_cases hkey : key = r.key
        · subst hkey
          simp [or_comm, eq_comm]
        · simp [hkey, eq_comm]
    · refine .inl fun key ↦ Finset.ext fun x ↦ ?_
      rw [hnode, mem_keys_act]
      exact or_iff_left fun hx ↦ hslot ⟨_, _, hx⟩
  · exact absurd (hsolo.reaches s _ hl).2 id

/-- **An attempt chooses its round with its first call**: the size of the log of the
proposer. -/
theorem round_step (h : Reach C (cl.start nodes) s) (hs : Step s l s') {j : ℕ}
    {p' : Activation Db} (hp' : s'.acts[j]? = some p') {r : Request}
    (htask : p'.task = .attemptConsensus r) (hne : p'.hist ≠ []) :
    (∃ p, s.acts[j]? = some p ∧ p.task = .attemptConsensus r ∧ p.hist ≠ [] ∧
      roundOf p'.hist = roundOf p.hist) ∨
    ∃ p c k, s.acts[j]? = some p ∧ p.task = .attemptConsensus r ∧ p.prog = .call c k ∧
      roundOf p'.hist = ((s.nodes a).log r.key).size ∧ s'.nodes = s.nodes := by
  rcases hs.activation hp' with hp | ⟨-, a', t, origin, rfl, -⟩ | ⟨p, hp, rfl, -⟩ |
    ⟨p, hp, rfl, -⟩ | ⟨p, c, k, x, hp, -, hc, rfl, hans⟩
  · exact .inl ⟨p', hp, htask, hne, rfl⟩
  · exact absurd rfl hne
  · exact .inl ⟨p, hp, htask, hne, rfl⟩
  · exact .inl ⟨p, hp, htask, hne, rfl⟩
  by_cases hnil : p.hist = []
  case neg => exact .inl ⟨p, hp, htask, hnil, roundOf_append hnil _⟩
  -- the first call
  obtain ⟨dest, b, rfl, -⟩ := act_of_attempt rfl h hp htask hc
  have hemit := ((contract cl).lawful rfl h j p hp).emits hc
  rw [show p.task = _ from htask, hnil] at hemit
  right
  cases dest with
  | some d =>
    cases b with
    | ping => exact absurd rfl hemit.2.1
    | propose q => exact absurd rfl hemit.2.2.1
    | accept q =>
      obtain ⟨-, -, ⟨⟨d', x, hx⟩, -⟩, -⟩ := hemit
      cases hx
    | success q =>
      obtain ⟨-, ⟨⟨d', x, hx⟩, -⟩, -⟩ := hemit
      cases hx
    | _ => exact absurd hemit id
  | none =>
    cases b with
    | getLog key' =>
      obtain ⟨rfl, -⟩ := hemit
      obtain ⟨o, rfl, ho, rfl⟩ := hans
      obtain rfl := ho.resolve_left nofun
      refine ⟨p, _, k, hp, htask, hc, ?_, ?_⟩
      · rw [Activation.resume_hist, hnil]
        simp [roundOf, answer, act, hsolo.node s h j p r hp htask]
      · rcases hs.nodes with ⟨-, hnodes⟩ | ⟨d, b, hex, hnodes⟩ | ⟨d, hl, -⟩
        · exact hnodes
        · have hgetLog := executed?_of_executed hp hc (.inl rfl)
          obtain ⟨rfl, rfl⟩ := Prod.mk.inj (Option.some.inj (hgetLog.symm.trans hex))
          rw [hnodes]
          exact Function.update_eq_self _ _
        · cases hl
    | _ => exact absurd hemit id

section Rounds

variable (hlog : ∀ d, (nodes d).paxLog = ∅) (ha : a ∈ cl.memberList)
include hlog

theorem counted (h : Reach C (cl.start nodes) s) : Counted a s := by
  refine h.invariant (I := Counted a) ⟨fun key round hround ↦ ?_, by simp⟩ ?_
  · rw [start_nodes, Replica.log, hlog] at hround
    exact absurd hround (by simp)
  rintro s l s' hr - ⟨hlt, htaken⟩ hl hs
  have hstep : ∀ key, (∀ x ∈ ((s'.nodes a).log key).keys, x < ((s'.nodes a).log key).size) ∧
      ∀ x, x ∈ ((s.nodes a).log key).keys ∨ x = ((s.nodes a).log key).size →
        x ∈ ((s'.nodes a).log key).keys ∨ x = ((s'.nodes a).log key).size := by
    intro key
    rcases keys_step hsolo hr hl hs with hkeys | ⟨j, p, r, hp, htask, hne, hkeys⟩
    · rw [Log.size, hkeys]
      exact ⟨hlt key, fun x hx ↦ hx⟩
    · rw [Log.size, hkeys]
      split
      · rename_i hkey
        subst hkey
        exact counted_insert (hlt r.key) (htaken j p r hp htask hne)
      · exact ⟨hlt key, fun x hx ↦ hx⟩
  refine ⟨fun key ↦ (hstep key).1, fun j p' r hp' htask hne ↦ ?_⟩
  rcases round_step hsolo hr hs hp' htask hne with ⟨p, hp, htask, hne, heq⟩ |
    ⟨p, c, k, -, -, -, heq, hnodes⟩
  · rw [heq]
    exact (hstep r.key).2 _ (htaken j p r hp htask hne)
  · rw [hnodes]
    exact .inr heq

include ha

/-- The proposer has logged the round of an attempt that has proposed and returned. -/
theorem logged_of_returned (h : Reach C (cl.start nodes) s) {j : ℕ}
    {r : Request} {round : ℤ} (hprop : Proposes s j r round) {p : Activation Db}
    (hp : s.acts[j]? = some p) {rep : Reply} (hret : p.Returned rep) :
    round ∈ ((s.nodes a).log r.key).keys := by
  obtain ⟨htask, rfl⟩ := hprop.round rfl h hp
  obtain ⟨p', d, hp', -, hsent⟩ := hprop
  obtain rfl := Option.some.inj (hp.symm.trans hp')
  have hreturns := ((contract cl).lawful rfl h j p hp).returns hret
  rw [htask] at hreturns
  obtain ⟨st, hping, hsent⟩ := (hreturns.1 ⟨d, _, hsent⟩).2 a ha
  have hok := answerOk rfl rfl hlog (fun s l hl ↦ (hsolo.reaches s l hl).1) h j p hp _
    hping rfl
  exact logged_of_sent rfl hsolo.reaches h hp (hsent hok) rfl

theorem ordered (h : Reach C (cl.start nodes) s) : Ordered s := by
  refine h.invariant (I := Ordered) (fun i j r r' round p _ hp ↦ by simp at hp) ?_
  intro s l s' hr _ ih hl hs i j r r' round p' hprop hp' htask hkey hij hne
  obtain ⟨q', d, hq', hqtask, x, hx⟩ := hprop
  obtain ⟨q, hq, -, htask', hx⟩ := hs.event hq' hx
  have hqtask : q.task = .attemptConsensus r := htask'.symm.trans hqtask
  rcases round_step hsolo hr hs hp' htask hne with ⟨p, hp, hptask, hne, heq⟩ |
    ⟨p, c, k, hp, hptask, hc, heq, -⟩
  · rw [heq]
    rcases hx with hx | ⟨c, k, y, -, hc, -⟩
    · exact ih i j r r' round p ⟨q, d, hq, hqtask, x, hx⟩ hp hptask hkey hij hne
    · -- only the last attempt makes a call
      exact absurd (hsolo.last _ hr _ _ _ _ _ _ _ _ hq hqtask hc hp hptask hij.ne').1 hij.not_gt
  · -- the earlier attempt has returned, so the proposer knows its round
    obtain ⟨-, rep, hret⟩ := hsolo.last _ hr _ _ _ _ _ _ _ _ hp hptask hc hq hqtask hij.ne
    rcases hx with hx | ⟨c', k', y, -, hc', -⟩
    · have hlogged := logged_of_returned hsolo hlog ha hr ⟨q, d, hq, hqtask, x, hx⟩ hq hret
      rw [heq, hkey]
      exact (counted hsolo hlog hr).lt _ _ hlogged
    · cases hc'.symm.trans hret

/-- The attempt that makes a call has taken a larger round than all others have proposed in. -/
theorem round_le_of_call (h : Reach C (cl.start nodes) s) {j : ℕ}
    {p : Activation Db} (hp : s.acts[j]? = some p) {r : Request}
    (htask : p.task = .attemptConsensus r) {c : Call Db} {k : c.Ret → Program Reply}
    (hc : p.prog = .call c k) (hne : p.hist ≠ []) {i : ℕ} {r' : Request} {round : ℤ}
    (hprop : Proposes s i r' round) (hkey : r'.key = r.key) :
    (i = j ∧ r' = r ∧ round = roundOf p.hist) ∨ round < roundOf p.hist := by
  by_cases hij : i = j
  · subst hij
    obtain ⟨htask', hround⟩ := hprop.round rfl h hp
    obtain rfl := Task.attemptConsensus.inj (htask.symm.trans htask')
    exact .inl ⟨rfl, rfl, hround⟩
  · obtain ⟨q, d, hq, hqtask, -⟩ := id hprop
    obtain ⟨hlt, -⟩ := hsolo.last _ h _ _ _ _ _ _ _ _ hp htask hc hq hqtask hij
    exact .inr (ordered hsolo hlog ha h i j r' r round p hprop hp htask hkey.symm hlt hne)

/-- **Nobody refuses the success messages of an attempt that is running.** -/
theorem current_of_call (h : Reach C (cl.start nodes) s) {j : ℕ}
    {p : Activation Db} (hp : s.acts[j]? = some p) {dest : Option String} {q : Request}
    {k : Status → Program Reply} (hc : p.prog = .call (.act dest (.success q)) k) (d : String) :
    Current q (s.nodes d) := by
  intro round hround
  obtain ⟨i, r', hprop, hkey'⟩ := proposes_of_logged rfl rfl hlog h hround
  obtain ⟨r, d', htask, -, -, ⟨-, ⟨⟨e, x, he⟩, -⟩, -⟩, hkey, heq⟩ := attempt_of_call rfl h hp hc rfl
  have hne : p.hist ≠ [] := List.ne_nil_of_mem he
  rcases round_le_of_call hsolo hlog ha h hp htask hc hne hprop (hkey'.trans hkey.symm) with
    ⟨-, -, hround⟩ | hround <;> omega

/-! ### Values -/

omit hsolo hlog ha in
/-- What an attempt writes to logs is its own, if nothing else is reported to it. -/
theorem own_of_write (h : Reach C (cl.start nodes) s)
    (hheard : ∀ (j : ℕ) (p : Activation Db) r, s.acts[j]? = some p →
      p.task = .attemptConsensus r → ∀ d q, ∀ x : Status × Response,
        Heard p.hist d (.propose q) x → x.1.Ok → 0 < x.2.aserverId →
          x.2.op = r.op ∧ x.2.value = r.value)
    {j : ℕ} {d : String} {b : Act} (hcall : s.CalledBy j d b) {q : Request}
    (hq : b.write? = some q) :
    ∃ r, Proposes s j r q.round ∧ r.key = q.key ∧ r.op = q.op ∧ r.value = q.value := by
  have hslot : b.slot? = some (q.key, q.round) := by
    cases b <;> cases hq <;> rfl
  obtain ⟨r, hprop, hkey⟩ := proposes_of_calledBy rfl h hcall hslot
  refine ⟨r, hprop, hkey, ?_⟩
  obtain ⟨p, dest, x, hp, -, hmem⟩ := hcall
  obtain ⟨h₁, hpre, hemit, -⟩ := ((contract cl).lawful rfl h j p hp).emits_of_mem hmem
  obtain ⟨r', d', htask, rfl, -, hemit, -⟩ := attempt_of_emits hemit hslot
  obtain rfl := Task.attemptConsensus.inj ((hprop.round rfl h hp).1.symm.trans htask)
  have hown : ∀ qa, Adopts r h₁ qa → r.op = qa.op ∧ r.value = qa.value := by
    intro qa hadopt
    rcases hadopt.value with ⟨hop, hval, -⟩ | ⟨d₁, q₁, x₁, hx, hok, hpos, hop, hval⟩
    · exact ⟨hop.symm, hval.symm⟩
    · obtain ⟨hop', hval'⟩ := hheard j p r hp htask d₁ q₁ x₁ (hx.mono hpre.subset) hok hpos
      exact ⟨(hop.trans hop').symm, (hval.trans hval').symm⟩
  cases b with
  | accept q' =>
    obtain rfl := Option.some.inj hq
    exact hown q' hemit.2.1
  | success q' =>
    obtain rfl := Option.some.inj hq
    obtain ⟨-, -, qa, ⟨hadopt, -⟩, rfl⟩ := hemit
    exact hown qa hadopt
  | _ => cases hq

/-- **Nothing old is adopted**: all entries are those of the attempts that opened them. -/
theorem ownEntries (h : Reach C (cl.start nodes) s) : OwnEntries s := by
  refine h.invariant (I := OwnEntries) ⟨fun d key round hd ↦ ?_, by simp⟩ ?_
  · rw [start_nodes, Log.Accepted, Replica.log, hlog] at hd
    exact absurd hd (lt_irrefl (0 : ℤ))
  intro s l s' hr hr' ih hl hs
  have hheard : ∀ (j : ℕ) (p : Activation Db) r, s'.acts[j]? = some p →
      p.task = .attemptConsensus r → ∀ d q, ∀ x : Status × Response,
        Heard p.hist d (.propose q) x → x.1.Ok → 0 < x.2.aserverId →
          x.2.op = r.op ∧ x.2.value = r.value := by
    intro j p' r hp' htask' d q x hx hok hpos
    obtain ⟨p, hp, -, htask, hx | ⟨c, k, y, -, hc, heq, hans⟩⟩ := hs.event hp' hx
    · exact ih.heard j p r hp (htask.symm.trans htask') d q x hx hok hpos
    obtain ⟨rfl, heq⟩ := Sigma.mk.inj heq
    obtain rfl := eq_of_heq heq
    -- the entry reported was accepted in the round of this attempt
    rcases hans.lost_or_executed hp hc with ⟨-, rfl⟩ | ⟨-, -, rfl⟩
    · exact absurd hok Status.not_ok_unavailable
    obtain ⟨hacc, hop, hval⟩ := accepted_of_propose hok hpos
    obtain ⟨i, r₀, hprop, hkey₀, hop₀, hval₀⟩ := ih.accepted d _ _ hacc
    obtain ⟨r₁, d₁, htask₁, -, -, hemit, hkey₁, hround⟩ := attempt_of_call rfl hr hp hc rfl
    obtain rfl := Task.attemptConsensus.inj ((htask.symm.trans htask').symm.trans htask₁)
    rcases round_le_of_call hsolo hlog ha hr hp htask₁ hc hemit.2.2.1 hprop
      (hkey₀.trans hkey₁.symm) with ⟨-, rfl, -⟩ | hlt
    · exact ⟨hop.trans hop₀.symm, hval.trans hval₀.symm⟩
    · exact absurd hround hlt.ne'
  refine ⟨fun d key round hd ↦ ?_, hheard⟩
  have hkeep : s'.nodes d = s.nodes d ∨ ((s'.nodes d).log key).entry round =
      ((s.nodes d).log key).entry round → ∃ j r, Proposes s' j r round ∧ r.key = key ∧
        r.op = (((s'.nodes d).log key).entry round).op ∧
        r.value = (((s'.nodes d).log key).entry round).acceptedValue := by
    intro heq
    have hentry : ((s'.nodes d).log key).entry round = ((s.nodes d).log key).entry round := by
      rcases heq with heq | heq
      · rw [heq]
      · exact heq
    rw [Log.Accepted, hentry] at hd
    obtain ⟨j, r, hprop, hrest⟩ := ih.accepted d key round hd
    exact ⟨j, r, hprop.mono hs, by rwa [hentry]⟩
  rcases replica_step hs d with hnode | ⟨b, hex, hnode⟩ | ⟨rfl, -⟩
  · exact hkeep (.inl hnode)
  · rcases entry_act b (s.nodes d) key round with heq | ⟨q, hw, rfl, rfl⟩
    · exact hkeep (.inr (by rw [hnode, heq]))
    · rw [hnode, entry_act_self b (s.nodes d) hw]
      obtain ⟨j, hcall⟩ := hr.calledBy_of_executed rfl hs hex
      exact ⟨j, own_of_write hr' hheard hcall hw⟩
  · exact absurd (hsolo.reaches s _ hl).2 id

end Rounds

end Runs

end ReplicatedDB
