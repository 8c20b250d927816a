import ReplicatedDB.Protocol.Validity
import ReplicatedDB.Rpc.Lineage

/-!
# Sets that are sent twice

A node that is not the leader forwards a set, and if it gets no OK it elects a leader and sends the
set once more. It cannot tell a set that has failed from one whose answer was lost, so a set may be
committed twice, in two rounds, and the second time over a set of another client that has come in
between (`not_appliedOnce_trio`). A set that is sent once only may still come too late: a success
message that was given up by its sender is executed some time later, and it is refused only where a
larger round is logged by then (`overwritten_late_trio`).

* `ResendsSafely`: a set is sent only when all that runs on its behalf has ended without sending a
  success message. Then it is committed at most once.
* `LateRefused`: a success message that is executed late finds a larger round logged at its node.
  Then a set that was started after an earlier one had returned is not overwritten by that one
  (`appliedOnce_of_resendsSafely`).
-/

namespace ReplicatedDB

open Rpc Rpc.Net

variable {cl : Cluster}

/-! ### What is committed on behalf of a set -/

/-- The attempt of a set. -/
def Task.SetAttempt : Task → Prop
  | .attemptConsensus r => r = setRequest r.key r.value
  | _ => False

instance : DecidablePred Task.SetAttempt
  | .attemptConsensus r => inferInstanceAs (Decidable (r = setRequest r.key r.value))
  | .electLeader _ _ | .set _ _ | .get _ | .coordinate => inferInstanceAs (Decidable False)

/-- A success message was sent. -/
def SuccessSent (e : Event Db) : Prop := (sentSuccess? e).isSome

instance : DecidablePred SuccessSent := fun e ↦
  inferInstanceAs (Decidable ((sentSuccess? e).isSome = true))

/-- An attempt of a set that has sent success messages. -/
def CommitsSet (t : Task) (h : History) : Prop := t.SetAttempt ∧ ∃ e ∈ h, SuccessSent e

instance (t : Task) (h : History) : Decidable (CommitsSet t h) :=
  inferInstanceAs (Decidable (_ ∧ _))

/-- The activation `i` is an attempt of the set, on behalf of the activation `c`, and has sent
success messages. -/
def CommitsFor (s : Net (db cl)) (c : ℕ) (key value : String) (i : ℕ) : Prop :=
  c ∈ s.lineage i ∧ ∃ p ∈ s.acts[i]?, p.task = .attemptConsensus (setRequest key value) ∧
    ∃ e ∈ p.hist, SuccessSent e

instance (s : Net (db cl)) (c : ℕ) (key value : String) (i : ℕ) :
    Decidable (CommitsFor s c key value i) := inferInstanceAs (Decidable (_ ∧ _))

/-- **At most once**: on behalf of a set there is at most one attempt that has sent success
messages. -/
def AppliedOnce (s : Net (db cl)) : Prop :=
  ∀ (c : ℕ) (p : Activation Db) (key value : String), s.acts[c]? = some p →
    p.task = .set key value → ∀ i j, CommitsFor s c key value i → CommitsFor s c key value j → i = j

/-- The step lets the node `d` execute a success message that an attempt of the set has sent on
behalf of `c`, now or some time before. -/
def InformsFor (s : Net (db cl)) (l : Label Db) (c : ℕ) (key value : String) (d : String) : Prop :=
  ∃ i q, s.executed? l = some (d, .success q) ∧ c ∈ s.lineage i ∧
    (∃ p ∈ s.acts[i]?, p.task = .attemptConsensus (setRequest key value)) ∧
    ((∃ o, l = .step i o) ∨ (∃ n, l = .deliver n) ∧ s.CalledBy i d (.success q))

/-- **A later set is not overwritten**: once a set of the same key was started after an attempt on
behalf of the first one had returned, success messages on behalf of that change no store. -/
def NotOverwritten (s : Net (db cl)) (l : Label Db) (s' : Net (db cl)) : Prop :=
  ∀ (c c' : ℕ) (p p' : Activation Db) (key value value' : String), s.acts[c]? = some p →
    p.task = .set key value → s.acts[c']? = some p' → p'.task = .set key value' →
      (∃ i, CommitsFor s c key value i ∧ ∃ q t, s.acts[i]? = some q ∧ q.stop = some t ∧
        t ≤ p'.start) →
        ∀ d, InformsFor s l c key value d → (s'.nodes d).kvStore = (s.nodes d).kvStore

/-! ### The condition -/

/-- The set that the program calls next at a node. -/
def calledSet? : Program Reply → Option (String × String)
  | .call (.invoke (some _) (.set key value)) _ => some (key, value)
  | _ => none

/-- The program calls a set at a node. -/
def CallsSet (p : Program Reply) : Prop := (calledSet? p).isSome

instance : DecidablePred CallsSet := fun p ↦
  inferInstanceAs (Decidable ((calledSet? p).isSome = true))

/-- **A set is sent** only when all that runs on its behalf has ended, and has sent no success
messages. -/
def ResendsSafely (s : Net (db cl)) : Label Db → Prop
  | .step i o => ∀ p ∈ s.acts[i]?, p.child = none → o = .delivered → CallsSet p.prog →
      ∀ j < s.acts.length, j ≠ i → i ∈ s.lineage j → ∀ q ∈ s.acts[j]?,
        q.Done ∧ ¬ CommitsSet q.task q.hist
  | _ => True

/-- **A success message that is executed late** is refused: a larger round of its key is logged at
its node by then. -/
def LateRefused (s : Net (db cl)) : Label Db → Prop
  | .deliver n => ∀ m ∈ s.late[n]?, ∀ q ∈ m.2.success?, q.key ≠ "leader" →
      ∃ round ∈ ((s.nodes m.1).log q.key).keys, q.round < round
  | _ => True

instance (s : Net (db cl)) : DecidablePred (ResendsSafely s)
  | .step i o => inferInstanceAs (Decidable (∀ p ∈ s.acts[i]?, p.child = none → o = .delivered →
      CallsSet p.prog → ∀ j < s.acts.length, j ≠ i → i ∈ s.lineage j → ∀ q ∈ s.acts[j]?,
        q.Done ∧ ¬ CommitsSet q.task q.hist))
  | .submit _ _ | .deliver _ | .restart _ => inferInstanceAs (Decidable True)

instance (s : Net (db cl)) : DecidablePred (LateRefused s)
  | .deliver n => inferInstanceAs (Decidable (∀ m ∈ s.late[n]?, ∀ q ∈ m.2.success?,
      q.key ≠ "leader" → ∃ round ∈ ((s.nodes m.1).log q.key).keys, q.round < round))
  | .submit _ _ | .step _ _ | .restart _ => inferInstanceAs (Decidable True)

section Runs

variable {C : Net (db cl) → Label Db → Prop} {nodes : String → Replica} {s s' : Net (db cl)}
  {l : Label Db}

/-- Sets and their attempts are called by sets. -/
theorem set_of_emits {me : String} {t t' : Task} {h : History} {dest : Option String}
    (he : emits cl me t h (.invoke dest t'))
    (ht' : t'.SetAttempt ∨ ∃ key value, t' = .set key value) : ∃ key value, t = .set key value := by
  rcases task_of_emits he with ⟨key, value, -, rfl⟩ | ⟨key, value, rfl, -⟩ | ⟨ht, rfl⟩ | rfl
  · rcases ht' with ht' | ⟨_, _, ht'⟩
    · cases congrArg Request.op ht'
    · cases ht'
  · exact ⟨key, value, rfl⟩
  · rcases ht' with ht' | ht'
    · cases t' <;> first | exact absurd ht id | exact absurd ht' id
    · exact ht'
  · rcases ht' with ht' | ⟨_, _, ht'⟩
    · exact absurd ht' id
    · cases ht'

/-- **The lineage of an attempt of a set**: the attempt, and sets. -/
theorem set_of_mem_lineage (h : Reach C (cl.start nodes) s) {i b : ℕ} {p : Activation Db}
    (hp : s.acts[i]? = some p) (ht : p.task.SetAttempt ∨ ∃ key value, p.task = .set key value)
    (hb : b ∈ s.lineage i) : ∃ q, s.acts[b]? = some q ∧
      (q.task.SetAttempt ∨ ∃ key value, q.task = .set key value) := by
  have hlt : ∀ i j, s.origin? i = some j → j < i := fun _ _ ↦ h.origin?_lt rfl
  induction i using Nat.strongRecOn generalizing p with
  | ind i ih =>
    rcases (mem_lineage_iff hlt).1 hb with rfl | ⟨j, horigin, hmem⟩
    · exact ⟨p, hp, ht⟩
    · obtain ⟨q, h', dest, hq, -, hemit⟩ := h.emits_of_origin (contract cl) rfl hp horigin
      exact ih j (hlt i j horigin) hq (.inr (set_of_emits hemit ht)) hmem

/-- An attempt calls nobody. -/
theorem not_origin_of_commitsSet (h : Reach C (cl.start nodes) s) {i b : ℕ} {p : Activation Db}
    (hp : s.acts[i]? = some p) (hcommits : CommitsSet p.task p.hist) :
    s.origin? b ≠ some i := by
  intro horigin
  obtain ⟨q, hq, -⟩ := Option.bind_eq_some_iff.1 horigin
  obtain ⟨p', h', dest, hp', -, hemit⟩ := h.emits_of_origin (contract cl) rfl hq horigin
  obtain rfl := Option.some.inj (hp.symm.trans hp')
  have htask := hcommits.1
  rcases htask' : p.task with r | _ | _ | _ | _ <;> rw [htask'] at htask hemit
  · cases dest <;> exact hemit
  all_goals exact htask

/-- A set calls its attempt first. -/
theorem hist_of_emits {me : String} {t t' : Task} {h : History} {dest : Option String}
    (he : emits cl me t h (.invoke dest t')) (ht' : t'.SetAttempt) : h = [readLeaderIs me] := by
  obtain ⟨key, value, rfl⟩ := set_of_emits he (.inl ht')
  cases t' with
  | attemptConsensus r =>
    cases dest with
    | none => exact he.2
    | some d => rcases he with ⟨-, ⟨heq, -⟩ | ⟨heq, -⟩⟩ <;> cases heq
  | _ => exact absurd ht' id

/-- **What a set has called is over** when it calls its attempt or a set. -/
theorem over_of_resendsSafely (h : Reach ResendsSafely (cl.start nodes) s) {c b₁ b₂ : ℕ}
    {q : Activation Db} (hb₁ : s.origin? b₁ = some c) (hq : s.acts[b₂]? = some q)
    (hb₂ : q.origin = some c) (hlt : b₁ < b₂)
    (ht : q.task.SetAttempt ∨ ∃ key value, q.task = .set key value) : s.Over CommitsSet b₁ := by
  refine h.invariant (I := fun s ↦ ∀ b₁ b₂ (q : Activation Db), s.origin? b₁ = some c →
    s.acts[b₂]? = some q → q.origin = some c → b₁ < b₂ →
      (q.task.SetAttempt ∨ ∃ key value, q.task = .set key value) → s.Over CommitsSet b₁)
    (fun _ _ _ _ hq ↦ nomatch hq) ?_ b₁ b₂ q hb₁ hq hb₂ hlt ht
  intro s l s' hr hr' ih hl hs b₁ b₂ q' hb₁ hq' hb₂ hlt ht
  -- it is enough that it was over before the step
  have hstep : b₁ < s.acts.length → (s.origin? b₁ = some c → s.Over CommitsSet b₁) →
      s'.Over CommitsSet b₁ := by
    intro hlen hover
    have hp₁ := List.getElem?_eq_getElem hlen
    exact (hover ((hs.origin? hp₁).symm.trans hb₁)).step rfl hr hr' hs hp₁
  have hold : ∀ q, s.acts[b₂]? = some q → q.origin = some c → q.task = q'.task →
      s'.Over CommitsSet b₁ := fun q hq horigin htask ↦
    hstep (Nat.lt_trans hlt (lt_length hq)) fun hb₁ ↦ ih b₁ b₂ q hb₁ hq horigin hlt (htask ▸ ht)
  rcases hs.activation hq' with hq | ⟨rfl, a, t, origin, rfl, hopen⟩ | ⟨q, hq, rfl, -⟩ |
    ⟨q, hq, rfl, -⟩ | ⟨q, _, _, _, hq, -, -, rfl, -⟩
  · exact hold q' hq hb₂ rfl
  · rcases hopen with ⟨-, rfl⟩ | ⟨-, -, rfl⟩ | ⟨i, p, dest, k, rfl, hp, -, hcall, hchild, -, rfl⟩
    · cases hb₂
    · cases hb₂
    obtain rfl := Option.some.inj hb₂
    refine hstep hlt fun hb₁ ↦ ?_
    have horigins : ∀ i j, s.origin? i = some j → j < i := fun _ _ ↦ hr.origin?_lt rfl
    have hemit := ((contract cl).lawful rfl hr i p hp).emits hcall
    rcases ht with ht | ⟨key, value, rfl⟩
    · -- nothing was called before an attempt
      have hhist := hist_of_emits hemit ht
      obtain ⟨p', hp', hb | ⟨_, _, _, hmem⟩⟩ := hr.called_of_origin rfl hb₁
      · rw [Option.some.inj (hp'.symm.trans hp), hchild] at hb
        cases hb
      · rw [Option.some.inj (hp'.symm.trans hp), hhist] at hmem
        cases List.mem_singleton.1 hmem
    · have hset : CallsSet p.prog := by
        rw [hcall]
        obtain ⟨_, _, htask⟩ := set_of_emits hemit (.inr ⟨key, value, rfl⟩)
        rw [htask] at hemit
        cases dest with
        | none => exact absurd hemit id
        | some d => rfl
      intro j q hq hmem
      have hne : j ≠ i := Nat.ne_of_gt
        (Nat.lt_of_lt_of_le (horigins b₁ i hb₁) (le_of_mem_lineage horigins hmem))
      exact hl p hp hchild rfl hset j (lt_length hq) hne (mem_lineage_trans horigins
        ((mem_lineage_iff horigins).2 (.inr ⟨i, hb₁, mem_lineage_self horigins i⟩)) hmem) q hq
  · exact hold q hq hb₂ rfl
  · exact hold q hq hb₂ rfl
  · exact hold q hq hb₂ rfl

/-- **At most once**, when sets are sent again safely. -/
theorem AppliedOnce.of_resendsSafely (h : Reach ResendsSafely (cl.start nodes) s) :
    AppliedOnce s := by
  have horigins : ∀ i j, s.origin? i = some j → j < i := fun _ _ ↦ h.origin?_lt rfl
  rintro c p key value - - i j ⟨hci, q, hq, htask, hsent⟩ ⟨hcj, q', hq', htask', hsent'⟩
  refine unique_of_siblings (P := CommitsSet) horigins ?_ ?_ hq hq' hci hcj ?_ ?_
  · exact fun i p hp hcommits b ↦ not_origin_of_commitsSet h hp hcommits
  · intro c b₁ b₂ hb₁ hb₂ hlt i p hp hmem hcommits
    obtain ⟨q₂, hq₂, ht⟩ := set_of_mem_lineage h hp (.inl hcommits.1) hmem
    exact over_of_resendsSafely h hb₁ hq₂ ((origin?_eq hq₂).symm.trans hb₂) hlt ht
  · exact ⟨by rw [htask]; rfl, hsent⟩
  · exact ⟨by rw [htask']; rfl, hsent'⟩

/-- What was committed on behalf of a set stays so. -/
theorem CommitsFor.mono (h : Reach C (cl.start nodes) s) (h' : Reach C (cl.start nodes) s')
    (hs : Step s l s') {c : ℕ} {key value : String} {i : ℕ} (hi : CommitsFor s c key value i) :
    CommitsFor s' c key value i := by
  obtain ⟨hc, p, hp, ht, e, he, hsent⟩ := hi
  obtain ⟨p', hp', -, htask, -, -, hhist, -⟩ := hs.keeps hp
  refine ⟨?_, p', hp', by rw [htask, ht], e, hhist.subset he, hsent⟩
  rwa [hs.lineage rfl h h' hp]

/-- An attempt that sends a success message on behalf of a set commits it. -/
theorem commitsFor_of_step (h : Reach C (cl.start nodes) s) (h' : Reach C (cl.start nodes) s')
    {i : ℕ} {o : Outcome} (hs : Step s (.step i o) s') {d : String} {q : Request}
    (hex : s.executed? (.step i o) = some (d, .success q)) {c : ℕ} {key value : String}
    (hc : c ∈ s.lineage i) {p : Activation Db} (hp : s.acts[i]? = some p)
    (ht : p.task = .attemptConsensus (setRequest key value)) : CommitsFor s' c key value i := by
  obtain ⟨p₁, dest, k, hp₁, hcall, -⟩ := executed?_step hex
  obtain rfl := Option.some.inj (hp.symm.trans hp₁)
  have hemit := ((contract cl).lawful rfl h i p hp).emits hcall
  rw [ht] at hemit
  obtain ⟨-, r, hq⟩ := hs.resumed hp hcall
  refine ⟨by rwa [hs.lineage rfl h h' hp], _, hq, ht, _,
    List.mem_append_right _ (List.mem_singleton_self _), ?_⟩
  cases dest with
  | none => exact absurd hemit id
  | some d => rfl

/-- **No late overwriting**: the attempts of a set that is committed once have returned when a later
one starts, and what is still in flight is refused. -/
theorem notOverwritten_of_lateRefused (h : Reach ResendsSafely (cl.start nodes) s)
    (hsafe : ResendsSafely s l) (hlate : LateRefused s l) (hstep : s.step l = some s') :
    NotOverwritten s l s' := by
  have hs := Step.of_step hstep
  have h' : Reach ResendsSafely (cl.start nodes) s' := h.tail ⟨l, hsafe, hstep⟩
  rintro c c' p p' key value - hp htask - - ⟨i, hi, q, t, hq, hstop, -⟩ d
    ⟨j, m, hex, hc, ⟨pj, hpj, htj⟩, hwho⟩
  rcases hwho with ⟨o, rfl⟩ | ⟨⟨n, rfl⟩, -⟩
  · -- an attempt that still runs is another one than the one that has returned
    have hj := commitsFor_of_step h h' hs hex hc hpj htj
    obtain ⟨p₁, hp₁, -, htask₁, -⟩ := hs.keeps hp
    obtain rfl : i = j := AppliedOnce.of_resendsSafely h' c p₁ key value hp₁ (htask₁.trans htask)
      i j (hi.mono h h' hs) hj
    obtain ⟨p₂, dest, k, hp₂, hcall, -⟩ := executed?_step hex
    obtain rfl := Option.some.inj (hq.symm.trans hp₂)
    obtain ⟨r, hr⟩ := h.returned_of_stop rfl hq hstop
    cases hr.symm.trans hcall
  · have hm : s.late[n]? = some (d, .success m) := hex
    rw [replica_executed hs hex]
    have hsound : (Act.success m).Sound := sound_of_requested rfl rfl h (hs.executed hex)
    rcases kvStore_act (.success m) (s.nodes d) hsound with hsame | ⟨_, heq, hcur, hkey, -⟩ |
      ⟨_, _, heq, -⟩
    · exact hsame
    · obtain rfl := Act.success.inj heq
      obtain ⟨round, hround, hlt⟩ := hlate _ hm m rfl hkey
      exact absurd (hcur round hround) (not_le.2 hlt)
    · cases heq

/-- **A set is applied at most once**, in every run in which sets are sent only when all that runs
on their behalf has ended, and has sent no success messages; and it overwrites no later set, if its
success messages that are executed late are refused. -/
theorem appliedOnce_of_resendsSafely (h : Reach ResendsSafely (cl.start nodes) s) :
    AppliedOnce s ∧ ∀ l s', ResendsSafely s l → LateRefused s l → s.step l = some s' →
      NotOverwritten s l s' :=
  ⟨AppliedOnce.of_resendsSafely h, fun _ _ hsafe hlate hstep ↦
    notOverwritten_of_lateRefused h hsafe hlate hstep⟩

end Runs

/-! ### Runs of three nodes -/

/-- `a:1` is elected, and `b:1` gets a set of `k`. -/
def electAndForward : List (Label Db) :=
  .submit "a:1" (.electLeader "leader" "a:1") :: calls 1 0 ++ calls 13 1 ++ calls 2 0 ++
    .submit "b:1" (.set "k" "v") :: calls 2 2

/-- **A lost request** may be sent again: `b:1` does not reach `a:1`, wins an election, and sets the
key to `v` itself; `c:1` has not got its success message when a client sets the key to `w`. It comes
too late, and is refused. -/
theorem appliedOnce_trio : ∃ s s' : Net (db trio), Reach ResendsSafely (trio.start fun _ ↦ {}) s ∧
    s.step (.deliver 0) = some s' ∧ CommitsFor s 2 "k" "v" 6 ∧
    (∃ p ∈ s.acts[7]?, p.task = .set "k" "w" ∧ p.Returned {}) ∧
    AppliedOnce s ∧ NotOverwritten s (.deliver 0) s' := by
  obtain ⟨s, hs, hcommits, ⟨p, hp, htask, hret⟩, hlate, hnext⟩ : ∃ s : Net (db trio),
      Reach ResendsSafely (trio.start fun _ ↦ {}) s ∧ CommitsFor s 2 "k" "v" 6 ∧
      (∃ p ∈ s.acts[7]?, p.task = .set "k" "w" ∧ p.prog.result? = some ({} : Reply)) ∧
      LateRefused s (.deliver 0) ∧ (s.step (.deliver 0)).isSome :=
    Reach.exists_of_steps (by
      decide +kernel : ((trio.start fun _ ↦ {}).steps ResendsSafely
        (electAndForward ++ .step 2 .requestLost :: calls 1 2 ++ calls 1 3 ++ calls 13 4 ++
          calls 2 3 ++ calls 3 2 ++ calls 2 5 ++ calls 12 6 ++ .step 6 .late :: calls 1 5 ++
          calls 1 2 ++ .submit "b:1" (.set "k" "w") :: calls 2 7 ++ calls 13 8 ++
          calls 1 7)).any _ = true)
  obtain ⟨s', hs'⟩ := Option.isSome_iff_exists.1 hnext
  exact ⟨s, s', hs, hs', hcommits, ⟨p, hp, htask, Prog.result?_eq_some_iff.1 hret⟩,
    (appliedOnce_of_resendsSafely hs).1, (appliedOnce_of_resendsSafely hs).2 _ _ trivial hlate hs'⟩

/-- **A lost answer**: `a:1` has set the key to `v` for `b:1`, and then to `w` for a client of its
own. `b:1` has not got the first answer, wins an election, and sets the key to `v` once more: its
first success message puts `v` over `w` at `a:1`. -/
theorem not_appliedOnce_trio : ∃ s s' : Net (db trio),
    Reach ClientCalls (trio.start fun _ ↦ {}) s ∧ s.step (.step 10 .delivered) = some s' ∧
    ¬ AppliedOnce s' ∧ ¬ NotOverwritten s (.step 10 .delivered) s' ∧
    (∃ p ∈ s.acts[5]?, p.task = .set "k" "w" ∧ p.Returned {}) ∧
    (s.nodes "a:1").kvStore.lookup "k" = some "w" ∧
    (s'.nodes "a:1").kvStore.lookup "k" = some "v" := by
  obtain ⟨s, hs, ⟨p, hp, htask⟩, hfirst, hinforms,
      ⟨p', hp', htask', hret, q, hq, t, ht, hle⟩, hbefore, hnext⟩ :
      ∃ s : Net (db trio), Reach ClientCalls (trio.start fun _ ↦ {}) s ∧
      (∃ p ∈ s.acts[2]?, p.task = .set "k" "v") ∧ CommitsFor s 2 "k" "v" 4 ∧
      (s.executed? (.step 10 .delivered) =
          some ("a:1", .success { key := "k", value := "v", round := 2, pserverId := 1 }) ∧
        2 ∈ s.lineage 10 ∧
        ∃ p ∈ s.acts[10]?, p.task = .attemptConsensus (setRequest "k" "v")) ∧
      (∃ p ∈ s.acts[5]?, p.task = .set "k" "w" ∧ p.prog.result? = some ({} : Reply) ∧
        ∃ q ∈ s.acts[4]?, ∃ t ∈ q.stop, t ≤ p.start) ∧
      (s.nodes "a:1").kvStore.lookup "k" = some "w" ∧
      (s.step (.step 10 .delivered)).any (fun s' ↦ (CommitsFor s' 2 "k" "v" 4 ∧
        CommitsFor s' 2 "k" "v" 10 ∧ (∃ p ∈ s'.acts[2]?, p.task = .set "k" "v")) ∧
        (s'.nodes "a:1").kvStore.lookup "k" = some "v") :=
    Reach.exists_of_steps (by
      decide +kernel : ((trio.start fun _ ↦ {}).steps ClientCalls
        (electAndForward ++ calls 1 2 ++ calls 2 3 ++ calls 13 4 ++ calls 1 3 ++
          .submit "a:1" (.set "k" "w") :: calls 2 5 ++ calls 13 6 ++ calls 1 5 ++
          .step 2 .replyLost :: calls 1 2 ++ calls 1 7 ++ calls 13 8 ++ calls 2 7 ++ calls 3 2 ++
          calls 2 9 ++ calls 10 10)).any _ = true)
  obtain ⟨s', hs', hafter⟩ := (Option.any_eq_true _ _).1 hnext
  obtain ⟨⟨hfirst', hsecond', p₁, hp₁, htask₁⟩, hstore⟩ := of_decide_eq_true hafter
  refine ⟨s, s', hs, hs', fun honce ↦ ?_, fun hnot ↦ ?_,
    ⟨p', hp', htask', Prog.result?_eq_some_iff.1 hret⟩, hbefore, hstore⟩
  · exact absurd (honce 2 p₁ "k" "v" hp₁ htask₁ 4 10 hfirst' hsecond') (by decide)
  · have hsame := hnot 2 5 p p' "k" "v" "w" hp htask hp' htask' ⟨4, hfirst, q, t, hq, ht, hle⟩ "a:1"
      ⟨10, _, hinforms.1, hinforms.2.1, hinforms.2.2, .inl ⟨_, rfl⟩⟩
    rw [hsame, hbefore] at hstore
    exact absurd hstore (by decide)

/-- **A late success message**: `a:1` has set the key to `v` for `b:1` in round 1, and the success
message to `b:1` is still in flight. `b:1`, which has no round of the key in its log, wins an
election and sets the key to `w` in round 0. Then the message puts `v` over `w` at `b:1`. -/
theorem overwritten_late_trio : ∃ s s' : Net (db trio),
    Reach (fun s l ↦ ClientCalls s l ∧ ResendsSafely s l) (trio.start fun _ ↦ {}) s ∧
    s.step (.deliver 0) = some s' ∧ ¬ NotOverwritten s (.deliver 0) s' ∧
    (∃ p ∈ s.acts[9]?, p.task = .set "k" "w" ∧ p.Returned {}) ∧
    (s.nodes "b:1").kvStore.lookup "k" = some "w" ∧
    (s'.nodes "b:1").kvStore.lookup "k" = some "v" := by
  obtain ⟨s, hs, ⟨p, hp, htask⟩, hfirst, ⟨hex, hmem, hattempt, p₆, hp₆, e, he, hsent⟩,
      ⟨p', hp', htask', hret, q, hq, t, ht, hle⟩, hbefore, hnext⟩ :
      ∃ s : Net (db trio), Reach (fun s l ↦ ClientCalls s l ∧ ResendsSafely s l)
        (trio.start fun _ ↦ {}) s ∧
      (∃ p ∈ s.acts[4]?, p.task = .set "k" "v") ∧ CommitsFor s 4 "k" "v" 6 ∧
      (s.executed? (.deliver 0) =
          some ("b:1", .success { key := "k", value := "v", round := 1, pserverId := 1 }) ∧
        4 ∈ s.lineage 6 ∧
        (∃ p ∈ s.acts[6]?, p.task = .attemptConsensus (setRequest "k" "v")) ∧
        ∃ p ∈ s.acts[6]?, ∃ e ∈ p.hist, sentSuccess? e =
          some ("b:1", { key := "k", value := "v", round := 1, pserverId := 1 })) ∧
      (∃ p ∈ s.acts[9]?, p.task = .set "k" "w" ∧ p.prog.result? = some ({} : Reply) ∧
        ∃ q ∈ s.acts[6]?, ∃ t ∈ q.stop, t ≤ p.start) ∧
      (s.nodes "b:1").kvStore.lookup "k" = some "w" ∧
      (s.step (.deliver 0)).any (fun s' ↦ (s'.nodes "b:1").kvStore.lookup "k" = some "v") :=
    Reach.exists_of_steps (by
      decide +kernel : ((trio.start fun _ ↦ {}).steps
        (fun s l ↦ ClientCalls s l ∧ ResendsSafely s l)
        ([.submit "a:1" (.electLeader "leader" "a:1")] ++ calls 1 0 ++ calls 13 1 ++ calls 2 0 ++
          .submit "a:1" (.set "k" "u") :: calls 2 2 ++ calls 5 3 ++
          [.step 3 .requestLost, .step 3 .requestLost] ++ calls 1 2 ++
          .submit "b:1" (.set "k" "v") :: calls 3 4 ++ calls 2 5 ++ calls 5 6 ++
          .step 6 .requestLost :: calls 2 6 ++ .step 6 .requestLost :: calls 2 6 ++
          .step 6 .late :: calls 1 6 ++ calls 1 5 ++ calls 1 4 ++
          .submit "b:1" (.electLeader "leader" "b:1") :: calls 1 7 ++ calls 13 8 ++ calls 2 7 ++
          .submit "b:1" (.set "k" "w") :: calls 2 9 ++ calls 13 10 ++ calls 1 9)).any _ = true)
  obtain ⟨s', hs', hstore⟩ := (Option.any_eq_true _ _).1 hnext
  refine ⟨s, s', hs, hs', fun hnot ↦ ?_, ⟨p', hp', htask', Prog.result?_eq_some_iff.1 hret⟩,
    hbefore, of_decide_eq_true hstore⟩
  obtain ⟨x, rfl⟩ := sentSuccess?_eq_some_iff.1 hsent
  have hsame := hnot 4 9 p p' "k" "v" "w" hp htask hp' htask' ⟨6, hfirst, q, t, hq, ht, hle⟩ "b:1"
    ⟨6, _, hex, hmem, hattempt, .inr ⟨⟨_, rfl⟩, ⟨p₆, some "b:1", x, hp₆, rfl, he⟩⟩⟩
  have hafter := of_decide_eq_true hstore
  rw [hsame, hbefore] at hafter
  exact absurd hafter (by decide)

end ReplicatedDB
