import ReplicatedDB.Protocol.Agreement

/-!
# Validity

Where do the values come from that a client can see? A value travels from a client's `set` into
the request of an attempt, from there into logs, from a log into the request of another attempt
that adopts it, into stores by `success` and by recovery, and through forwarded requests to the
clients. `Valid` says of everything that holds a value (logs, stores, messages, answers heard)
that the value was submitted for its key, and of everything a client can see that a quorum has
acknowledged it to one attempt.
-/

namespace ReplicatedDB

open Rpc Rpc.Net

variable {cl : Cluster}

/-- A client has called `set`. -/
def Submitted (s : Net (db cl)) (key value : String) : Prop :=
  ∃ (j : ℕ) (p : Activation Db), s.acts[j]? = some p ∧ p.task = .set key value ∧
    p.origin = none

/-- One attempt has heard from a quorum of members that they accepted the value. -/
def QuorumAcked (s : Net (db cl)) (key value : String) : Prop :=
  ∃ (j : ℕ) (p : Activation Db) (r q : Request) (Q : Finset String), s.acts[j]? = some p ∧
    p.task = .attemptConsensus r ∧ IsQuorum cl.memberList Q ∧
    (∀ d ∈ Q, ∃ x : Status × Response, Heard p.hist d (.accept q) x ∧ x.1.Ok) ∧
    q.key = key ∧ q.value = value

/-- A get for the key has returned the value with error 0. -/
def Got (s : Net (db cl)) (key value : String) : Prop :=
  ∃ (j : ℕ) (p : Activation Db) (rep : Reply), s.acts[j]? = some p ∧ p.task = .get key ∧
    p.Returned rep ∧ rep.status.Ok ∧ rep.getResponse.error = 0 ∧ rep.getResponse.value = value

/-- Some replica has stored the value, or some get has returned it. -/
def Visible (s : Net (db cl)) (key value : String) : Prop :=
  (∃ d, (s.nodes d).kvStore.lookup key = some value) ∨ Got s key value

/-- The calls of clients: they set and get, and may trigger an election at a node. -/
def Task.OfClient (a : String) : Task → Prop
  | .set _ _ | .get _ => True
  | .electLeader key value => key = "leader" ∧ value = a
  | .attemptConsensus _ | .coordinate => False

instance (a : String) : DecidablePred (Task.OfClient a)
  | .set _ _ | .get _ => inferInstanceAs (Decidable True)
  | .electLeader key value => inferInstanceAs (Decidable (key = "leader" ∧ value = a))
  | .attemptConsensus _ | .coordinate => inferInstanceAs (Decidable False)

theorem ofClient_ne_coordinate {a : String} {t : Task} (h : t.OfClient a) : t ≠ .coordinate := by
  rintro rfl
  exact h

/-- Clients only make the calls of clients. -/
def ClientCalls (_ : Net (db cl)) : Label Db → Prop
  | .submit a t => t.OfClient a
  | _ => True

instance (s : Net (db cl)) : DecidablePred (ClientCalls s)
  | .submit a t => inferInstanceAs (Decidable (t.OfClient a))
  | .step _ _ | .deliver _ | .restart _ => inferInstanceAs (Decidable True)

/-! ### The invariant -/

/-- A value that may be proposed: for keys other than that of the leader, a submitted one. -/
def Legit (s : Net (db cl)) (key value : String) : Prop :=
  key = "leader" ∨ Submitted s key value

/-- A value that may be seen. -/
def Committed (s : Net (db cl)) (key value : String) : Prop :=
  Submitted s key value ∧ QuorumAcked s key value

/-- What a procedure is called with. -/
def TaskValid (s : Net (db cl)) : Task → Prop
  | .attemptConsensus r => Legit s r.key r.value
  | .electLeader key _ => key = "leader"
  | .set key value => Submitted s key value
  | _ => True

/-- What a message carries. -/
def ActValid (s : Net (db cl)) : Act → Prop
  | .accept q => Legit s q.key q.value
  | .success q => Legit s q.key q.value ∧ QuorumAcked s q.key q.value
  | .setKV key value => Committed s key value
  | _ => True

/-- What an answer carries. -/
def AnswerValid (s : Net (db cl)) : (c : Call Db) → c.Ret → Prop
  | .act _ (.propose q), (x : Status × Response) =>
    x.1.Ok → 0 < x.2.aserverId → Legit s q.key x.2.value
  | .act _ .getDB, (kv : KVStore) => ∀ key value, kv.lookup key = some value →
    Committed s key value
  | .act none (.getKV key), (x : String × ℤ) => x.2 = 0 → Committed s key x.1
  | .invoke _ (.get key), (rep : Reply) => rep.status.Ok → rep.getResponse.error = 0 →
    Committed s key rep.getResponse.value
  | _, _ => True

/-- Everything that holds a value is valid. -/
structure Valid (s : Net (db cl)) : Prop where
  tasks : ∀ (j : ℕ) p, s.acts[j]? = some p → TaskValid s p.task
  answers : ∀ (j : ℕ) p, s.acts[j]? = some p → ∀ e ∈ p.hist, AnswerValid s e.1 e.2
  late : ∀ m ∈ s.late, ActValid s m.2
  entries : ∀ d key round value, (s.nodes d).held key round = some value → Legit s key value
  stores : ∀ d key value, (s.nodes d).kvStore.lookup key = some value → Committed s key value

section Mono

variable {s s' : Net (db cl)} {l : Label Db} {key value : String}

theorem Submitted.mono (hs : Step s l s') (h : Submitted s key value) :
    Submitted s' key value := by
  obtain ⟨j, p, hp, htask, horigin⟩ := h
  obtain ⟨p', hp', -, htask', horigin', -⟩ := hs.keeps hp
  exact ⟨j, p', hp', htask'.trans htask, horigin'.trans horigin⟩

theorem QuorumAcked.mono (hs : Step s l s') (h : QuorumAcked s key value) :
    QuorumAcked s' key value := by
  obtain ⟨j, p, r, q, Q, hp, htask, hQ, hvotes, hrest⟩ := h
  obtain ⟨p', hp', -, htask', -, -, hhist, -⟩ := hs.keeps hp
  refine ⟨j, p', r, q, Q, hp', htask'.trans htask, hQ, fun d hd ↦ ?_, hrest⟩
  obtain ⟨x, hx, hok⟩ := hvotes d hd
  exact ⟨x, hx.mono hhist.subset, hok⟩

theorem Legit.mono (hs : Step s l s') (h : Legit s key value) : Legit s' key value :=
  h.imp_right (Submitted.mono hs)

theorem Committed.mono (hs : Step s l s') (h : Committed s key value) :
    Committed s' key value := ⟨h.1.mono hs, h.2.mono hs⟩

theorem TaskValid.mono (hs : Step s l s') {t : Task} (h : TaskValid s t) : TaskValid s' t := by
  cases t with
  | attemptConsensus r => exact Legit.mono hs h
  | electLeader k v => exact h
  | set k v => exact Submitted.mono hs h
  | get k => trivial
  | coordinate => trivial

theorem ActValid.mono (hs : Step s l s') {a : Act} (h : ActValid s a) : ActValid s' a := by
  cases a with
  | accept q => exact Legit.mono hs h
  | success q => exact ⟨h.1.mono hs, h.2.mono hs⟩
  | setKV k v => exact Committed.mono hs h
  | _ => trivial

theorem AnswerValid.mono (hs : Step s l s') {c : Call Db} {x : c.Ret}
    (h : AnswerValid s c x) : AnswerValid s' c x := by
  rcases c with ⟨dest, a⟩ | ⟨dest, t⟩
  · cases a with
    | propose q => exact fun hok hpos ↦ (h hok hpos).mono hs
    | getDB => exact fun k v hkv ↦ (h k v hkv).mono hs
    | getKV k =>
      cases dest with
      | none => exact fun herr ↦ (h herr).mono hs
      | some d => trivial
    | _ => trivial
  · cases t with
    | get k => exact fun hok herr ↦ (h hok herr).mono hs
    | _ => trivial

end Mono

/-! ### Steps keep the invariant -/

section Step

variable {C : Net (db cl) → Label Db → Prop} {s₀ s s' : Net (db cl)} {l : Label Db}

/-- A procedure calls others with valid arguments. -/
theorem TaskValid.call {me : String} {t t' : Task} {h : History} {dest : Option String}
    (ht : TaskValid s t) (he : emits cl me t h (.invoke dest t')) : TaskValid s t' := by
  -- forwarding hands on the same procedure, or elects
  have hforward : forwardEmits cl.memberList me t h (.invoke dest t') → TaskValid s t' := by
    intro hf
    cases dest with
    | none => exact absurd hf id
    | some d =>
      obtain ⟨-, ⟨rfl, -⟩ | ⟨rfl, -⟩⟩ := hf
      · exact ht
      · exact rfl
  cases t with
  | attemptConsensus r => cases dest <;> exact absurd he id
  | electLeader key value =>
    cases dest <;> cases t' <;> try exact absurd he id
    obtain ⟨rfl, -⟩ := he
    exact .inl ht
  | set key value =>
    cases dest with
    | some d => exact hforward he
    | none =>
      cases t' <;> try exact absurd he id
      obtain ⟨rfl, -⟩ := he
      exact .inr ht
  | get key => exact hforward (by cases dest <;> exact he)
  | coordinate =>
    cases dest with
    | none => exact absurd he id
    | some d =>
      obtain ⟨-, rfl⟩ := he
      exact rfl

/-- The value of a request that an attempt sends is its own, or reported to it. -/
theorem Adopts.legit {r q : Request} {h : History} (ha : Adopts r h q)
    (ht : Legit s r.key r.value) (hans : ∀ e ∈ h, AnswerValid s e.1 e.2)
    (hkey : ∀ d p, Sent h d (.propose p) → p.key = r.key) : Legit s q.key q.value := by
  rcases ha.value with ⟨-, hval, -⟩ | ⟨d, p, x, hx, hok, hpos, -, hval⟩
  · rw [ha.key, hval]
    exact ht
  · rw [ha.key, hval, ← hkey d p ⟨x, hx⟩]
    exact hans _ hx hok hpos

/-- An attempt proposes for its own key. -/
theorem key_of_sent_propose {p : Activation Db} {r : Request} (hp : (contract cl).Lawful p)
    (htask : p.task = .attemptConsensus r) {d : String} {q : Request}
    (hsent : Sent p.hist d (.propose q)) : q.key = r.key := by
  obtain ⟨x, hx⟩ := hsent
  obtain ⟨h₁, -, hemit, -⟩ := hp.emits_of_mem hx
  rw [htask] at hemit
  obtain ⟨-, rfl, -⟩ := hemit
  rfl

/-- **Messages are valid.** -/
theorem Valid.requested (h : Valid s)
    (hlawful : ∀ (j : ℕ) (p : Activation Db), s.acts[j]? = some p → (contract cl).Lawful p)
    {d : String} {a : Act} (hreq : s.Requested d a) : ActValid s a := by
  rcases hreq with ⟨i, p, dest, k, hp, hc, -⟩ | hm
  case inr => exact h.late _ hm
  have hemit := (hlawful i p hp).emits hc
  have htv := h.tasks i p hp
  rcases htask : p.task with r | ⟨key, value⟩ | ⟨key, value⟩ | key | _ <;> rw [htask] at hemit htv
  · have hlegit : ∀ q, Adopts r p.hist q → Legit s q.key q.value := fun q hq ↦
      hq.legit htv (h.answers i p hp) fun d q' ↦ key_of_sent_propose (hlawful i p hp) htask
    cases dest with
    | none => cases a <;> trivial
    | some d =>
      cases a with
      | accept q =>
        obtain ⟨-, hq, -⟩ := hemit
        exact hlegit q hq
      | success q =>
        obtain ⟨-, -, qa, ⟨hq, -, Q, hQ, hvotes⟩, rfl⟩ := hemit
        refine ⟨?_, i, p, r, qa, Q, hp, htask, hQ, hvotes, hq.key, rfl⟩
        have := hlegit qa hq
        rwa [hq.key] at this
      | setKV key value => exact absurd hemit id
      | _ => trivial
  · cases dest <;> cases a <;> trivial
  · cases dest <;> cases a <;> trivial
  · cases dest <;> cases a <;> trivial
  · cases dest with
    | some d => cases a <;> trivial
    | none =>
      cases a with
      | setKV key value =>
        obtain ⟨d, kv, hkv, hlookup⟩ := hemit
        exact h.answers i p hp _ hkv key value hlookup
      | _ => trivial

/-- What a get returns was heard. -/
theorem committed_of_returned {t : Net (db cl)} {p : Activation Db} {key : String}
    {rep : Reply} (hp : (contract cl).Lawful p) (htask : p.task = .get key)
    (hans : ∀ e ∈ p.hist, AnswerValid t e.1 e.2) (hret : p.Returned rep)
    (hok : rep.status.Ok) (herr : rep.getResponse.error = 0) :
    Committed t key rep.getResponse.value := by
  have hreturns := hp.returns hret
  rw [htask] at hreturns
  rcases hreturns with ⟨x, hhist, rfl⟩ | ⟨-, rfl⟩ | ⟨-, hfwd⟩
  · have hx : AnswerValid t (.act none (.getKV key)) x := 
      hans ⟨.act none (.getKV key), x⟩ (by rw [hhist]; simp)
    by_cases h0 : x.2 = 0
    · rw [getAnswer, if_neg (not_not.2 h0)]
      exact hx h0
    · rw [getAnswer, if_pos h0] at herr
      exact absurd herr (by decide)
  · exact absurd hok (Status.not_ok_aborted _)
  · obtain ⟨d, rep', hrep', hok', heq⟩ := hfwd hok
    rw [← heq] at herr ⊢
    exact hans _ hrep' hok' herr

/-- **Answers are valid.** -/
theorem Valid.answers_step (h : Valid s) (hinit : s₀.acts = []) (hr : Reach C s₀ s)
    (hs : Step s l s') {j : ℕ} {p : Activation Db} (hp : s'.acts[j]? = some p) :
    ∀ e ∈ p.hist, AnswerValid s e.1 e.2 := by
  intro e he
  obtain ⟨p₀, hp₀, -, -, he | ⟨c, k, x, -, hc, rfl, hans⟩⟩ := hs.event hp he
  · exact h.answers j p₀ hp₀ e he
  rcases c with ⟨dest, a⟩ | ⟨dest, t⟩
  · obtain ⟨o, -, ho, rfl⟩ := hans
    cases a with
    | propose q =>
      cases o with
      | delivered =>
        exact fun hok hpos ↦ h.entries _ q.key q.round _ (held_of_propose hok hpos)
      | _ => exact fun hok ↦ absurd hok Status.not_ok_unavailable
    | getDB =>
      cases o with
      | delivered => exact fun key value hkv ↦ h.stores _ key value hkv
      | _ =>
        intro key value hkv
        cases hkv
    | getKV key =>
      cases dest with
      | some d => trivial
      | none =>
        obtain rfl := ho.resolve_left (by simp)
        intro herr
        refine h.stores p₀.node key _ (KVStore.getKV_eq_iff.1 ?_)
        exact Prod.ext rfl herr
    | _ => trivial
  · cases t with
    | get key =>
      intro hok herr
      rcases hr.answers_invoke hinit hp₀ hc hans with ⟨i, q, hq, htask, -, -, hret⟩ | ⟨-, rfl⟩
      · exact committed_of_returned ((contract cl).lawful hinit hr i q hq) htask
          (h.answers i q hq) hret hok herr
      · exact absurd hok Status.not_ok_unavailable
    | _ => trivial

/-- **What becomes visible** was committed before. -/
theorem Valid.visible_step (h : Valid s) (hinit : s₀.acts = []) (hlate : s₀.late = [])
    (hr : Reach C s₀ s) (hr' : Reach C s₀ s') (hs : Step s l s') {key value : String}
    (hv : Visible s' key value) : Committed s key value := by
  rcases hv with ⟨d, hd⟩ | ⟨j, p, rep, hp, htask, hret, hok, herr, rfl⟩
  · rcases replica_step hs d with hnode | ⟨a, hex, hnode⟩ | ⟨-, hnode⟩ <;> rw [hnode] at hd
    · exact h.stores d key value hd
    · have hreq := hs.executed hex
      have hvalid := h.requested ((contract cl).lawful hinit hr) hreq
      -- what is looked up was stored before, or has just been set
      have hset : ∀ k v, Committed s k v → ((s.nodes d).kvStore.setKV k v).lookup key =
          some value → Committed s key value := by
        intro k v hkv hlookup
        by_cases hkey : key = k
        · subst hkey
          rw [KVStore.lookup_setKV_self] at hlookup
          exact Option.some.inj hlookup ▸ hkv
        · rw [KVStore.lookup_setKV_of_ne _ _ hkey] at hlookup
          exact h.stores d key value hlookup
      rcases kvStore_act a (s.nodes d) (sound_of_requested hinit hlate hr hreq) with
        heq | ⟨q, rfl, -, hkey, heq⟩ | ⟨k, v, rfl, heq⟩ <;> rw [heq] at hd
      · exact h.stores d key value hd
      · exact hset _ _ ⟨hvalid.1.resolve_left hkey, hvalid.2⟩ hd
      · exact hset _ _ hvalid hd
    · cases hd
  · exact committed_of_returned ((contract cl).lawful hinit hr' j p hp) htask
      (h.answers_step hinit hr hs hp) hret hok herr

/-- **A step keeps the invariant.** -/
theorem Valid.step (h : Valid s) (hinit : s₀.acts = []) (hlate : s₀.late = [])
    (hr : Reach C s₀ s) (hr' : Reach C s₀ s') (hclient : ClientCalls s l) (hs : Step s l s') :
    Valid s' := by
  have hlawful := (contract cl).lawful hinit hr
  refine ⟨fun j p hp ↦ ?_, fun j p hp e he ↦ (h.answers_step hinit hr hs hp e he).mono hs,
    fun m hm ↦ (h.requested hlawful (hs.mem_late hm)).mono hs, fun d key round value hd ↦ ?_,
    fun d key value hd ↦
      (h.visible_step hinit hlate hr hr' hs (.inl ⟨d, hd⟩)).mono hs⟩
  · -- the procedures that are running
    rcases hs.activation hp with hp | ⟨rfl, a, t, origin, rfl, hopen⟩ | ⟨p₀, hp₀, rfl, -⟩ |
      ⟨p₀, hp₀, rfl, -⟩ | ⟨p₀, c, k, r, hp₀, -, -, rfl, -⟩
    · exact (h.tasks j p hp).mono hs
    · rcases hopen with ⟨rfl, rfl⟩ | ⟨-, rfl, -⟩ | ⟨i, p₀, dest, k, -, hp₀, -, hc, -⟩
      · cases t with
        | set key value => exact ⟨_, _, hp, rfl, rfl⟩
        | electLeader key value => exact hclient.1
        | get key => trivial
        | _ => exact absurd hclient id
      · trivial
      · exact ((h.tasks i p₀ hp₀).call ((hlawful i p₀ hp₀).emits hc)).mono hs
    · exact (h.tasks j p₀ hp₀).mono hs
    · exact (h.tasks j p₀ hp₀).mono hs
    · exact (h.tasks j p₀ hp₀).mono hs
  · -- the entries of the logs
    refine Legit.mono hs ?_
    rcases replica_step hs d with hnode | ⟨a, hex, hnode⟩ | ⟨-, hnode⟩ <;> rw [hnode] at hd
    · exact h.entries d key round value hd
    · have hreq := hs.executed hex
      have hvalid := h.requested hlawful hreq
      have hsound := sound_of_requested hinit hlate hr hreq
      by_cases hq : ∃ q, a.write? = some q ∧ q.key = key ∧ q.round = round
      · obtain ⟨q, hw, rfl, rfl⟩ := hq
        rw [held_act_self hsound hw] at hd
        obtain rfl := Option.some.inj hd
        cases a <;> cases hw
        · exact hvalid
        · exact hvalid.1
      · rw [held_act_of_ne fun q hw hslot ↦ hq ⟨q, hw, hslot⟩] at hd
        exact h.entries d key round value hd
    · cases hd

end Step

/-- **Only submitted values that a quorum has acknowledged become visible.** In every run of a
cluster that starts with fresh nodes, whatever is visible after a step was committed before. -/
theorem committed_of_visible {s s' : Net (db cl)} {l : Label Db} {key value : String}
    (h : Reach ClientCalls (cl.start fun _ ↦ {}) s) (hC : ClientCalls s l)
    (hs : s.step l = some s') (hv : Visible s' key value) :
    Submitted s key value ∧ QuorumAcked s key value := by
  have hvalid : Valid s := by
    refine h.invariant ⟨by simp, by simp, by simp, ?_, ?_⟩ fun s l s' hr hr' ih hC hs ↦
      ih.step rfl rfl hr hr' hC hs
    · intro d key round value hd
      cases hd
    · intro d key value hd
      cases hd
  exact hvalid.visible_step rfl rfl h (h.tail ⟨l, hC, hs⟩) (.of_step hs) hv

/-- `a:1` is elected and sets `k` to `v`; the next call is its first `success`. -/
theorem committed_trio : ∃ s s' : Net (db trio), s.step (.step 3 .delivered) = some s' ∧
    Visible s' "k" "v" ∧ Submitted s "k" "v" ∧ QuorumAcked s "k" "v" := by
  obtain ⟨s, hs, hv⟩ : ∃ s, Reach ClientCalls (trio.start fun _ ↦ {}) s ∧
      (s.step (.step 3 .delivered)).any
        (fun s' ↦ (s'.nodes "a:1").kvStore.lookup "k" = some "v") = true :=
    Reach.exists_of_steps (by
      decide +kernel : ((trio.start fun _ ↦ {}).steps ClientCalls
        ([.submit "a:1" (.electLeader "leader" "a:1")] ++ calls 1 0 ++ calls 13 1 ++ calls 2 0 ++
          [.submit "a:1" (.set "k" "v")] ++ calls 2 2 ++ calls 10 3)).any _ = true)
  obtain ⟨s', hs', hv⟩ := (Option.any_eq_true _ _).1 hv
  have hvis : Visible s' "k" "v" := .inl ⟨"a:1", of_decide_eq_true hv⟩
  exact ⟨s, s', hs', hvis, committed_of_visible hs (l := .step 3 .delivered) trivial hs' hvis⟩

end ReplicatedDB
