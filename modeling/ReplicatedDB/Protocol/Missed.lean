import ReplicatedDB.Protocol.Recovery

/-!
# Who has missed a set

Nothing in an election looks at the stores, so whether a leader has stored the sets of a key depends
on what has become of their success messages. A `Holder` is what may miss a set: the store of a
node, or the copy of a store that `coordinate` has asked for and sets pair by pair.

The record of `track` is kept beside the run. It is about messages and restarts only: which success
messages arrive, with the own value of their attempt or an adopted one, who restarts, and which
copies of stores are made and set.

* `store_of_step`: what it takes for a store to have missed nothing after a step.
* `copy_of_call`, `copy_of_other`: the same for a copy.
* `Holder.Has.step`: what is not touched in a step holds what it held.

The record says nothing about values; what it means for the values stored is the subject of
`Protocol.Completeness`.
-/

namespace ReplicatedDB

open Rpc Rpc.Net

variable {cl : Cluster}

/-! ### Who has missed a set -/

/-- What may miss a set of the key: the store of a node, or the copy of a store that the activation
`i` of `coordinate` has asked for. -/
inductive Holder where
  | store (d : String)
  | copy (i : ℕ)
deriving DecidableEq

/-- An attempt on the key. -/
def OnKey (key : String) (p : Activation Db) : Prop := ∃ r ∈ p.task.request?, r.key = key

instance (key : String) : DecidablePred (OnKey key) := fun p ↦
  inferInstanceAs (Decidable (∃ r ∈ p.task.request?, r.key = key))

/-- The attempt on the key is in progress, and has sent its success message to the node. -/
def Informing (key d : String) (p : Activation Db) : Prop :=
  OnKey key p ∧ ¬ p.Done ∧ ∃ e ∈ p.hist, ∃ m ∈ sentSuccess? e, m.1 = d

instance (key d : String) : DecidablePred (Informing key d) := fun p ↦
  inferInstanceAs (Decidable (_ ∧ _ ∧ ∃ e ∈ p.hist, ∃ m ∈ sentSuccess? e, m.1 = d))

/-- The node has been sent the success message of a set of the key that is in progress. -/
def Informed (key : String) (s : Net (db cl)) (d : String) : Prop := ∃ p ∈ s.acts, Informing key d p

/-- A success message of a set of the key has been sent. -/
def WasSet (key : String) (s : Net (db cl)) : Prop :=
  ∃ p ∈ s.acts, OnKey key p ∧ ∃ e ∈ p.hist, (sentSuccess? e).isSome

instance (key : String) (s : Net (db cl)) (d : String) : Decidable (Informed key s d) :=
  inferInstanceAs (Decidable (∃ p ∈ s.acts, Informing key d p))

instance (key : String) (s : Net (db cl)) : Decidable (WasSet key s) :=
  inferInstanceAs (Decidable (∃ p ∈ s.acts, OnKey key p ∧ ∃ e ∈ p.hist, (sentSuccess? e).isSome))

/-- The message carries the own value of the attempt that sends it. -/
def sendsOwn (p : Activation Db) (q : Request) : Bool :=
  p.task.request?.any fun r ↦ r.value = q.value

/-- A success message about the key is sent to the node `d`, which misses the set unless it gets
the message. Copies of stores that were made before have missed it. -/
def missedSuccess (d : String) (arrives : Bool) (g : Holder → Bool) : Holder → Bool
  | .store d' => if d' = d then !arrives else g (.store d')
  | .copy _ => true

/-- The node `a` restarts. Its store has missed all sets, and whoever was informed by an attempt
that is cut off has a value that nobody will acknowledge. -/
def missedRestart (key : String) (s : Net (db cl)) (a : String) (g : Holder → Bool) : Holder → Bool
  | .store d => g (.store d) || decide (d = a ∧ WasSet key s) ||
      decide (∃ p ∈ s.acts, p.node = a ∧ Informing key d p)
  | .copy i => g (.copy i)

/-- **The record** of what has missed a set of the key. A success message is missed if it is not
executed while its sender waits, if a larger round is logged, or if it carries an adopted value. A
copy of a store has missed what the store has, and so has a store that is overwritten with the
copy; what was sent to a node by a set that is still in progress does not count yet. A message that
is executed late overwrites a store. -/
def track (key : String) (s : Net (db cl)) (l : Label Db) (_ : Net (db cl)) (g : Holder → Bool) :
    Holder → Bool :=
  match l with
  | .step i o =>
    s.acts[i]?.elim g fun p ↦
      match p.prog.action? with
      | some (some d, .success q) =>
        if q.key = key then
          missedSuccess d (decide (o.Executed ∧ Current q (s.nodes d)) && sendsOwn p q) g
        else g
      | some (some L, .getDB) =>
        Function.update g (.copy i)
          (decide (o ≠ .delivered) || g (.store L) || decide (Informed key s L))
      | some (none, .setKV key' _) =>
        if key' = key then
          Function.update g (.store p.node) (g (.copy i) || decide (Informed key s p.node))
        else g
      | _ => g
  | .deliver n =>
    s.late[n]?.elim g fun m ↦
      match m.2 with
      | .success q =>
        if q.key = key ∧ Current q (s.nodes m.1) then Function.update g (.store m.1) true else g
      | _ => g
  | .restart a => missedRestart key s a g
  | .submit _ _ => g

/-! ### What `coordinate` asks for -/

/-- No store was asked for. -/
def NotFetched (h : History) : Prop := ∀ L kv, ¬ Heard h L .getDB kv

/-- Once it has got a store, `coordinate` only copies it. -/
def fetchEmits (h : History) (c : Call Db) : Prop :=
  NotFetched h ∨ ∃ key value, c = .act none (.setKV key value)

theorem NotFetched.append {h : History} (hn : NotFetched h) {e : Event Db}
    (hdb : ∀ L kv, e ≠ ⟨.act (some L) Act.getDB, kv⟩) : NotFetched (h ++ [e]) := by
  intro L kv hL
  rcases List.mem_append.1 hL with hL | hL
  · exact hn L kv hL
  · exact hdb L kv (List.mem_singleton.1 hL).symm

section Coordinate

variable {members : List String} {flags : Flags} {me : String}

/-- The promise of `coordinate`, for a program that comes after the history. -/
abbrev FetchesOnce {α : Type} (p : Program α) (h : History) : Prop :=
  Sat (fun _ _ ↦ True) fetchEmits (fun _ _ ↦ True) p h

/-- The store that a node has got is copied, and no other one is asked for. -/
theorem copy_fetches (kv : KVStore) (h : History) : FetchesOnce (do
    kv.entries.foldlM (fun _ e ↦ Local.setKV e.1 e.2) ()
    pure {} : Program Reply) h := by
  refine Sat.bind ((Sat.foldlM (fun _ _ _ ↦ True) ?_ kv.entries () h trivial).mono
    fun _ _ _ ↦ trivial)
  rintro ⟨key, value⟩ rest _ h' -
  exact ⟨.inr ⟨key, value, rfl⟩, fun _ _ ↦ trivial⟩

theorem recover_fetches {h : History} (hn : NotFetched h) : FetchesOnce (recover members me) h := by
  have hread : ∀ {h : History} addr, NotFetched h → NotFetched (h ++ [readLeaderIs addr]) :=
    fun addr hn ↦ hn.append nofun
  refine ⟨.inl hn, fun addr _ ↦ Sat.ite (fun _ ↦ trivial) fun _ ↦ ?_⟩
  replace hn := hread addr hn
  refine ⟨.inl hn, fun addr' _ ↦ Sat.ite (fun _ ↦ trivial) fun _ ↦ ?_⟩
  replace hn := hread addr' hn
  refine ⟨.inl hn, fun leader _ ↦ Sat.ite (fun _ ↦ ?_) fun _ ↦ trivial⟩
  exact ⟨.inl (hread leader hn), fun kv _ ↦ copy_fetches kv _⟩

theorem askLeaders_fetches {h : History} (hn : NotFetched h) :
    Sat (fun _ _ ↦ True) fetchEmits (fun h' _ ↦ NotFetched h') (askLeaders members) h := by
  refine Sat.foldlM (fun _ _ h' ↦ NotFetched h') ?_ _ _ _ hn
  rintro d rest v h' hn
  exact ⟨.inl hn, fun x _ ↦ hn.append nofun⟩

theorem coordinate_fetches : FetchesOnce (coordinate members flags me) [] := by
  have hn : NotFetched [] := fun _ _ ↦ nofun
  have hwrite : ∀ {h : History} leader, NotFetched h → FetchesOnce (do
      Local.writeLeader leader
      recover members me) h :=
    fun leader hn ↦ ⟨.inl hn, fun _ _ ↦ recover_fetches (hn.append nofun)⟩
  have helect : ∀ {h : History}, NotFetched h →
      FetchesOnce (coordinate.orElect members me flags.election) h := fun hn ↦
    Sat.ite (fun _ ↦ ⟨.inl hn, fun _ _ ↦ Sat.ite (fun _ ↦ trivial) fun _ ↦
      recover_fetches (hn.append nofun)⟩) fun _ ↦ recover_fetches hn
  refine Sat.ite (fun _ ↦ hwrite me hn) fun _ ↦ Sat.bind ((askLeaders_fetches hn).mono ?_)
  rintro h ⟨leaders, liveReplicas⟩ hn
  match leaders with
  | [leader] => exact Sat.ite (fun _ ↦ hwrite leader hn) fun _ ↦ helect hn
  | [] => exact helect hn
  | _ :: _ :: _ => exact helect hn

end Coordinate

/-- **`coordinate` asks for a store once.** -/
def fetchContract (cl : Cluster) : Rpc.Contract (db cl) where
  rely _ _ := True
  emits _ t h c := t = .coordinate → fetchEmits h c
  returns _ _ _ _ := True
  rely_act _ _ _ := trivial
  rely_lost _ _ := trivial
  rely_invoke _ _ _ := trivial
  body_sat me t := by
    cases t with
    | coordinate => exact coordinate_fetches.weaken fun _ _ h _ ↦ h
    | _ => exact Sat.of_forall (fun _ _ ↦ nofun) (fun _ _ ↦ trivial) _ _

section Runs

variable {C : Net (db cl) → Label Db → Prop} {key value : String} {s s' : Net (db cl)}
  {l : Label Db} {g : Holder → Bool}

/-! ### What a step moves -/

/-- The store or the copy holds the value. -/
def Holder.Has (s : Net (db cl)) (key value : String) : Holder → Prop
  | .store d => (s.nodes d).kvStore.lookup key = some value
  | .copy i => ∀ (p : Activation Db) L kv, s.acts[i]? = some p → Heard p.hist L .getDB kv →
      kv.lookup key = some value

/-- The step writes the store, or fetches the copy. -/
def Holder.Touched (s : Net (db cl)) (l : Label Db) (key : String) : Holder → Prop
  | .store d => (∃ q, s.executed? l = some (d, .success q) ∧ q.key = key ∧
      Current q (s.nodes d)) ∨ (∃ v, s.executed? l = some (d, .setKV key v)) ∨ l = .restart d
  | .copy i => ∃ (o : Outcome) (p : Activation Db) (L : String) (k : KVStore → Program Reply),
      l = .step i o ∧ s.acts[i]? = some p ∧ p.prog = .call (.act (some L) Act.getDB) k

section Moves

variable {x : Holder} {i : ℕ} {o : Outcome}

/-- What is not touched holds what it held. -/
theorem Holder.Has.step (h : Reach C (cl.start fun _ ↦ {}) s) (hs : Step s l s')
    (hx : ¬ x.Touched s l key) (hhas : x.Has s key value) : x.Has s' key value := by
  cases x with
  | store d =>
    have hhas : (s.nodes d).kvStore.lookup key = some value := hhas
    change (s'.nodes d).kvStore.lookup key = some value
    rcases replica_step hs d with hnode | ⟨a, hex, hnode⟩ | ⟨rfl, -⟩
    · rw [hnode, hhas]
    · rw [hnode]
      rcases kvStore_act a (s.nodes d) (sound_of_requested rfl rfl h (hs.executed hex)) with
        hkv | ⟨q, rfl, hcur, -, hkv⟩ | ⟨k, v, rfl, hkv⟩
      · rw [hkv, hhas]
      · rw [hkv, KVStore.lookup_setKV_of_ne, hhas]
        rintro rfl
        exact hx (.inl ⟨q, hex, rfl, hcur⟩)
      · rw [hkv, KVStore.lookup_setKV_of_ne, hhas]
        rintro rfl
        exact hx (.inr (.inl ⟨v, hex⟩))
    · exact absurd (.inr (.inr rfl)) hx
  | copy i =>
    intro p' L kv hp' hL
    obtain ⟨p, hp, -, -, hL | ⟨c, k, r, -, hc, heq, hans⟩⟩ := hs.event hp' hL
    · exact hhas p L kv hp hL
    · obtain ⟨rfl, -⟩ := Sigma.mk.inj heq
      obtain ⟨o, rfl, -⟩ := hans
      exact absurd ⟨o, p, L, k, rfl, hp, hc⟩ hx

/-- Only `coordinate` asks for a store. -/
theorem getDB_of_emits {me : String} {t : Task} {h : History} {dest : Option String}
    (he : emits cl me t h (.act dest .getDB)) : t = .coordinate := by
  cases t with
  | coordinate => rfl
  | _ => cases dest <;> exact absurd he id

/-- Only `coordinate` copies, from a store that it has got. -/
theorem setKV_of_lawful {p : Activation Db} (hp : (contract cl).Lawful p) {dest : Option String}
    {k : Unit → Program Reply} (hc : p.prog = .call (.act dest (Act.setKV key value)) k) :
    dest = none ∧ ∃ L kv, Heard p.hist L .getDB kv ∧ kv.lookup key = some value := by
  obtain ⟨rfl, htask⟩ := setKV_of_emits (hp.emits hc)
  have hemit := hp.emits hc
  rw [htask] at hemit
  exact ⟨rfl, hemit⟩

/-- What an activation calls at its own node is executed at once. -/
theorem executed_of_local (hs : Step s (.step i o) s') {p : Activation Db}
    (hp : s.acts[i]? = some p) {a : Act} {k : a.Ret → Program Reply}
    (hc : p.prog = .call (.act none a) k) : s.executed? (.step i o) = some (p.node, a) := by
  cases hs with
  | act hp₁ _ hc₁ ho =>
    obtain rfl := Option.some.inj (hp.symm.trans hp₁)
    obtain ⟨hcall, -⟩ := Prog.call.inj (hc.symm.trans hc₁)
    obtain ⟨rfl, -⟩ := Call.act.inj hcall
    exact executed?_of_executed hp hc (.inl (ho.resolve_left (by simp)))
  | spawn hp₁ _ hc₁ _ | back hp₁ _ hc₁ _ _ _ | giveUp hp₁ _ hc₁ _ =>
    obtain rfl := Option.some.inj (hp.symm.trans hp₁)
    cases (Prog.call.inj (hc.symm.trans hc₁)).1

end Moves

/-! ### What a step sends -/

/-- What was sent to a node was sent before the step, or is sent in it. -/
theorem sent_step (hs : Step s l s') {j : ℕ} {p q : Activation Db} (hp : s.acts[j]? = some p)
    (hq : s'.acts[j]? = some q) {d : String} (hsent : ∃ x, Sent q.hist d (.success x)) :
    (∃ x, Sent p.hist d (.success x)) ∨
      ∃ (o : Outcome) (x : Request) (k : Status → Program Reply), l = .step j o ∧
        p.prog = .call (.act (some d) (.success x)) k := by
  obtain ⟨x, y, hy⟩ := hsent
  obtain ⟨p', hp', -, -, hy | ⟨c, k, z, -, hc, heq, hans⟩⟩ := hs.event hq hy
  all_goals obtain rfl := Option.some.inj (hp.symm.trans hp')
  · exact .inl ⟨x, y, hy⟩
  · obtain ⟨rfl, -⟩ := Sigma.mk.inj heq
    obtain ⟨o, rfl⟩ := hans.label
    exact .inr ⟨o, x, k, rfl, hc⟩

theorem sent_of_informing {d : String} {p : Activation Db} (h : Informing key d p) :
    ∃ x, Sent p.hist d (.success x) := by
  obtain ⟨-, -, e, he, ⟨d', x⟩, hx, rfl⟩ := h
  obtain ⟨y, rfl⟩ := sentSuccess?_eq_some_iff.1 hx
  exact ⟨x, y, he⟩

theorem informing_of_sent {d : String} {p : Activation Db} {r : Request}
    (ht : p.task = .attemptConsensus r) (hkey : r.key = key) (hdone : ¬ p.Done)
    (hsent : ∃ x, Sent p.hist d (.success x)) : Informing key d p := by
  obtain ⟨x, y, hy⟩ := hsent
  exact ⟨⟨r, request?_eq_some_iff.2 ht, hkey⟩, hdone, _, hy, _,
    sentSuccess?_eq_some_iff.2 ⟨y, rfl⟩, rfl⟩

/-- An attempt that has informed somebody only informs from then on. -/
theorem success_of_sent {p : Activation Db} (hp : (contract cl).Lawful p) {r : Request}
    (ht : p.task = .attemptConsensus r) {d : String} (hsent : ∃ x, Sent p.hist d (.success x))
    {c : Call Db} {k : c.Ret → Program Reply} (hc : p.prog = .call c k) :
    ∃ d' q, c = .act (some d') (.success q) := by
  have hemit := hp.emits hc
  obtain ⟨x, y, hy⟩ := hsent
  obtain ⟨h₁, hpre, hsuccess, -⟩ := hp.emits_of_mem hy
  rw [ht] at hemit hsuccess
  obtain ⟨-, ⟨⟨d₁, hasked⟩, -⟩, qa, ⟨-, -, Q, hQ, hvotes⟩, -⟩ := hsuccess
  obtain ⟨d₂, hd₂⟩ := hQ.nonempty cl.ne_nil
  obtain ⟨z, hz, -⟩ := hvotes d₂ hd₂
  rcases c with ⟨_ | d', a⟩ | ⟨dest, t⟩
  · cases a with
    | getLog _ =>
      rw [hemit.2] at hy
      cases hy
    | _ => exact absurd hemit id
  · cases a with
    | ping => exact absurd (hasked.mono hpre.subset) (hemit.2.2 d₁ _)
    | propose q => exact absurd (hz.sent.mono hpre.subset) (hemit.2.2.2 d₂ _)
    | accept q => exact absurd ⟨y, hy⟩ (hemit.2.2.2.2 d _)
    | success q => exact ⟨d', q, rfl⟩
    | _ => exact absurd hemit id
  · cases dest <;> exact absurd hemit id

/-! ### What a step adds to the record -/

section Track

variable {i : ℕ} {o : Outcome} {p : Activation Db} {c : Call Db} {k : c.Ret → Program Reply}

theorem track_success (hp : s.acts[i]? = some p) {d : String} {q : Request}
    {k : Status → Program Reply} (hc : p.prog = .call (.act (some d) (.success q)) k) :
    track key s (.step i o) s' g = if q.key = key then
      missedSuccess d (decide (o.Executed ∧ Current q (s.nodes d)) && sendsOwn p q) g else g := by
  simp only [track, hp, hc, Option.elim_some, Prog.action?_act]

theorem track_getDB (hp : s.acts[i]? = some p) {L : String} {k : KVStore → Program Reply}
    (hc : p.prog = .call (.act (some L) .getDB) k) :
    track key s (.step i o) s' g = Function.update g (.copy i)
      (decide (o ≠ .delivered) || g (.store L) || decide (Informed key s L)) := by
  simp only [track, hp, hc, Option.elim_some, Prog.action?_act]

theorem track_setKV (hp : s.acts[i]? = some p) {key' v : String} {k : Unit → Program Reply}
    (hc : p.prog = .call (.act none (.setKV key' v)) k) :
    track key s (.step i o) s' g = if key' = key then
      Function.update g (.store p.node) (g (.copy i) || decide (Informed key s p.node)) else g := by
  simp only [track, hp, hc, Option.elim_some, Prog.action?_act]

/-- The calls that are recorded, and the others. -/
theorem recorded_cases (c : Call Db) : (∃ d q, c = .act (some d) (.success q)) ∨
    (∃ L, c = .act (some L) .getDB) ∨ (∃ key v, c = .act none (.setKV key v)) ∨
    (∀ d q, c ≠ .act (some d) (.success q)) ∧ (∀ L, c ≠ .act (some L) .getDB) ∧
      ∀ key v, c ≠ .act none (.setKV key v) := by
  by_cases hsuccess : ∃ d q, c = .act (some d) (.success q)
  · exact .inl hsuccess
  by_cases hgetDB : ∃ L, c = .act (some L) .getDB
  · exact .inr (.inl hgetDB)
  by_cases hsetKV : ∃ key v, c = .act none (.setKV key v)
  · exact .inr (.inr (.inl hsetKV))
  exact .inr (.inr (.inr ⟨fun d q h ↦ hsuccess ⟨d, q, h⟩, fun L h ↦ hgetDB ⟨L, h⟩,
    fun key v h ↦ hsetKV ⟨key, v, h⟩⟩))

/-- Other calls are not recorded. -/
theorem track_other (hp : s.acts[i]? = some p) (hc : p.prog = .call c k)
    (hsuccess : ∀ d q, c ≠ .act (some d) (.success q))
    (hgetDB : ∀ L, c ≠ .act (some L) .getDB) (hsetKV : ∀ key v, c ≠ .act none (.setKV key v)) :
    track key s (.step i o) s' g = g := by
  simp only [track, hp, hc, Option.elim_some]
  rcases c with ⟨_ | d, a⟩ | ⟨dest, t⟩
  · cases a with
    | setKV key v => exact absurd rfl (hsetKV key v)
    | _ => rfl
  · cases a with
    | success q => exact absurd rfl (hsuccess d q)
    | getDB => exact absurd rfl (hgetDB d)
    | _ => rfl
  · rfl

/-- **Which stores have missed nothing after a call**: one that gets its success message, one into
which a copy is set that has missed nothing, or one that had missed nothing before. -/
theorem store_of_call (hp : s.acts[i]? = some p) (hc : p.prog = .call c k) {d : String}
    (hx : track key s (.step i o) s' g (.store d) = false) :
    (∃ q, c = .act (some d) (.success q) ∧ q.key = key ∧ o.Executed ∧ Current q (s.nodes d) ∧
      sendsOwn p q = true) ∨
    (∃ v, c = .act none (.setKV key v) ∧ p.node = d ∧ g (.copy i) = false ∧ ¬ Informed key s d) ∨
    g (.store d) = false ∧ (∀ q, c = .act (some d) (.success q) → q.key ≠ key) ∧
      ∀ v, c = .act none (.setKV key v) → p.node ≠ d := by
  rcases recorded_cases c with ⟨d', q, rfl⟩ | ⟨L, rfl⟩ | ⟨key', v, rfl⟩ |
    ⟨hsuccess, hgetDB, hsetKV⟩
  · rw [track_success hp hc] at hx
    by_cases hkey : q.key = key ∧ d = d'
    · obtain ⟨hqkey, rfl⟩ := hkey
      simp only [if_pos hqkey, missedSuccess, if_true, Bool.not_eq_false', Bool.and_eq_true,
        decide_eq_true_eq] at hx
      exact .inl ⟨q, rfl, hqkey, hx.1.1, hx.1.2, hx.2⟩
    · refine .inr (.inr ⟨?_, fun q' heq hqkey ↦ hkey ?_, nofun⟩)
      · split at hx
        · rename_i hqkey
          rwa [missedSuccess, if_neg fun hd ↦ hkey ⟨hqkey, hd⟩] at hx
        · exact hx
      · obtain ⟨hd, heq⟩ := Call.act.inj heq
        exact ⟨Act.success.inj heq ▸ hqkey, (Option.some.inj hd).symm⟩
  · rw [track_getDB hp hc, Function.update_of_ne (by simp)] at hx
    exact .inr (.inr ⟨hx, nofun, nofun⟩)
  · rw [track_setKV hp hc] at hx
    by_cases hkey : key' = key ∧ p.node = d
    · obtain ⟨rfl, rfl⟩ := hkey
      rw [if_pos rfl, Function.update_self, Bool.or_eq_false_iff, decide_eq_false_iff_not] at hx
      exact .inr (.inl ⟨v, rfl, rfl, hx⟩)
    · refine .inr (.inr ⟨?_, nofun, fun v' heq hd ↦ hkey ⟨?_, hd⟩⟩)
      · split at hx
        · rwa [Function.update_of_ne] at hx
          rintro heq
          exact hkey ⟨‹_›, (Holder.store.inj heq).symm⟩
        · exact hx
      · exact (Act.setKV.inj (Call.act.inj heq).2).1
  · rw [track_other hp hc hsuccess hgetDB hsetKV] at hx
    exact .inr (.inr ⟨hx, fun q heq ↦ absurd heq (hsuccess d q),
      fun v heq ↦ absurd heq (hsetKV key v)⟩)

/-- **Which copies have missed nothing after a call**, which then does not inform anybody: a copy
that is made of a store that has missed nothing, or one that had missed nothing before. -/
theorem copy_of_call (hp : s.acts[i]? = some p) (hc : p.prog = .call c k) {i' : ℕ}
    (hx : track key s (.step i o) s' g (.copy i') = false) :
    (∀ d q, c = .act (some d) (.success q) → q.key ≠ key) ∧
    ((i' = i ∧ ∃ L, c = .act (some L) .getDB ∧ o = .delivered ∧ g (.store L) = false ∧
      ¬ Informed key s L) ∨
    g (.copy i') = false ∧ (i' = i → ∀ L, c ≠ .act (some L) .getDB)) := by
  rcases recorded_cases c with ⟨d', q, rfl⟩ | ⟨L, rfl⟩ | ⟨key', v, rfl⟩ |
    ⟨hsuccess, hgetDB, hsetKV⟩
  · rw [track_success hp hc] at hx
    split at hx
    · cases hx
    · rename_i hqkey
      refine ⟨fun d q' heq ↦ ?_, .inr ⟨hx, nofun⟩⟩
      rwa [← Act.success.inj (Call.act.inj heq).2]
  · rw [track_getDB hp hc] at hx
    refine ⟨nofun, ?_⟩
    by_cases hi : i' = i
    · subst hi
      rw [Function.update_self, Bool.or_eq_false_iff, Bool.or_eq_false_iff,
        decide_eq_false_iff_not, decide_eq_false_iff_not, not_not] at hx
      exact .inl ⟨rfl, L, rfl, hx.1.1, hx.1.2, hx.2⟩
    · rw [Function.update_of_ne fun heq ↦ hi (Holder.copy.inj heq)] at hx
      exact .inr ⟨hx, fun heq ↦ absurd heq hi⟩
  · rw [track_setKV hp hc] at hx
    refine ⟨nofun, .inr ⟨?_, nofun⟩⟩
    split at hx
    · rwa [Function.update_of_ne (by simp)] at hx
    · exact hx
  · rw [track_other hp hc hsuccess hgetDB hsetKV] at hx
    exact ⟨fun d q heq ↦ absurd heq (hsuccess d q), .inr ⟨hx, fun _ ↦ hgetDB⟩⟩

/-- A call does not write the store of a node that it neither informs nor sets a pair for: what is
executed is the call. -/
theorem not_touched_of_call (h : Reach C (cl.start fun _ ↦ {}) s) (hp : s.acts[i]? = some p)
    (hc : p.prog = .call c k) {d : String}
    (hnot : ∀ q, c = .act (some d) (.success q) → q.key ≠ key)
    (hcopy : ∀ v, c = .act none (.setKV key v) → p.node ≠ d) :
    ¬ (Holder.store d).Touched s (.step i o) key := by
  have hcall : ∀ {b}, s.executed? (.step i o) = some (d, b) →
      ∃ dest, c = .act dest b ∧ d = dest.getD p.node := by
    intro b hex
    obtain ⟨p', dest, k', hp', hc', hd', -⟩ := executed?_step hex
    obtain rfl := Option.some.inj (hp.symm.trans hp')
    exact ⟨dest, (Prog.call.inj (hc.symm.trans hc')).1, hd'⟩
  rintro (⟨q, hex, hqkey, -⟩ | ⟨v, hex⟩ | hl)
  · obtain ⟨dest, rfl, hd⟩ := hcall hex
    obtain ⟨-, d', -, rfl, -⟩ := attempt_of_call rfl h hp hc rfl
    obtain rfl : d = d' := hd
    exact hnot q rfl hqkey
  · obtain ⟨dest, rfl, hd⟩ := hcall hex
    obtain ⟨rfl, -⟩ := setKV_of_emits (((contract cl).lawful rfl h i p hp).emits hc)
    exact hcopy v rfl hd.symm
  · cases hl

end Track

/-- A message that is executed late overwrites a store, which has missed sets then. -/
theorem store_of_deliver {n : ℕ} {d : String}
    (hx : track key s (.deliver n) s' g (.store d) = false) : g (.store d) = false ∧
      ∀ q, s.late[n]? = some (d, .success q) → q.key = key → ¬ Current q (s.nodes d) := by
  rcases hm : s.late[n]? with _ | ⟨d', a⟩
  · simp only [track, hm, Option.elim_none] at hx
    exact ⟨hx, nofun⟩
  simp only [track, hm, Option.elim_some] at hx
  cases a with
  | success q =>
    by_cases hcur : (q.key = key ∧ Current q (s.nodes d')) ∧ d = d'
    · obtain ⟨hcur, rfl⟩ := hcur
      simp only [if_pos hcur, Function.update_self, Bool.true_eq_false] at hx
    · refine ⟨?_, fun q' heq hkey hcur' ↦ hcur ?_⟩
      · dsimp only at hx
        split at hx
        · rename_i hif
          rwa [Function.update_of_ne fun heq ↦ hcur ⟨hif, Holder.store.inj heq⟩] at hx
        · exact hx
      · obtain ⟨rfl, hact⟩ := Prod.mk.inj (Option.some.inj heq)
        obtain rfl := Act.success.inj hact
        exact ⟨⟨hkey, hcur'⟩, rfl⟩
  | _ => exact ⟨hx, nofun⟩

/-- Copies are only made and overwritten by calls. -/
theorem copy_of_other {i : ℕ} (hl : ∀ j o, l ≠ .step j o)
    (hx : track key s l s' g (.copy i) = false) : g (.copy i) = false := by
  cases l with
  | submit a t => exact hx
  | step j o => exact absurd rfl (hl j o)
  | restart a => exact hx
  | deliver n =>
    rcases hm : s.late[n]? with _ | ⟨d', a⟩
    · simpa only [track, hm, Option.elim_none] using hx
    simp only [track, hm, Option.elim_some] at hx
    cases a with
    | success q =>
      dsimp only at hx
      split at hx
      · rwa [Function.update_of_ne (by simp)] at hx
      · exact hx
    | _ => exact hx

/-- **Which stores have missed nothing after a step**: one that gets its success message, one into
which a copy is set that has missed nothing, or one that had missed nothing before. -/
theorem store_of_step (h : Reach C (cl.start fun _ ↦ {}) s) (hs : Step s l s') {d : String}
    (hx : track key s l s' g (.store d) = false) :
    (∃ (i : ℕ) (o : Outcome) (p : Activation Db) (q : Request) (k : Status → Program Reply),
      l = .step i o ∧ s.acts[i]? = some p ∧ p.prog = .call (.act (some d) (.success q)) k ∧
        q.key = key ∧ o.Executed ∧ Current q (s.nodes d) ∧ sendsOwn p q = true) ∨
    (∃ (i : ℕ) (o : Outcome) (p : Activation Db) (v : String) (k : Unit → Program Reply),
      l = .step i o ∧ s.acts[i]? = some p ∧ p.prog = .call (.act none (.setKV key v)) k ∧
        p.node = d ∧ g (.copy i) = false ∧ ¬ Informed key s d) ∨
    g (.store d) = false ∧ (l = .restart d ∧ ¬ WasSet key s ∨
      ¬ (Holder.store d).Touched s l key ∧
      (∀ (i : ℕ) (o : Outcome) (p : Activation Db) q (k : Status → Program Reply), l = .step i o →
        s.acts[i]? = some p → p.prog = .call (.act (some d) (.success q)) k → q.key ≠ key) ∧
      ∀ p ∈ s.acts, l = .restart p.node → ¬ Informing key d p) := by
  cases l with
  | submit a t =>
    refine .inr (.inr ⟨hx, .inr ⟨?_, fun _ _ _ _ _ hl ↦ (nomatch hl), fun _ _ hl ↦ (nomatch hl)⟩⟩)
    rintro (⟨_, hex, -⟩ | ⟨_, hex⟩ | hl)
    · cases hex
    · cases hex
    · cases hl
  | restart a =>
    simp only [track, missedRestart, Bool.or_eq_false_iff, decide_eq_false_iff_not] at hx
    obtain ⟨⟨hg, hset⟩, hcut⟩ := hx
    by_cases hd : d = a
    · subst hd
      exact .inr (.inr ⟨hg, .inl ⟨rfl, fun hw ↦ hset ⟨rfl, hw⟩⟩⟩)
    · refine .inr (.inr ⟨hg, .inr ⟨?_, fun _ _ _ _ _ hl ↦ (nomatch hl), fun p hp hl hinf ↦
        hcut ⟨p, hp, (Label.restart.inj hl).symm, hinf⟩⟩⟩)
      rintro (⟨_, hex, -⟩ | ⟨_, hex⟩ | hl)
      · cases hex
      · cases hex
      · exact hd (Label.restart.inj hl).symm
  | deliver n =>
    obtain ⟨hg, hlate⟩ := store_of_deliver hx
    refine .inr (.inr ⟨hg, .inr ⟨?_, fun _ _ _ _ _ hl ↦ (nomatch hl), fun _ _ hl ↦ (nomatch hl)⟩⟩)
    rintro (⟨q, hex, hqkey, hcur⟩ | ⟨v, hex⟩ | hl)
    · exact hlate q hex hqkey hcur
    · exact not_late_of_emits rfl rfl (fun he ↦ (setKV_of_emits he).1) h (List.mem_of_getElem? hex)
    · cases hl
  | step i o =>
    obtain ⟨p, c, k, hp, -, hc, -⟩ := hs.moved
    rcases store_of_call hp hc hx with ⟨q, rfl, hrest⟩ | ⟨v, rfl, hrest⟩ | ⟨hg, hnot, hcopy⟩
    · exact .inl ⟨i, o, p, q, k, rfl, hp, hc, hrest⟩
    · exact .inr (.inl ⟨i, o, p, v, k, rfl, hp, hc, hrest⟩)
    refine .inr (.inr ⟨hg, .inr ⟨not_touched_of_call h hp hc hnot hcopy, ?_,
      fun _ _ hl ↦ (nomatch hl)⟩⟩)
    rintro i' o' p' q k' hl hp' hc'
    obtain ⟨rfl, -⟩ := Label.step.inj hl
    obtain rfl := Option.some.inj (hp.symm.trans hp')
    exact hnot q (Prog.call.inj (hc.symm.trans hc')).1

end Runs

end ReplicatedDB
