import ReplicatedDB.Protocol.Control
import ReplicatedDB.Protocol.Writes

/-!
# Recovery

A node that starts asks the leader for its store, and copies the answer key by key with `Set_KV`
(`coordinate`). Its servers are up all the time, so success messages of further sets come in
between. What the node has stored for a key in the end is what was written last: by the success
message it has processed last, or by the copy (`lookup_eq_last_stored`).

The copy does not look at rounds. So recovery ends with the right value of a key exactly if the
last success message that the node has processed carries the value of the snapshot, or comes after
the copy of the key, when the snapshot does not contain it, and before it, when it does
(`recovered_iff`). A set that comes after the snapshot and before the copy is lost
(`not_recovered_trio`).
-/

namespace ReplicatedDB

open Rpc Rpc.Net

variable {cl : Cluster}

/-! ### What `coordinate` copies -/

/-- The pair that a call of `Set_KV` has set. -/
def copies? : Event Db → Option (String × String)
  | ⟨.act none (.setKV key value), _⟩ => some (key, value)
  | _ => none

/-- No store was asked for and nothing was copied. -/
def NotRecovered (h : History) : Prop :=
  (∀ L kv, ¬ Heard h L .getDB kv) ∧ h.filterMap copies? = []

/-- If the node has got the store of the leader, then it has copied all of it. -/
def coordinateCopies (h : History) : Prop :=
  ∀ L kv, Heard h L .getDB kv → h.filterMap copies? = kv.entries

theorem NotRecovered.append {h : History} (hn : NotRecovered h) {e : Event Db}
    (hdb : ∀ L kv, e ≠ ⟨.act (some L) Act.getDB, kv⟩) (hset : copies? e = none) :
    NotRecovered (h ++ [e]) := by
  refine ⟨fun L kv hL ↦ ?_, by simp [hn.2, hset]⟩
  rcases List.mem_append.1 hL with hL | hL
  · exact hn.1 L kv hL
  · exact hdb L kv (List.mem_singleton.1 hL).symm

section Coordinate

variable {members : List String} {flags : Flags} {me : String}

/-- The promise of `coordinate`, for a program that comes after the history. -/
abbrev Copies (p : Program Reply) (h : History) : Prop :=
  Sat (fun _ _ ↦ True) (fun _ _ ↦ True) (fun h _ ↦ coordinateCopies h) p h

theorem NotRecovered.copies {h : History} (hn : NotRecovered h) (rep : Reply) :
    Copies (.ret rep) h := fun L kv hL ↦ absurd hL (hn.1 L kv)

/-- The store that a node has got is copied pair by pair. -/
theorem copy_copies {h : History} (hn : NotRecovered h) (leader : String) (kv : KVStore) :
    Copies (do
      kv.entries.foldlM (fun _ e ↦ Local.setKV e.1 e.2) ()
      pure {}) (h ++ [⟨.act (some leader) Act.getDB, kv⟩]) := by
  -- no other store was asked for, and this part of it was copied
  refine Sat.bind ((Sat.foldlM (fun rest _ h' ↦
    (∀ L kv', Heard h' L .getDB kv' → kv' = kv) ∧ h'.filterMap copies? ++ rest = kv.entries)
    ?_ kv.entries () _ ⟨fun L kv' hL ↦ ?_, ?_⟩).mono ?_)
  · rintro ⟨k, v⟩ rest _ h' ⟨hdb, hcopied⟩
    refine ⟨trivial, fun _ _ ↦ ⟨fun L kv' hL ↦ ?_, ?_⟩⟩
    · rcases List.mem_append.1 hL with hL | hL
      · exact hdb L kv' hL
      · cases List.mem_singleton.1 hL
    · rw [List.filterMap_append, ← hcopied]
      simp [copies?]
  · rcases heard_append_one.1 hL with hL | ⟨-, heq⟩
    · exact absurd hL (hn.1 L kv')
    · exact eq_of_heq (Sigma.mk.inj heq).2
  · rw [List.filterMap_append, hn.2]
    rfl
  · rintro h' - ⟨hdb, hcopied⟩ L kv' hL
    rw [hdb L kv' hL, ← hcopied, List.append_nil]

theorem recover_copies {h : History} (hn : NotRecovered h) : Copies (recover members me) h := by
  have hread : ∀ {h : History} addr, NotRecovered h → NotRecovered (h ++ [readLeaderIs addr]) :=
    fun addr hn ↦ hn.append nofun rfl
  refine ⟨trivial, fun addr _ ↦ Sat.ite (fun _ ↦ (hread addr hn).copies _) fun _ ↦ ?_⟩
  replace hn := hread addr hn
  refine ⟨trivial, fun addr' _ ↦ Sat.ite (fun _ ↦ (hread addr' hn).copies _) fun _ ↦ ?_⟩
  replace hn := hread addr' hn
  refine ⟨trivial, fun leader _ ↦ ?_⟩
  replace hn := hread leader hn
  exact Sat.ite (fun _ ↦ ⟨trivial, fun kv _ ↦ copy_copies hn leader kv⟩) fun _ ↦ hn.copies _

theorem askLeaders_notRecovered {h : History} (hn : NotRecovered h) :
    Sat (fun _ _ ↦ True) (fun _ _ ↦ True) (fun h' _ ↦ NotRecovered h') (askLeaders members) h := by
  refine Sat.foldlM (fun _ _ h' ↦ NotRecovered h') ?_ _ _ _ hn
  rintro d rest v h' hn
  exact ⟨trivial, fun x _ ↦ hn.append nofun rfl⟩

theorem coordinate_copies : Copies (coordinate members flags me) [] := by
  have hn : NotRecovered [] := ⟨fun _ _ ↦ nofun, rfl⟩
  have hwrite : ∀ {h : History} leader, NotRecovered h → Copies (do
      Local.writeLeader leader
      recover members me) h :=
    fun leader hn ↦ ⟨trivial, fun _ _ ↦ recover_copies (hn.append nofun rfl)⟩
  have helect : ∀ {h : History}, NotRecovered h →
      Copies (coordinate.orElect members me flags.election) h := by
    intro h hn
    refine Sat.ite (fun _ ↦ ⟨trivial, fun rep _ ↦ ?_⟩) fun _ ↦ recover_copies hn
    have hn' := hn.append (e := ⟨.invoke (some me) (Task.electLeader "leader" me), rep⟩) nofun rfl
    exact Sat.ite (fun _ ↦ hn'.copies _) fun _ ↦ recover_copies hn'
  refine Sat.ite (fun _ ↦ hwrite me hn) fun _ ↦
    Sat.bind ((askLeaders_notRecovered hn).mono ?_)
  rintro h ⟨leaders, liveReplicas⟩ hn
  match leaders with
  | [leader] => exact Sat.ite (fun _ ↦ hwrite leader hn) fun _ ↦ helect hn
  | [] => exact helect hn
  | _ :: _ :: _ => exact helect hn

end Coordinate

/-- **What `coordinate` copies** is the store it has got. -/
def copyContract (cl : Cluster) : Rpc.Contract (db cl) where
  rely _ _ := True
  emits _ _ _ _ := True
  returns _ t h _ := t = .coordinate → coordinateCopies h
  rely_act _ _ _ := trivial
  rely_lost _ _ := trivial
  rely_invoke _ _ _ := trivial
  body_sat me t := by
    cases t with
    | coordinate => exact Sat.mono (fun _ _ h _ ↦ h) coordinate_copies
    | _ => exact Sat.of_forall (fun _ _ ↦ trivial) (fun _ _ ↦ nofun) _ _

/-! ### What is stored while a node starts -/

/-- The pair that `Set_KV` has set at the node. -/
def copied? (d : String) : Served Db → Option (String × String)
  | ⟨d', .setKV key value, _, _⟩ => if d' = d then some (key, value) else none
  | _ => none

/-- The value that the action has stored for the key at the node: by a success message that was
answered with OK, or by `Set_KV`. -/
def stored? (d key : String) (e : Served Db) : Option String :=
  match copied? d e with
  | some (k, v) => if k = key then some v else none
  | none => if key = "leader" then none else (written? d key e).map Request.value

/-- The node does not restart. -/
def StaysUp (d : String) (s : Net (db cl)) : Label Db → Prop
  | .restart a => a ≠ d
  | l => ClientCalls s l

instance (d : String) (s : Net (db cl)) : DecidablePred (StaysUp d s)
  | .restart a => inferInstanceAs (Decidable (a ≠ d))
  | .submit a t => inferInstanceAs (Decidable (ClientCalls s (.submit a t)))
  | .step _ _ | .deliver _ => inferInstanceAs (Decidable True)

/-- The node `d` has restarted in the state `s` and got to the state `s₁`, and since then everything
may have happened but another restart of it. -/
structure Recovering (d : String) (s s₁ s₂ : Net (db cl)) : Prop where
  before : Reach ClientCalls (cl.start fun _ ↦ {}) s
  restart : s.step (.restart d) = some s₁
  during : Reach (StaysUp d) s₁ s₂

/-- The node has recovered: `coordinate` has returned, and had got the store `kv` from the node
`L`. -/
structure Recovered (d L : String) (kv : KVStore) (s s₁ s₂ : Net (db cl)) : Prop
    extends Recovering d s s₁ s₂ where
  returned : ∃ p rep, s₂.acts[s.acts.length]? = some p ∧ p.Returned rep ∧ Heard p.hist L .getDB kv

/-- The actions executed since. -/
def since (s₁ s₂ : Net (db cl)) : List (Served Db) := s₂.served.drop s₁.served.length

section Runs

variable {d : String} {s s₁ s₂ s₃ : Net (db cl)} {l : Label Db}

theorem copied?_of_ne {d' : String} {a : Act} {x : a.Ret} {caller : Option ℕ}
    (h : ∀ key value, (d', a) ≠ (d, Act.setKV key value)) :
    copied? d ⟨d', a, x, caller⟩ = none := by
  cases a with
  | setKV key value => exact if_neg fun heq ↦ h key value (by rw [heq])
  | _ => rfl

/-- **The store after an action.** -/
theorem lookup_act {a : Act} (hsound : a.Sound) (st : Replica) (caller : Option ℕ) (key : String) :
    (act a st).2.kvStore.lookup key =
      (stored? d key ⟨d, a, (act a st).1, caller⟩).or (st.kvStore.lookup key) := by
  cases a with
  | setKV k v =>
    rw [stored?, copied?, if_pos rfl]
    change (st.kvStore.setKV k v).lookup key = (if k = key then some v else none).or _
    by_cases hkey : k = key
    · rw [if_pos hkey, hkey, KVStore.lookup_setKV_self]
      rfl
    · rw [if_neg hkey, KVStore.lookup_setKV_of_ne _ _ (Ne.symm hkey)]
      rfl
  | success q =>
    have hstate : (act (.success q) st).2.kvStore = _ :=
      congrArg Replica.kvStore (success_state q st ((by decide : intMin ≤ 0).trans hsound.2))
    rw [hstate, stored?, show copied? d ⟨d, .success q, (act (.success q) st).1, caller⟩ = none
      from rfl]
    change Finmap.lookup key (if _ then _ else _) = (if key = "leader" then none else _).or _
    by_cases hcur : Current q st ∧ q.key ≠ "leader" ∧ q.key = key
    · obtain ⟨hcur, hne, rfl⟩ := hcur
      rw [if_pos ⟨hcur, hne⟩, if_neg hne, (written?_eq_some_iff hsound).2 ⟨rfl, rfl, rfl, hcur⟩,
        KVStore.lookup_setKV_self]
      rfl
    · have hnone : (if key = "leader" then none else (written? d key
          ⟨d, .success q, (act (.success q) st).1, caller⟩).map Request.value) = none := by
        split
        · rfl
        · rename_i hkey
          rw [Option.map_eq_none_iff, Option.eq_none_iff_forall_ne_some]
          intro q' hq'
          obtain ⟨-, heq, rfl, hcur'⟩ := (written?_eq_some_iff hsound).1 hq'
          obtain rfl := Act.success.inj heq
          exact hcur ⟨hcur', hkey, rfl⟩
      rw [hnone, Option.none_or]
      split
      · rename_i hif
        exact KVStore.lookup_setKV_of_ne _ _ fun heq ↦ hcur ⟨hif.1, hif.2, heq.symm⟩
      · rfl
  | propose q =>
    rw [show (act (.propose q) st).2 = _ from propose_state q st]
    change _ = (if key = "leader" then none else none).or _
    rw [ite_self]
    rfl
  | accept q =>
    change _ = (if key = "leader" then none else none).or _
    rw [ite_self]
    rfl
  | _ =>
    change _ = (if key = "leader" then none else none).or _
    rw [ite_self]
    rfl

theorem StaysUp.clientCalls (h : StaysUp d s l) : ClientCalls s l := by
  cases l with
  | restart a => trivial
  | _ => exact h

theorem Recovering.reach (h : Recovering d s s₁ s₂) : Reach ClientCalls (cl.start fun _ ↦ {}) s₂ :=
  (h.before.tail ⟨.restart d, trivial, h.restart⟩).trans (h.during.mono fun _ _ hl ↦ hl.clientCalls)

/-- The rule for invariants while a node starts. -/
theorem Recovering.invariant {I : Net (db cl) → Prop} (h : Recovering d s s₁ s₂) (hinit : I s₁)
    (hstep : ∀ s₂ l s₃, Recovering d s s₁ s₂ → I s₂ → StaysUp d s₂ l → Step s₂ l s₃ → I s₃) :
    I s₂ :=
  h.during.invariant hinit fun _ _ _ hr _ hI hl hs ↦ hstep _ _ _ ⟨h.before, h.restart, hr⟩ hI hl hs

theorem Recovering.served_le (h : Recovering d s s₁ s₂) :
    s₁.served.length ≤ s₂.served.length := by
  refine h.invariant (I := fun (s₂ : Net (db cl)) ↦ s₁.served.length ≤ s₂.served.length) le_rfl ?_
  intro s₂ l s₃ _ ih _ hs
  rcases hs.served with ⟨-, heq⟩ | ⟨_, _, _, -, heq, -⟩ <;> rw [heq]
  · exact ih
  · rw [List.length_append]
    omega

/-- What a step adds to the actions executed since the node has started. -/
theorem Recovering.since_step (h : Recovering d s s₁ s₂) (hs : Step s₂ l s₃) :
    (s₂.executed? l = none ∧ since s₁ s₃ = since s₁ s₂) ∨
    ∃ d' a caller, s₂.executed? l = some (d', a) ∧
      since s₁ s₃ = since s₁ s₂ ++ [⟨d', a, (act a (s₂.nodes d')).1, caller⟩] := by
  rcases hs.served with ⟨hex, heq⟩ | ⟨d', a, caller, hex, heq, -⟩
  · exact .inl ⟨hex, by rw [since, heq, since]⟩
  · refine .inr ⟨d', a, caller, hex, ?_⟩
    rw [since, heq, List.drop_append_of_le_length h.served_le, since]

/-- **The store is what was stored last** for each key. -/
theorem Recovering.lookup_eq_last_stored (h : Recovering d s s₁ s₂) (key : String) :
    (s₂.nodes d).kvStore.lookup key = ((since s₁ s₂).filterMap (stored? d key)).getLast? := by
  refine h.invariant (I := fun (s₂ : Net (db cl)) ↦ (s₂.nodes d).kvStore.lookup key =
    ((since s₁ s₂).filterMap (stored? d key)).getLast?) ?_ ?_
  · obtain rfl := Option.some.inj h.restart
    change (Function.update s.nodes d _ d).kvStore.lookup key =
      ((s.served.drop s.served.length).filterMap _).getLast?
    rw [Function.update_self, List.drop_length]
    rfl
  intro s₂ l s₃ h ih hl hs
  rcases h.since_step hs with ⟨hex, heq⟩ | ⟨d', a, caller, hex, heq⟩ <;> rw [heq]
  · rw [← ih]
    rcases replica_step hs d with hnode | ⟨a, hex', -⟩ | ⟨rfl, -⟩
    · rw [hnode]
    · cases hex.symm.trans hex'
    · exact absurd rfl hl
  · rw [List.filterMap_append]
    by_cases hd : d' = d
    · subst hd
      rw [replica_executed hs hex,
        lookup_act (d := d') (sound_of_requested rfl rfl h.reach (hs.executed hex)) _ caller key,
        ih]
      rcases hst : stored? d' key ⟨d', a, (act a (s₂.nodes d')).1, caller⟩ with _ | v <;>
        simp [hst]
    · have hnone : stored? d key ⟨d', a, (act a (s₂.nodes d')).1, caller⟩ = none := by
        rw [stored?, copied?_of_ne fun _ _ heq ↦ hd (Prod.mk.inj heq).1]
        change (if key = "leader" then none else _) = none
        split
        · rfl
        · rw [Option.map_eq_none_iff, Option.eq_none_iff_forall_ne_some]
          exact fun q hq ↦ hd (served_of_written hq).1
      rw [List.filterMap_cons_none hnone, List.filterMap_nil, List.append_nil, ← ih]
      rcases replica_step hs d with hnode | ⟨a', hex', -⟩ | ⟨rfl, -⟩
      · rw [hnode]
      · exact absurd (Prod.mk.inj (Option.some.inj (hex.symm.trans hex'))).1 hd
      · exact absurd rfl hl

/-- What the node has committed since it has started it has logged. -/
theorem Recovering.logged (h : Recovering d s s₁ s₂) {key : String} {q : Request}
    (hq : q ∈ (since s₁ s₂).filterMap (written? d key)) :
    q.round ∈ ((s₂.nodes d).log key).keys := by
  refine h.invariant (I := fun (s₂ : Net (db cl)) ↦
    q ∈ (since s₁ s₂).filterMap (written? d key) → q.round ∈ ((s₂.nodes d).log key).keys) ?_ ?_ hq
  · obtain rfl := Option.some.inj h.restart
    change q ∈ (s.served.drop s.served.length).filterMap _ → _
    rw [List.drop_length]
    exact nofun
  intro s₂ l s₃ h ih hl hs hq
  have hkeep : q.round ∈ ((s₂.nodes d).log key).keys → q.round ∈ ((s₃.nodes d).log key).keys := by
    intro hmem
    rcases replica_step hs d with hnode | ⟨a, -, hnode⟩ | ⟨rfl, -⟩
    · rwa [hnode]
    · rw [hnode, mem_keys_act]
      exact .inl hmem
    · exact absurd rfl hl
  rcases h.since_step hs with ⟨-, heq⟩ | ⟨d', a, caller, hex, heq⟩ <;> rw [heq] at hq
  · exact hkeep (ih hq)
  · rw [List.filterMap_append] at hq
    rcases List.mem_append.1 hq with hq | hq
    · exact hkeep (ih hq)
    · obtain ⟨e, he, hw⟩ := List.mem_filterMap.1 hq
      obtain rfl := List.mem_singleton.1 he
      obtain ⟨rfl, rfl, rfl, -⟩ :=
        (written?_eq_some_iff (sound_of_requested rfl rfl h.reach (hs.executed hex))).1 hw
      rw [replica_executed hs hex, mem_keys_act]
      exact .inr rfl

/-- **The success messages committed since** the node has started have rounds that never
decrease, so the last one has the highest round. -/
theorem Recovering.pairwise (h : Recovering d s s₁ s₂) (key : String) :
    ((since s₁ s₂).filterMap (written? d key)).Pairwise fun q q' ↦ q.round ≤ q'.round := by
  refine h.invariant (I := fun (s₂ : Net (db cl)) ↦
    ((since s₁ s₂).filterMap (written? d key)).Pairwise fun q q' ↦ q.round ≤ q'.round) ?_ ?_
  · obtain rfl := Option.some.inj h.restart
    change ((s.served.drop s.served.length).filterMap _).Pairwise _
    rw [List.drop_length]
    exact .nil
  intro s₂ l s₃ h ih _ hs
  rcases h.since_step hs with ⟨-, heq⟩ | ⟨d', a, caller, hex, heq⟩ <;> rw [heq]
  · exact ih
  · rw [List.filterMap_append]
    refine List.pairwise_append.2 ⟨ih, ?_, fun q hq q' hq' ↦ ?_⟩
    · rcases hw : written? d key ⟨d', a, (act a (s₂.nodes d')).1, caller⟩ with _ | q <;> simp [hw]
    · obtain ⟨e, he, hw⟩ := List.mem_filterMap.1 hq'
      obtain rfl := List.mem_singleton.1 he
      obtain ⟨rfl, rfl, rfl, hcur⟩ :=
        (written?_eq_some_iff (sound_of_requested rfl rfl h.reach (hs.executed hex))).1 hw
      exact hcur _ (h.logged hq)

/-- Only `coordinate` copies, at its own node. -/
theorem setKV_of_emits {me : String} {t : Task} {h : History} {dest : Option String}
    {key value : String} (he : emits cl me t h (.act dest (.setKV key value))) :
    dest = none ∧ t = .coordinate := by
  cases dest with
  | some d => cases t <;> exact absurd he id
  | none => cases t <;> first | exact ⟨rfl, rfl⟩ | exact absurd he id

/-- **Only one `coordinate`** runs at the node. -/
theorem Recovering.unique (h : Recovering d s s₁ s₂) {i : ℕ} {p : Activation Db}
    (hp : s₂.acts[i]? = some p) (hnode : p.node = d) (htask : p.task = .coordinate)
    (halive : p.alive = true) : i = s.acts.length := by
  refine h.invariant (I := fun s₂ ↦ ∀ (i : ℕ) (p : Activation Db), s₂.acts[i]? = some p →
    p.node = d → p.task = .coordinate → p.alive = true → i = s.acts.length)
    ?_ ?_ i p hp hnode htask halive
  · obtain rfl := Option.some.inj h.restart
    intro i p hp hnode _ halive
    rcases getElem?_append_one hp with hp | ⟨hi, -⟩
    · change (s.acts.map _)[i]? = _ at hp
      rw [List.getElem?_map] at hp
      obtain ⟨p', -, rfl⟩ := Option.map_eq_some_iff.1 hp
      by_cases hd : p'.node = d
      · rw [if_pos hd] at halive
        cases halive
      · rw [if_neg hd] at hnode
        exact absurd hnode hd
    · simpa [crash] using hi
  intro s₂ l s₃ h ih hl hs i q hq hnode htask halive
  rcases hs.activation hq with hq | ⟨-, a, t, origin, rfl, hopen⟩ | ⟨p, hp, rfl, -, hal, -⟩ |
    ⟨p, -, rfl, -⟩ | ⟨p, c, k, r, hp, hal, -, rfl, -⟩
  · exact ih i q hq hnode htask halive
  · -- nobody else starts one
    rcases hopen with ⟨rfl, -⟩ | ⟨rfl, -, -⟩ | ⟨j, p, dest, k, -, hp, -, hc, -, -, -⟩
    · exact absurd htask (ofClient_ne_coordinate hl)
    · exact absurd hnode hl
    · have hlawful := (contract cl).lawful rfl h.reach j p hp
      rcases task_of_emits (hlawful.emits hc) with
        ⟨_, _, -, heq⟩ | ⟨_, _, -, heq⟩ | ⟨hfwd, heq⟩ | heq
      · cases heq.symm.trans htask
      · cases heq.symm.trans htask
      · rw [← heq, show t = .coordinate from htask] at hfwd
        exact absurd hfwd id
      · cases heq.symm.trans htask
  · exact ih i p hp hnode htask hal
  · cases halive
  · exact ih i p hp hnode htask hal

/-- **What was copied** is what `coordinate` has copied. -/
theorem Recovering.copies (h : Recovering d s s₁ s₂) :
    ∃ p, s₂.acts[s.acts.length]? = some p ∧ p.node = d ∧ p.task = .coordinate ∧
      (since s₁ s₂).filterMap (copied? d) = p.hist.filterMap copies? := by
  refine h.invariant (I := fun (s₂ : Net (db cl)) ↦ ∃ p, s₂.acts[s.acts.length]? = some p ∧
    p.node = d ∧ p.task = .coordinate ∧
      (since s₁ s₂).filterMap (copied? d) = p.hist.filterMap copies?) ?_ ?_
  · obtain rfl := Option.some.inj h.restart
    refine ⟨{ node := d, task := .coordinate, origin := none, prog := body cl d .coordinate
              start := s.clock }, ?_, rfl, rfl, ?_⟩
    · change ((s.acts.map _) ++ [_])[s.acts.length]? = _
      rw [List.getElem?_append_right (by simp), List.length_map, Nat.sub_self]
      rfl
    · change (s.served.drop s.served.length).filterMap _ = _
      rw [List.drop_length]
      rfl
  rintro s₂ l s₃ h ⟨p, hp, hnode, htask, ih⟩ - hs
  have hlawful := (contract cl).lawful rfl h.reach
  obtain ⟨p', hp', hnode', htask', -⟩ := hs.keeps hp
  refine ⟨p', hp', hnode'.trans hnode, htask'.trans htask, ?_⟩
  by_cases hset : ∃ key value, s₂.executed? l = some (d, .setKV key value)
  · -- the copy of a pair
    obtain ⟨key, value, hex⟩ := hset
    rcases hs.executed_by hex with ⟨i, o, q, dest, k, r, rfl, -, hq, hc, hd, hq'⟩ | hm
    case inr => exact absurd hm (not_late_of_emits rfl rfl (fun he ↦ (setKV_of_emits he).1) h.reach)
    obtain ⟨rfl, hcoord⟩ := setKV_of_emits ((hlawful i q hq).emits hc)
    obtain ⟨q₀, -, -, hq₀, halive, -⟩ := hs.moved
    obtain rfl := Option.some.inj (hq.symm.trans hq₀)
    obtain rfl := h.unique hq hd.symm hcoord halive
    obtain rfl := Option.some.inj (hp.symm.trans hq)
    obtain rfl := Option.some.inj (hp'.symm.trans hq')
    rcases h.since_step hs with ⟨hnone, -⟩ | ⟨d', a, caller, hex', heq⟩
    · cases hnone.symm.trans hex
    · obtain ⟨rfl, rfl⟩ := Prod.mk.inj (Option.some.inj (hex'.symm.trans hex))
      rw [heq, List.filterMap_append, ih, Activation.resume_hist, List.filterMap_append]
      simp [copied?, copies?]
  have hsame : (since s₁ s₃).filterMap (copied? d) = (since s₁ s₂).filterMap (copied? d) := by
    rcases h.since_step hs with ⟨-, heq⟩ | ⟨d', a, caller, hex, heq⟩ <;> rw [heq]
    rw [List.filterMap_append, List.filterMap_cons_none, List.filterMap_nil, List.append_nil]
    exact copied?_of_ne fun k v heq ↦ hset ⟨k, v, heq ▸ hex⟩
  rw [hsame, ih]
  rcases hs.activation hp' with hq | ⟨hlen, -⟩ | ⟨q, hq, rfl, -⟩ | ⟨q, hq, rfl, -⟩ |
    ⟨q, c, k, r, hq, -, hc, rfl, hans⟩
  · rw [Option.some.inj (hp.symm.trans hq)]
  · exact absurd hlen (Nat.ne_of_lt (lt_length hp))
  · rw [Option.some.inj (hp.symm.trans hq), Activation.await_hist]
  · rw [Option.some.inj (hp.symm.trans hq)]
  · obtain rfl := Option.some.inj (hp.symm.trans hq)
    rw [Activation.resume_hist, List.filterMap_append, List.filterMap_cons_none,
      List.filterMap_nil, List.append_nil]
    rcases c with ⟨_ | d', a⟩ | ⟨dest, t⟩
    · cases a with
      | setKV key value =>
        obtain ⟨o, rfl, ho, -⟩ := hans
        obtain rfl := ho.resolve_left (by simp)
        refine absurd ⟨key, value, ?_⟩ hset
        exact hnode ▸ executed?_of_executed hq hc (.inl rfl)
      | _ => rfl
    · rfl
    · rfl

end Runs

/-! ### When recovery ends with the right values -/

section Recovered

variable (d L : String) (kv : KVStore) (s s₁ s₂ : Net (db cl)) (key : String)

/-- The success messages for the key that the node has processed since it has started, and answered
with OK, oldest first. -/
def processed : List Request := (since s₁ s₂).filterMap (written? d key)

/-- What was executed before the store was sent to the activation `i`. -/
def beforeSnapshot (i : ℕ) : List (Served Db) :=
  s₂.served.takeWhile fun e ↦ ¬ (e.act = .getDB ∧ e.caller = some i)

/-- The snapshot `kv` that the node `L` has sent to the activation `i` contains the set: its value
is one that `L` has committed before, in the same round or a later one. -/
def Contained (i : ℕ) (q : Request) : Prop :=
  ∃ q' ∈ (beforeSnapshot s₂ i).filterMap (written? L q.key),
    q.round ≤ q'.round ∧ kv.lookup q.key = some q'.value

instance (i : ℕ) (q : Request) : Decidable (Contained L kv s₂ i q) :=
  inferInstanceAs (Decidable (∃ q' ∈ (beforeSnapshot s₂ i).filterMap (written? L q.key),
    q.round ≤ q'.round ∧ kv.lookup q.key = some q'.value))

/-- The value that recovery should end with: that of the last success message processed, if the
snapshot does not contain it, and otherwise that of the snapshot. -/
def expected : Option String :=
  match (processed d s₁ s₂ key).getLast? with
  | some q => if Contained L kv s₂ s.acts.length q then kv.lookup key else some q.value
  | none => kv.lookup key

/-- Nothing for the key is processed after it was copied. -/
def CopiedLast : Prop :=
  ((since s₁ s₂).dropWhile fun e ↦ (copied? d e).map Prod.fst ≠ some key).filterMap
    (written? d key) = []

/-- The last success message processed for the key carries the value of the snapshot, or comes after
the copy if the snapshot does not contain it, and before the copy if it does. (The key of the
leader is not stored.) -/
def CopiedInOrder : Prop :=
  ∀ q ∈ (processed d s₁ s₂ key).getLast?, key ≠ "leader" ∧ ∀ v ∈ kv.lookup key,
    v = q.value ∨ (Contained L kv s₂ s.acts.length q ↔ CopiedLast d s₁ s₂ key)

end Recovered

section Runs

variable {d L key : String} {kv : KVStore} {s s₁ s₂ : Net (db cl)}

/-- When recovery has finished, what was copied is the snapshot. -/
theorem Recovered.copied_eq (h : Recovered d L kv s s₁ s₂) :
    (since s₁ s₂).filterMap (copied? d) = kv.entries := by
  obtain ⟨p, rep, hp, hret, hkv⟩ := h.returned
  obtain ⟨p', hp', -, htask, hcopied⟩ := h.copies
  obtain rfl := Option.some.inj (hp.symm.trans hp')
  have hreturns := ((copyContract cl).lawful rfl h.reach _ p hp).returns hret
  exact hcopied.trans (hreturns htask L kv hkv)

/-- What is stored for a key that was not copied, is what was committed. -/
theorem filterMap_stored {W : List (Served Db)} (hkey : key ≠ "leader")
    (hW : key ∉ (W.filterMap (copied? d)).map Prod.fst) :
    W.filterMap (stored? d key) = (W.filterMap (written? d key)).map Request.value := by
  rw [List.map_filterMap]
  refine List.filterMap_congr fun e he ↦ ?_
  rw [stored?]
  rcases hc : copied? d e with _ | ⟨k, v⟩
  · change (if key = "leader" then none else _) = _
    rw [if_neg hkey]
  · have hne : k ≠ key := by
      rintro rfl
      exact hW (List.mem_map.2 ⟨(k, v), List.mem_filterMap.2 ⟨e, he, hc⟩, rfl⟩)
    change (if k = key then _ else none) = _
    rw [if_neg hne, eq_comm, Option.map_eq_none_iff, Option.eq_none_iff_forall_ne_some]
    intro q hq
    obtain ⟨d', a, x, caller⟩ := e
    obtain ⟨-, rfl, -⟩ := served_of_written hq
    cases hc

/-- The actions before and after the copy of a key. -/
theorem split_at_copy {W : List (Served Db)} {v : String} (hkey : key ≠ "leader")
    (hnodup : ((W.filterMap (copied? d)).map Prod.fst).Nodup)
    (hv : (key, v) ∈ W.filterMap (copied? d)) : ∃ A B : List (Served Db),
      W.filterMap (stored? d key) = (A.filterMap (written? d key)).map Request.value ++
        v :: (B.filterMap (written? d key)).map Request.value ∧
      W.filterMap (written? d key) = A.filterMap (written? d key) ++ B.filterMap (written? d key) ∧
      (W.dropWhile fun e ↦ (copied? d e).map Prod.fst ≠ some key).filterMap (written? d key) =
        B.filterMap (written? d key) := by
  obtain ⟨e, he, hcopy⟩ := List.mem_filterMap.1 hv
  obtain ⟨A, B, rfl⟩ := List.append_of_mem he
  rw [List.filterMap_append, List.filterMap_cons_some hcopy, List.map_append,
    List.map_cons] at hnodup
  have hA : key ∉ (A.filterMap (copied? d)).map Prod.fst := fun hmem ↦
    (List.nodup_append.1 hnodup).2.2 _ hmem _ List.mem_cons_self rfl
  have hB : key ∉ (B.filterMap (copied? d)).map Prod.fst :=
    (List.nodup_cons.1 (List.nodup_append.1 hnodup).2.1).1
  have hstored : stored? d key e = some v := by
    rw [stored?, hcopy]
    exact if_pos rfl
  have hwritten : written? d key e = none := by
    rw [Option.eq_none_iff_forall_ne_some]
    intro q hq
    obtain ⟨d', a, x, caller⟩ := e
    obtain ⟨-, rfl, -⟩ := served_of_written hq
    cases hcopy
  refine ⟨A, B, ?_, ?_, ?_⟩
  · rw [List.filterMap_append, List.filterMap_cons_some hstored, filterMap_stored hkey hA,
      filterMap_stored hkey hB]
  · rw [List.filterMap_append, List.filterMap_cons_none hwritten]
  · have hskip : ∀ x ∈ A, (copied? d x).map Prod.fst ≠ some key := by
      rintro x hx heq
      obtain ⟨c, hc, rfl⟩ := Option.map_eq_some_iff.1 heq
      exact hA (List.mem_map_of_mem (List.mem_filterMap.2 ⟨x, hx, hc⟩))
    rw [List.dropWhile_append_of_pos (by simpa using hskip),
      List.dropWhile_cons_of_neg (by simp [hcopy]), List.filterMap_cons_none hwritten]

/-- **When recovery ends with the right value** of a key. -/
theorem Recovered.lookup_eq_expected_iff (h : Recovered d L kv s s₁ s₂) :
    (s₂.nodes d).kvStore.lookup key = expected d L kv s s₁ s₂ key ↔
      CopiedInOrder d L kv s s₁ s₂ key := by
  have hcopied := h.copied_eq
  have hkeys : ∀ q ∈ (processed d s₁ s₂ key).getLast?, q.key = key := by
    intro q hq
    obtain ⟨e, -, hw⟩ := List.mem_filterMap.1 (List.mem_of_getLast? hq)
    exact (served_of_written hw).2.2
  have hcontained : ∀ q ∈ (processed d s₁ s₂ key).getLast?,
      Contained L kv s₂ s.acts.length q → kv.lookup key ≠ none := by
    rintro q hq ⟨q', -, -, hlookup⟩ hnone
    rw [hkeys q hq] at hlookup
    cases hnone.symm.trans hlookup
  by_cases hkey : key = "leader"
  · -- the key of the leader is neither in the snapshot nor stored
    subst hkey
    have hplain : (plain cl).Holds s₂ :=
      (plain cl).holds rfl rfl (fun d ↦ (plain cl).fresh d) (fun _ _ _ _ ↦ trivial) h.reach
    have hnone : kv.lookup "leader" = none := by
      obtain ⟨p, rep, hp, -, hkv⟩ := h.returned
      exact hplain.answers _ p hp _ hkv
    rw [(hplain.nodes d).store, expected, CopiedInOrder, hnone]
    rcases hlast : (processed d s₁ s₂ "leader").getLast? with _ | q
    · exact iff_of_true rfl nofun
    · refine iff_of_false ?_ fun hall ↦ (hall q rfl).1 rfl
      change none ≠ if _ then none else some q.value
      rw [if_neg fun hc ↦ hcontained q hlast hc hnone]
      nofun
  rw [h.lookup_eq_last_stored key, expected, CopiedInOrder, CopiedLast]
  rcases hv : kv.lookup key with _ | v
  · -- nothing is copied for the key
    have hW : key ∉ ((since s₁ s₂).filterMap (copied? d)).map Prod.fst := by
      rw [hcopied]
      rintro hmem
      obtain ⟨⟨k, v⟩, hkv, rfl⟩ := List.mem_map.1 hmem
      cases hv.symm.trans (KVStore.mem_entries.1 hkv)
    rw [filterMap_stored hkey hW, List.getLast?_map]
    rcases hlast : (processed d s₁ s₂ key).getLast? with _ | q
    · rw [show ((since s₁ s₂).filterMap (written? d key)).getLast? = none from hlast]
      exact iff_of_true rfl nofun
    · rw [show ((since s₁ s₂).filterMap (written? d key)).getLast? = some q from hlast]
      refine iff_of_true ?_ fun q' _ ↦ ⟨hkey, nofun⟩
      exact (if_neg fun hc ↦ hcontained q hlast hc hv).symm
  · have hmem : (key, v) ∈ (since s₁ s₂).filterMap (copied? d) := by
      rw [hcopied]
      exact KVStore.mem_entries.2 hv
    obtain ⟨A, B, hstored, hwritten, hafter⟩ :=
      split_at_copy hkey (by rw [hcopied]; exact kv.nodup_entries) hmem
    rw [hstored, hafter, processed, hwritten]
    rcases List.eq_nil_or_concat (B.filterMap (written? d key)) with hB | ⟨B', q, hB⟩
    · -- the copy comes last
      rw [hB, List.append_nil, List.map_nil, List.getLast?_concat]
      rcases (A.filterMap (written? d key)).getLast? with _ | q
      · exact iff_of_true rfl nofun
      · by_cases hc : Contained L kv s₂ s.acts.length q <;> simp [hc, hkey]
    · rw [hB, List.concat_eq_append, ← List.append_assoc, List.getLast?_concat, List.map_append,
        ← List.cons_append, ← List.append_assoc, List.map_singleton, List.getLast?_concat]
      by_cases hc : Contained L kv s₂ s.acts.length q
      · simp [hc, hkey, @eq_comm _ v]
      · simp [hc, hkey]

/-- **Recovery.** The success messages that the node has processed while it recovered have rounds
that never decrease, so the last one for a key has the highest round; and the value that the node
ends with is the expected one, for each key, exactly if the key was copied in order. -/
theorem recovered_iff (h : Recovered d L kv s s₁ s₂) :
    (∀ key, (processed d s₁ s₂ key).Pairwise fun q q' ↦ q.round ≤ q'.round) ∧
      ∀ key, (s₂.nodes d).kvStore.lookup key = expected d L kv s s₁ s₂ key ↔
        CopiedInOrder d L kv s s₁ s₂ key :=
  ⟨fun key ↦ h.pairwise key, fun _ ↦ h.lookup_eq_expected_iff⟩

end Runs

/-! ### Runs of three nodes -/

instance (d key : String) (s₁ s₂ : Net (db cl)) : Decidable (CopiedLast d s₁ s₂ key) :=
  inferInstanceAs (Decidable (_ = []))

instance (d L : String) (kv : KVStore) (s s₁ s₂ : Net (db cl)) (key : String) :
    Decidable (CopiedInOrder d L kv s s₁ s₂ key) :=
  inferInstanceAs (Decidable (∀ q ∈ (processed d s₁ s₂ key).getLast?, key ≠ "leader" ∧
    ∀ v ∈ kv.lookup key, v = q.value ∨
      (Contained L kv s₂ s.acts.length q ↔ CopiedLast d s₁ s₂ key)))

/-- The answer to `get_db`, and the node that has sent it. -/
def snapshot? (h : History) : Option (String × KVStore) :=
  h.findSome? fun
    | ⟨.act (some L) .getDB, (kv : KVStore)⟩ => some (L, kv)
    | _ => none

theorem heard_of_snapshot {h : History} {L : String} {kv : KVStore}
    (hs : snapshot? h = some (L, kv)) : Heard h L .getDB kv := by
  obtain ⟨⟨c, r⟩, hmem, heq⟩ := List.exists_of_findSome?_eq_some hs
  rcases c with ⟨_ | d, a⟩ | ⟨dest, t⟩
  · cases heq
  · cases a with
    | getDB =>
      obtain ⟨rfl, rfl⟩ := Prod.mk.inj (Option.some.inj heq)
      exact hmem
    | _ => cases heq
  · cases heq

/-- A node that restarts after some steps, and has recovered after some more. -/
theorem Recovered.exists_of_steps (cl : Cluster) (d : String) (ls ls' : List (Label Db))
    (P : String → KVStore → Net (db cl) → Net (db cl) → Net (db cl) → Prop)
    [∀ L kv s s₁ s₂, Decidable (P L kv s s₁ s₂)]
    (h : (((cl.start fun _ ↦ {}).steps ClientCalls ls).any fun s ↦
      (s.step (.restart d)).any fun s₁ ↦ (s₁.steps (StaysUp d) ls').any fun s₂ ↦
        s₂.acts[s.acts.length]?.any fun p ↦ p.prog.result?.isSome &&
          (snapshot? p.hist).any fun x ↦ decide (P x.1 x.2 s s₁ s₂)) = true) :
    ∃ L kv s s₁ s₂, Recovered d L kv s s₁ s₂ ∧ P L kv s s₁ s₂ := by
  obtain ⟨s, hs, h⟩ := (Option.any_eq_true _ _).1 h
  obtain ⟨s₁, hs₁, h⟩ := (Option.any_eq_true _ _).1 h
  obtain ⟨s₂, hs₂, h⟩ := (Option.any_eq_true _ _).1 h
  obtain ⟨p, hp, h⟩ := (Option.any_eq_true _ _).1 h
  obtain ⟨hret, h⟩ := Bool.and_eq_true_iff.1 h
  obtain ⟨⟨L, kv⟩, hkv, h⟩ := (Option.any_eq_true _ _).1 h
  obtain ⟨rep, hrep⟩ := Option.isSome_iff_exists.1 hret
  exact ⟨L, kv, s, s₁, s₂, ⟨⟨.of_steps hs, hs₁, .of_steps hs₂⟩, p, rep, hp,
    Prog.result?_eq_some_iff.1 hrep, heard_of_snapshot hkv⟩, of_decide_eq_true h⟩

/-- `a:1` is elected and sets `k` to `v`. -/
def electAndSet : List (Label Db) :=
  .submit "a:1" (.electLeader "leader" "a:1") :: calls 1 0 ++ calls 13 1 ++ calls 2 0 ++
    .submit "a:1" (.set "k" "v") :: calls 2 2 ++ calls 13 3 ++ calls 1 2

/-- `a:1` sets `k` to `w` while another node recovers. -/
def setAgain : List (Label Db) :=
  .submit "a:1" (.set "k" "w") :: calls 2 5 ++ calls 13 6 ++ calls 1 5

/-- **A set after the copy** is kept: `c:1` gets the store of `a:1` and copies it, then it processes
the next set. -/
theorem recovered_trio : ∃ L kv s s₁, ∃ s₂ : Net (db trio), Recovered "c:1" L kv s s₁ s₂ ∧
    (s₂.nodes "c:1").kvStore.lookup "k" = some "w" ∧
    (s₂.nodes "c:1").kvStore.lookup "k" = expected "c:1" L kv s s₁ s₂ "k" := by
  obtain ⟨L, kv, s, s₁, s₂, h, hw, hin⟩ := Recovered.exists_of_steps trio "c:1" electAndSet
    (calls 9 4 ++ setAgain) (fun L kv s s₁ s₂ ↦
      (s₂.nodes "c:1").kvStore.lookup "k" = some "w" ∧ CopiedInOrder "c:1" L kv s s₁ s₂ "k")
    (by decide +kernel)
  exact ⟨L, kv, s, s₁, s₂, h, hw, ((recovered_iff h).2 "k").2 hin⟩

/-- **A set between the snapshot and the copy** is lost: `c:1` gets the store of `a:1`, processes
the next set, and copies the old value over the new one. -/
theorem not_recovered_trio : ∃ L kv s s₁, ∃ s₂ : Net (db trio), Recovered "c:1" L kv s s₁ s₂ ∧
    (s₂.nodes "a:1").kvStore.lookup "k" = some "w" ∧
    (s₂.nodes "c:1").kvStore.lookup "k" = some "v" ∧
    expected "c:1" L kv s s₁ s₂ "k" = some "w" :=
  Recovered.exists_of_steps trio "c:1" electAndSet (calls 8 4 ++ setAgain ++ calls 1 4)
    (fun L kv s s₁ s₂ ↦ (s₂.nodes "a:1").kvStore.lookup "k" = some "w" ∧
      (s₂.nodes "c:1").kvStore.lookup "k" = some "v" ∧
      expected "c:1" L kv s s₁ s₂ "k" = some "w")
    (by decide +kernel)

end ReplicatedDB
