import ReplicatedDB.Protocol.Validity

/-!
# What a node commits

A node commits a success message when it answers it with OK, that is, when no larger round of
the key is logged. Without restarts the messages a node has committed for a key, in the order
in which it did (`writes`), have rounds that never decrease (`writes_pairwise`), and what the
node has stored for the key is the value of the last one (`lookup_eq_last_write`).
-/

namespace ReplicatedDB

open Rpc Rpc.Net

variable {cl : Cluster}

/-- The message, if it is a success message about the key that the node has committed. -/
def written? (d key : String) : Served Db → Option Request
  | ⟨d', .success q, (st : Status), _⟩ => if d' = d ∧ q.key = key ∧ st.Ok then some q else none
  | _ => none

/-- The success messages about the key that the node has committed, oldest first. -/
def writes (s : Net (db cl)) (d key : String) : List Request :=
  s.served.filterMap (written? d key)

/-- What is committed has been served. -/
theorem served_of_written {d key : String} {e : Served Db} {q : Request}
    (h : written? d key e = some q) : e.node = d ∧ e.act = .success q ∧ q.key = key := by
  obtain ⟨d', a, x, caller⟩ := e
  cases a with
  | success q' =>
    rw [written?] at h
    split at h
    · rename_i hif
      obtain rfl := Option.some.inj h
      exact ⟨hif.1, rfl, hif.2.1⟩
    · cases h
  | _ => cases h

/-- **A node commits** the success messages that are current. -/
theorem written?_eq_some_iff {d d' key : String} {a : Act} {st : Replica} {caller : Option ℕ}
    {q : Request} (hsound : a.Sound) :
    written? d key ⟨d', a, (act a st).1, caller⟩ = some q ↔
      d' = d ∧ a = .success q ∧ q.key = key ∧ Current q st := by
  have hok : a = .success q → ((success false q st).1.Ok ↔ Current q st) := by
    rintro rfl
    rw [success_answer _ _ ((by decide : intMin ≤ 0).trans hsound.2)]
    split
    · rename_i hcur
      exact iff_of_true Status.ok_default hcur
    · rename_i hcur
      exact iff_of_false (Status.not_ok_aborted _) hcur
  constructor
  · intro h
    obtain ⟨rfl, rfl, hkey⟩ := served_of_written h
    refine ⟨rfl, rfl, hkey, (hok rfl).1 ?_⟩
    by_contra hnot
    simp [written?, act, hnot] at h
  · rintro ⟨rfl, rfl, rfl, hcur⟩
    exact if_pos ⟨rfl, rfl, (hok rfl).2 hcur⟩

section Runs

variable {C : Net (db cl) → Label Db → Prop} {nodes : String → Replica} {s s' : Net (db cl)}
  {l : Label Db}

/-- **What a step commits**: nothing, or the success message it executes, which is current. -/
theorem writes_step (h : Reach C (cl.start nodes) s) (hs : Step s l s') (d key : String) :
    (writes s' d key = writes s d key ∧
      ∀ q, s.executed? l = some (d, .success q) → q.key = key → ¬ Current q (s.nodes d)) ∨
    ∃ q, s.executed? l = some (d, .success q) ∧ q.key = key ∧ Current q (s.nodes d) ∧
      writes s' d key = writes s d key ++ [q] := by
  rcases hs.filterMap_served (written? d key) with ⟨hex, heq⟩ | ⟨d', a, caller, hex, happ, -⟩
  · exact .inl ⟨heq, fun q hex' ↦ by rw [hex] at hex'; cases hex'⟩
  have hsound := sound_of_requested rfl rfl h (hs.executed hex)
  change writes s' d key = writes s d key ++
    (written? d key ⟨d', a, (act a (s.nodes d')).1, caller⟩).toList at happ
  rcases hw : written? d key ⟨d', a, (act a (s.nodes d')).1, caller⟩ with _ | q <;>
    rw [hw] at happ
  · refine .inl ⟨by simpa using happ, fun q hex' hkey hcur ↦ ?_⟩
    obtain ⟨rfl, rfl⟩ := Prod.mk.inj (Option.some.inj (hex.symm.trans hex'))
    cases hw.symm.trans ((written?_eq_some_iff hsound).2 ⟨rfl, rfl, hkey, hcur⟩)
  · obtain ⟨rfl, rfl, hkey, hcur⟩ := (written?_eq_some_iff hsound).1 hw
    exact .inr ⟨q, hex, hkey, hcur, happ⟩

/-- What a node has committed, an attempt has sent. -/
theorem calledBy_of_mem_writes (h : Reach C (cl.start nodes) s) {d key : String} {q : Request}
    (hq : q ∈ writes s d key) : q.key = key ∧ ∃ j, s.CalledBy j d (.success q) := by
  obtain ⟨e, he, hwrite⟩ := List.mem_filterMap.1 hq
  obtain ⟨rfl, hact, hkey⟩ := served_of_written hwrite
  exact ⟨hkey, hact ▸ h.calledBy_of_served rfl rfl e he⟩

section NoRestart

variable (hC : ∀ s l, C s l → l.NoRestart)
include hC

/-- What a node has committed it has logged. -/
theorem logged_of_mem_writes (h : Reach C (cl.start nodes) s) {d key : String} {q : Request}
    (hq : q ∈ writes s d key) : q.round ∈ ((s.nodes d).log key).keys := by
  refine h.invariant (I := fun (s : Net (db cl)) ↦ q ∈ writes s d key →
    q.round ∈ ((s.nodes d).log key).keys)
    nofun ?_ hq
  intro s l s' hr _ ih hl hs hq
  rcases writes_step hr hs d key with ⟨heq, -⟩ | ⟨q', hex, rfl, -, heq⟩
  · exact keys_mono hs (hC s l hl) (ih (heq ▸ hq))
  · rw [heq] at hq
    rcases List.mem_append.1 hq with hq | hq
    · exact keys_mono hs (hC s l hl) (ih hq)
    · obtain rfl := List.mem_singleton.1 hq
      rw [replica_executed hs hex, mem_keys_act]
      exact .inr rfl

/-- **Rounds never decrease** among the messages that a node commits for a key. -/
theorem writes_pairwise (h : Reach C (cl.start nodes) s) (d key : String) :
    (writes s d key).Pairwise fun q q' ↦ q.round ≤ q'.round := by
  refine h.invariant (I := fun s ↦ (writes s d key).Pairwise fun q q' ↦ q.round ≤ q'.round)
    .nil ?_
  intro s l s' hr _ ih _ hs
  rcases writes_step hr hs d key with ⟨heq, -⟩ | ⟨q, -, rfl, hcur, heq⟩ <;> rw [heq]
  · exact ih
  · refine List.pairwise_append.2 ⟨ih, List.pairwise_singleton _ _, fun q' hq' q'' hq'' ↦ ?_⟩
    obtain rfl := List.mem_singleton.1 hq''
    exact hcur _ (logged_of_mem_writes hC hr hq')

/-- **The store has the value that was committed last.** -/
theorem lookup_eq_last_write (hstore : ∀ d, (nodes d).kvStore = ∅)
    (hclient : ∀ s a t, C s (.submit a t) → t ≠ .coordinate) (h : Reach C (cl.start nodes) s)
    (d : String) {key : String} (hkey : key ≠ "leader") :
    (s.nodes d).kvStore.lookup key = (writes s d key).getLast?.map Request.value := by
  refine h.invariant (I := fun (s : Net (db cl)) ↦ (s.nodes d).kvStore.lookup key =
    (writes s d key).getLast?.map Request.value) ?_ ?_
  · rw [start_nodes, hstore]
    rfl
  intro s l s' hr _ ih hl hs
  rcases writes_step hr hs d key with ⟨heq, hnot⟩ | ⟨q, hex, rfl, hcur, heq⟩ <;> rw [heq]
  · -- nothing is committed for the key
    rw [← ih]
    rcases replica_step hs d with hnode | ⟨a, hex, hnode⟩ | ⟨rfl, -⟩
    · rw [hnode]
    · have hsound := sound_of_requested rfl rfl hr (hs.executed hex)
      rcases kvStore_act a (s.nodes d) hsound with hkv | ⟨q, rfl, hcur, -, hkv⟩ | ⟨k, v, rfl, -⟩
      · rw [hnode, hkv]
      · rw [hnode, hkv, KVStore.lookup_setKV_of_ne]
        rintro rfl
        exact hnot q hex rfl hcur
      · exact absurd (hs.executed hex) (not_requested_setKV rfl rfl hC hclient hr)
    · exact absurd (hC s _ hl) id
  · have hround := (sound_of_requested rfl rfl hr (hs.executed hex)).2
    rw [replica_executed hs hex, kvStore_success _ hround hcur hkey, KVStore.lookup_setKV_self,
      List.getLast?_concat]
    rfl

/-- The store has nothing for the key of the leader. -/
theorem lookup_leader (hstore : ∀ d, (nodes d).kvStore = ∅)
    (hclient : ∀ s a t, C s (.submit a t) → t ≠ .coordinate) (h : Reach C (cl.start nodes) s)
    (d : String) : (s.nodes d).kvStore.lookup "leader" = none := by
  refine h.invariant (I := fun (s : Net (db cl)) ↦ (s.nodes d).kvStore.lookup "leader" = none)
    ?_ ?_
  · rw [start_nodes, hstore]
    rfl
  intro s l s' hr _ ih hl hs
  rcases replica_step hs d with hnode | ⟨a, hex, hnode⟩ | ⟨rfl, -⟩
  · rw [hnode, ih]
  · have hsound := sound_of_requested rfl rfl hr (hs.executed hex)
    rcases kvStore_act a (s.nodes d) hsound with hkv | ⟨q, rfl, -, hkey, hkv⟩ | ⟨k, v, rfl, -⟩
    · rw [hnode, hkv, ih]
    · rw [hnode, hkv, KVStore.lookup_setKV_of_ne _ _ hkey.symm, ih]
    · exact absurd (hs.executed hex) (not_requested_setKV rfl rfl hC hclient hr)
  · exact absurd (hC s _ hl) id

end NoRestart

/-- **What a node is sent for commitment it commits**, if it gets it and it is current. -/
theorem mem_writes_of_sent {d : String} (hdel : ∀ s l, C s l → s.DeliversTo d l)
    (hcur : ∀ s, Reach C (cl.start nodes) s → ∀ (j : ℕ) (p : Activation Db) (q : Request)
      (k : Status → Program Reply), s.acts[j]? = some p →
        p.prog = .call (.act (some d) (.success q)) k → Current q (s.nodes d))
    (h : Reach C (cl.start nodes) s) {j : ℕ} {p : Activation Db} (hp : s.acts[j]? = some p)
    {q : Request} (hsent : Sent p.hist d (.success q)) : q ∈ writes s d q.key := by
  obtain ⟨x, hx⟩ := hsent
  refine h.answered rfl (P := fun (s : Net (db cl)) _ (e : Event Db) ↦
    e.1 = .act (some d) (Act.success q) → q ∈ writes s d q.key) ?_ ?_ j p hp _ hx rfl
  · intro s l s' hr _ _ hs j p _ e _ hkeep he
    rcases writes_step hr hs d q.key with ⟨heq, -⟩ | ⟨q', -, -, -, heq⟩ <;> rw [heq]
    · exact hkeep he
    · exact List.mem_append_left _ (hkeep he)
  · rintro s l s' hr - hl hs j p c k x hp - hc hans rfl
    have hex := ((hdel s l hl).executed hp hc hans).1
    rcases writes_step hr hs d q.key with ⟨-, hnot⟩ | ⟨q', hex', -, -, heq⟩
    · exact absurd (hcur s hr j p q k hp hc) (hnot q hex rfl)
    · obtain ⟨-, hq⟩ := Prod.mk.inj (Option.some.inj (hex.symm.trans hex'))
      obtain rfl := Act.success.inj hq
      rw [heq]
      simp

end Runs

end ReplicatedDB
