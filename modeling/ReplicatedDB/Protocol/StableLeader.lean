import ReplicatedDB.Protocol.OneProposer
import ReplicatedDB.Protocol.Serving

/-!
# A stable leader

One node `a` leads throughout and handles the sets of its clients one after the other; what it
sends to itself arrives, and what it sends to others is delivered, lost, or executed at any
later time. Then the store of `a` is exactly what the acknowledged sets make of an empty one, an
aborted set is never committed anywhere, and no replica goes back to an earlier set
(`exact_of_stableLeader`).

The leader is the only proposer (`solo`), so no old value is adopted, and nobody refuses the
success messages of an attempt while it runs.
-/

namespace ReplicatedDB

open Rpc Rpc.Net

variable {cl : Cluster}

/-- The set whose client was told OK. -/
def acknowledged? (p : Activation Db) : Option (String × String) :=
  match p.task, p.prog.result? with
  | .set key value, some rep => if rep.status.Ok then some (key, value) else none
  | _, _ => none

/-- The sets that have returned OK, in the order in which they were handled. -/
def acknowledged (s : Net (db cl)) : List (String × String) := s.acts.filterMap acknowledged?

/-- The map obtained by applying sets in order. -/
def KVStore.applyAll (sets : List (String × String)) : KVStore :=
  sets.foldl (fun kv e ↦ kv.setKV e.1 e.2) ∅

theorem KVStore.lookup_applyAll_concat (sets : List (String × String)) (k v key : String) :
    (applyAll (sets ++ [(k, v)])).lookup key =
      if key = k then some v else (applyAll sets).lookup key := by
  rw [applyAll, List.foldl_append]
  split
  · rename_i hkey
    subst hkey
    exact lookup_setKV_self _ _ _
  · rename_i hkey
    exact lookup_setKV_of_ne _ _ hkey

/-- **The last set of a key decides.** -/
theorem KVStore.lookup_applyAll {acts : List (Activation Db)}
    {f : Activation Db → Option (String × String)} {key value : String} {i : ℕ}
    {p : Activation Db} (hp : acts[i]? = some p) (hf : f p = some (key, value))
    (hlast : ∀ j q w, acts[j]? = some q → f q = some (key, w) → j ≤ i) :
    (applyAll (acts.filterMap f)).lookup key = some value := by
  induction acts using List.reverseRecOn with
  | nil => cases hp
  | append_singleton acts q ih =>
    rw [List.filterMap_append]
    rcases getElem?_append_one hp with hp | ⟨rfl, rfl⟩
    · have hih := ih hp fun j q' w hq' ↦
        hlast j q' w (by rw [List.getElem?_append_left (lt_length hq'), hq'])
      rcases hq : f q with _ | ⟨k, v⟩
      · simpa [hq] using hih
      · have hne : key ≠ k := by
          rintro rfl
          exact absurd (hlast acts.length q v (by simp) hq) (lt_length hp).not_ge
        simpa [hq, lookup_applyAll_concat, hne] using hih
    · simp [hf, lookup_applyAll_concat]

theorem KVStore.lookup_applyAll_eq_none {sets : List (String × String)} {key : String}
    (hnone : ∀ w, (key, w) ∉ sets) : (applyAll sets).lookup key = none := by
  induction sets using List.reverseRecOn with
  | nil => rfl
  | append_singleton sets e ih =>
    obtain ⟨k, v⟩ := e
    rw [lookup_applyAll_concat, if_neg, ih fun w hw ↦ hnone w (List.mem_append_left _ hw)]
    rintro rfl
    exact hnone v (by simp)

/-- The attempt of the set `i` has sent a success message to the node. -/
def Informs (s : Net (db cl)) (i : ℕ) (d : String) (q : Request) : Prop :=
  ∃ (j : ℕ) (p : Activation Db), s.acts[j]? = some p ∧ p.origin = some i ∧
    Sent p.hist d (.success q)

/-- **Exactness** of the replicated store with the leader `a`. -/
structure Exact (a : String) (s : Net (db cl)) : Prop where
  /-- After each request, the leader has what the acknowledged sets make of an empty store. -/
  leader : s.Finished → (s.nodes a).kvStore = .applyAll (acknowledged s)
  /-- Every replica has stored what it has committed last. -/
  stored : ∀ d key, key ≠ "leader" →
    (s.nodes d).kvStore.lookup key = (writes s d key).getLast?.map Request.value
  /-- What a replica has committed is the value of a set. -/
  committed : ∀ d key, ∀ q ∈ writes s d key, ∃ i, Informs s i d q
  /-- No replica is ever sent the commit of a set that is aborted. -/
  acknowledged : ∀ i d q, Informs s i d q → ∃ p, s.acts[i]? = some p ∧
    p.task = .set q.key q.value ∧ ∀ rep, p.Returned rep → rep.status.Ok
  /-- No replica goes back to an earlier set. -/
  inOrder : ∀ d key, (writes s d key).Pairwise fun q q' ↦
    ∀ i i', Informs s i d q → Informs s i' d q' → i ≤ i'

section Runs

variable {a : String} {nodes : String → Replica} {s : Net (db cl)} (ha : a ∈ cl.memberList)
  (hleader : (nodes a).leader = a) (hlog : ∀ d, (nodes d).paxLog = ∅)
include ha hleader

/-- A stable leader is the only proposer. -/
theorem solo : Solo a nodes fun (s : Net (db cl)) l ↦ StableLeader a s l where
  reaches s l hl :=
    ⟨attemptsReach_of_deliversTo (stableLeader_delivers s l hl).1, (stableLeader_delivers s l hl).2⟩
  node s h j p r hp htask := by
    obtain ⟨i, q, key, value, -, -, hpair, -⟩ := (serving ha hleader h).pair hp htask
    exact hpair.node
  last s h i j p q r r' c k hp hptask hc hq hqtask hij :=
    (serving ha hleader h).last hp hptask hc hq hqtask hij

include hlog

/-- The attempt that informs a node, and its set. -/
theorem Informs.attempt (h : Reach (StableLeader a) (cl.start nodes) s) {i : ℕ} {d : String}
    {q : Request} (hinf : Informs s i d q) :
    ∃ p p' r, s.acts[i]? = some p ∧ s.acts[i + 1]? = some p' ∧
      Pair a i p p' q.key q.value ∧ Proposes s (i + 1) r q.round ∧ r.key = q.key ∧
      Sent p'.hist d (.success q) ∧
      ∀ rep, p.Returned rep → ∃ rep', p'.Returned rep' ∧ rep.status = rep'.status := by
  obtain ⟨j, p', hp', horigin, x, hx⟩ := hinf
  have hcall : s.CalledBy j d (Act.success q) := ⟨p', some d, x, hp', rfl, hx⟩
  obtain ⟨r, hprop, hkey, -, hval⟩ :=
    own_of_write h (ownEntries (solo ha hleader) hlog ha h).heard hcall rfl
  obtain ⟨htask, -⟩ := hprop.round rfl h hp'
  obtain ⟨i', p, key, value, rfl, hp, hpair, hret⟩ := (serving ha hleader h).pair hp' htask
  obtain rfl := Option.some.inj (hpair.origin.symm.trans horigin)
  obtain rfl := Task.attemptConsensus.inj (hpair.attempt.symm.trans htask)
  obtain rfl : key = q.key := hkey
  obtain rfl : value = q.value := hval
  exact ⟨p, p', _, hp, hp', hpair, hprop, rfl, ⟨x, hx⟩, hret⟩

/-- Sets on a key are ordered as the rounds of their attempts. -/
theorem Informs.le_of_round (h : Reach (StableLeader a) (cl.start nodes) s) {i i' : ℕ}
    {d d' : String} {q q' : Request} (hi : Informs s i d q) (hi' : Informs s i' d' q')
    (hkey : q.key = q'.key) (hround : q.round ≤ q'.round) : i ≤ i' := by
  by_contra hlt
  obtain ⟨-, p, r, -, hp, -, hprop, hrkey, hsent, -⟩ := hi.attempt ha hleader hlog h
  obtain ⟨-, -, r', -, -, -, hprop', hrkey', -, -⟩ := hi'.attempt ha hleader hlog h
  obtain ⟨htask, heq⟩ := hprop.round rfl h hp
  obtain ⟨x, hx⟩ := hsent
  have hlt := ordered (solo ha hleader) hlog ha h (i' + 1) (i + 1) r' r _ p hprop' hp htask
    (hrkey.trans (hkey.trans hrkey'.symm)) (by omega) (List.ne_nil_of_mem hx)
  omega

/-- A set whose attempt has informed a node is acknowledged when it returns. -/
theorem Informs.acknowledged (h : Reach (StableLeader a) (cl.start nodes) s) {i : ℕ} {d : String}
    {q : Request} (hinf : Informs s i d q) : ∃ p, s.acts[i]? = some p ∧
      p.task = .set q.key q.value ∧ ∀ rep, p.Returned rep → rep.status.Ok := by
  obtain ⟨p, p', r, hp, hp', hpair, -, -, hsent, hret⟩ := hinf.attempt ha hleader hlog h
  refine ⟨p, hp, hpair.task, fun rep hrep ↦ ?_⟩
  obtain ⟨rep', hrep', hstatus⟩ := hret rep hrep
  have hreturns := ((contract cl).lawful rfl h _ p' hp').returns hrep'
  rw [hpair.attempt] at hreturns
  rw [hstatus]
  exact hreturns.2.elim (fun hok ↦ hok.1) fun hnone ↦ absurd hsent (hnone.2.1 d q)

omit hlog in
/-- A set that is acknowledged has informed the leader. -/
theorem informs_of_acknowledged (h : Reach (StableLeader a) (cl.start nodes) s) {i : ℕ}
    {p : Activation Db} (hp : s.acts[i]? = some p) {key value : String}
    (hack : acknowledged? p = some (key, value)) : ∃ q, Informs s i a q ∧ q.key = key := by
  obtain ⟨rep, htask, hret, hok⟩ : ∃ rep, p.task = .set key value ∧ p.Returned rep ∧
      rep.status.Ok := by
    rw [acknowledged?] at hack
    split at hack
    · rename_i htask hres
      split at hack
      · rename_i hok
        obtain ⟨rfl, rfl⟩ := Prod.mk.inj (Option.some.inj hack)
        exact ⟨_, htask, Prog.result?_eq_some_iff.1 hres, hok⟩
      · cases hack
    · cases hack
  obtain ⟨p', rep', hp', hpair, hret', hstatus⟩ := (serving ha hleader h).set hp htask hret
  have hreturns := ((contract cl).lawful rfl h _ p' hp').returns hret'
  rw [hpair.attempt] at hreturns
  obtain ⟨-, ⟨-, qa, -, -, hsent⟩ | ⟨rfl, -⟩⟩ := hreturns
  · exact ⟨_, ⟨i + 1, p', hp', hpair.origin, hsent a ha⟩, rfl⟩
  · rw [hstatus] at hok
    exact absurd hok (Status.not_ok_aborted _)

omit hlog in
/-- What a replica has committed is the value of a set. -/
theorem informs_of_mem_writes (h : Reach (StableLeader a) (cl.start nodes) s) {d key : String}
    {q : Request} (hq : q ∈ writes s d key) : q.key = key ∧ ∃ i, Informs s i d q := by
  obtain ⟨hkey, j, hcall⟩ := calledBy_of_mem_writes h hq
  obtain ⟨r, hprop, -⟩ := proposes_of_calledBy rfl h hcall rfl
  obtain ⟨p, dest, x, hp, hd, hx⟩ := hcall
  obtain ⟨htask, -⟩ := hprop.round rfl h hp
  obtain ⟨i, p₀, k, v, -, -, hpair, -⟩ := (serving ha hleader h).pair hp htask
  obtain ⟨h₁, -, hemit, -⟩ := ((contract cl).lawful rfl h j p hp).emits_of_mem hx
  have hslot : (Act.success q).slot? = some (q.key, q.round) := rfl
  obtain ⟨-, d', -, rfl, -⟩ := attempt_of_emits hemit hslot
  exact ⟨hkey, i, j, p, hp, hpair.origin, x, hd ▸ hx⟩

/-- **The store of the leader** is what the acknowledged sets make of an empty one. -/
theorem kvStore_leader (hstore : ∀ d, (nodes d).kvStore = ∅)
    (h : Reach (StableLeader a) (cl.start nodes) s) (hfin : s.Finished) :
    (s.nodes a).kvStore = .applyAll (acknowledged s) := by
  have hNoRestart := fun (s : Net (db cl)) l (hl : StableLeader a s l) ↦
    (stableLeader_delivers s l hl).2
  -- the sets acknowledged are those that the leader has committed
  have hwritten : ∀ i p key v, s.acts[i]? = some p → acknowledged? p = some (key, v) →
      ∃ q ∈ writes s a key, Informs s i a q := by
    intro i p key v hp hack
    obtain ⟨q, hinf, rfl⟩ := informs_of_acknowledged ha hleader h hp hack
    obtain ⟨j, p', hp', -, hsent⟩ := id hinf
    refine ⟨q, mem_writes_of_sent (fun s l hl ↦ (stableLeader_delivers s l hl).1)
      (fun s hr j p q k hp hc ↦ current_of_call (solo ha hleader) hlog ha hr hp hc a) h hp' hsent,
      hinf⟩
  refine Finmap.ext_lookup fun key ↦ ?_
  by_cases hkey : key = "leader"
  · subst hkey
    rw [lookup_leader hNoRestart hstore stableLeader_client h]
    refine (KVStore.lookup_applyAll_eq_none fun w hw ↦ ?_).symm
    obtain ⟨p, hp, hack⟩ := List.mem_filterMap.1 hw
    obtain ⟨i, hp⟩ := List.getElem?_of_mem hp
    obtain ⟨q, hq, hinf⟩ := hwritten i p _ w hp hack
    obtain ⟨p, p', r, -, -, hpair, -⟩ := hinf.attempt ha hleader hlog h
    exact hpair.store (informs_of_mem_writes ha hleader h hq).1
  rw [lookup_eq_last_write hNoRestart hstore stableLeader_client h a hkey]
  rcases hlast : (writes s a key).getLast? with _ | q
  · -- nothing was acknowledged
    rw [List.getLast?_eq_none_iff] at hlast
    refine (KVStore.lookup_applyAll_eq_none fun w hw ↦ ?_).symm
    obtain ⟨p, hp, hack⟩ := List.mem_filterMap.1 hw
    obtain ⟨i, hp⟩ := List.getElem?_of_mem hp
    obtain ⟨q, hq, -⟩ := hwritten i p key w hp hack
    rw [hlast] at hq
    cases hq
  · obtain ⟨init, hinit⟩ := List.getLast?_eq_some_iff.1 hlast
    have hmem : q ∈ writes s a key := hinit ▸ List.mem_append_right _ (List.mem_singleton_self q)
    obtain ⟨rfl, i, hinf⟩ := informs_of_mem_writes ha hleader h hmem
    obtain ⟨p, hp, htask, hok⟩ := hinf.acknowledged ha hleader hlog h
    obtain ⟨rep, hret⟩ := hfin.returned (List.mem_of_getElem? hp)
    have hack : acknowledged? p = some (q.key, q.value) := by
      rw [acknowledged?, htask, Prog.result?_eq_some_iff.2 hret]
      exact if_pos (hok rep hret)
    refine (KVStore.lookup_applyAll hp hack fun j p' w hp' hack' ↦ ?_).symm
    -- a set on the key that was acknowledged was committed before
    obtain ⟨q', hq', hinf'⟩ := hwritten j p' q.key w hp' hack'
    refine hinf'.le_of_round ha hleader hlog h hinf (informs_of_mem_writes ha hleader h hq').1 ?_
    have hpair := writes_pairwise hNoRestart h a q.key
    rw [hinit] at hpair hq'
    rcases List.mem_append.1 hq' with hq' | hq'
    · exact (List.pairwise_append.1 hpair).2.2 q' hq' q (by simp)
    · obtain rfl := List.mem_singleton.1 hq'
      exact le_rfl

end Runs

/-- **A stable leader serves an exact store**: it has exactly what the acknowledged sets make of
an empty store, aborted sets are never committed, and no replica goes back. -/
theorem exact_of_stableLeader {a : String} {nodes : String → Replica} {s : Net (db cl)}
    (ha : a ∈ cl.memberList) (hleader : (nodes a).leader = a)
    (hlog : ∀ d, (nodes d).paxLog = ∅) (hstore : ∀ d, (nodes d).kvStore = ∅)
    (h : Reach (StableLeader a) (cl.start nodes) s) : Exact a s where
  leader hfin := kvStore_leader ha hleader hlog hstore h hfin
  stored d key hkey := lookup_eq_last_write (fun s l hl ↦ (stableLeader_delivers s l hl).2) hstore
    stableLeader_client h d hkey
  committed d key q hq := (informs_of_mem_writes ha hleader h hq).2
  acknowledged i d q hinf := hinf.acknowledged ha hleader hlog h
  inOrder d key := by
    refine (writes_pairwise (fun s l hl ↦ (stableLeader_delivers s l hl).2) h d key).imp_of_mem ?_
    intro q q' hq hq' hround i i' hi hi'
    have hkey := (informs_of_mem_writes ha hleader h hq).1
    have hkey' := (informs_of_mem_writes ha hleader h hq').1
    exact hi.le_of_round ha hleader hlog h hi' (hkey.trans hkey'.symm) hround

/-! ### A run of three nodes -/

/-- Three sets: the success message of the first one to `c:1` comes after everything else, the
second one is aborted because its proposals are lost, and nothing happens to the third one. -/
theorem exact_trio : ∃ s, Reach (StableLeader "a:1") (trio.start fun _ ↦ { leader := "a:1" }) s ∧
    s.Finished ∧ acknowledged s = [("k", "v"), ("k", "x")] ∧ Exact "a:1" s := by
  obtain ⟨s, hs, hdone, hack⟩ : ∃ s,
      Reach (StableLeader "a:1") (trio.start fun _ ↦ { leader := "a:1" }) s ∧
      s.Finished ∧ acknowledged s = [("k", "v"), ("k", "x")] :=
    Reach.exists_of_steps (by
      decide +kernel : ((trio.start fun _ ↦ { leader := "a:1" }).steps (StableLeader "a:1")
        ([.submit "a:1" (.set "k" "v")] ++ calls 2 0 ++ calls 12 1 ++ [.step 1 .late] ++
          calls 1 0 ++
          [.submit "a:1" (.set "k" "w")] ++ calls 2 2 ++ calls 5 3 ++
            [.step 3 .requestLost, .step 3 .requestLost] ++ calls 1 2 ++
          [.submit "a:1" (.set "k" "x")] ++ calls 2 4 ++ calls 13 5 ++ calls 1 4 ++
          [.deliver 0])).any _ = true)
  exact ⟨s, hs, hdone, hack, exact_of_stableLeader (by decide) rfl (fun _ ↦ rfl) (fun _ ↦ rfl) hs⟩

end ReplicatedDB
