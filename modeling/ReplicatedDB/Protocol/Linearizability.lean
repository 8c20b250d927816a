import ReplicatedDB.Linear.History
import ReplicatedDB.Protocol.OneLeader
import ReplicatedDB.Protocol.OwnValue

/-!
# Linearizability

One node is elected, and only this node runs attempts, one at a time. Clients call sets and gets at
any nodes, which overlap in any way; what is sent to other nodes is delivered, lost, or executed at
any later time. Then the database is linearizable (`linearizable`): it cannot be told from one map
that handles each call at some time between its start and its answer. A set takes effect when its
success message is executed at the leader, and a get when the leader reads its store.
-/

namespace ReplicatedDB

open Rpc Rpc.Net

variable {cl : Cluster}

/-! ### Calls and answers -/

/-- What clients ask of the database. -/
inductive MapOp where
  | set (key value : String)
  | get (key : String)
deriving DecidableEq

/-- One map. -/
abbrev mapObject : Linear.Object MapOp GetResponse where
  State := String → Option String
  init := fun _ ↦ none
  step
    | m, .set key value => ({}, Function.update m key (some value))
    | m, .get key => ((found (m key)).getResponse, m)

/-- What a client has asked for. -/
def clientOp? (p : Activation Db) : Option MapOp :=
  match p.origin, p.task with
  | none, .set key value => some (.set key value)
  | none, .get key => some (.get key)
  | _, _ => none

/-- What a client was answered. Requests that are not answered with OK may take effect at any time,
or never. -/
def clientAnswer? (p : Activation Db) : Option (ℕ × GetResponse) :=
  match p.stop, p.prog.result? with
  | some t, some rep => if rep.status.Ok then some (t, rep.getResponse) else none
  | _, _ => none

/-- The sets and gets of clients. -/
def history (s : Net (db cl)) : Linear.History MapOp GetResponse := fun i ↦
  s.acts[i]?.bind fun p ↦ (clientOp? p).map fun op ↦
    { op := op, start := p.start, answer := clientAnswer? p }

/-- The point at which a request takes effect: a commit at the node `a`, or a read of a store. -/
def point? (a : String) (s : Net (db cl)) : Served Db → Option (Linear.Point MapOp GetResponse)
  | ⟨_, .getKV key, x, some j⟩ => some ⟨s.root j, .get key, getAnswer x⟩
  | ⟨d, .success q, _, some j⟩ =>
    if d = a ∧ q.key ≠ "leader" then some ⟨s.root j, .set q.key q.value, {}⟩ else none
  | _ => none

/-- The order in which requests take effect. -/
def points (a : String) (s : Net (db cl)) : List (Linear.Point MapOp GetResponse) :=
  s.served.filterMap (point? a s)

/-! ### What a procedure is for -/

/-- The operation that a procedure is part of. -/
def Task.op? : Task → Option MapOp
  | .set key value => some (.set key value)
  | .get key => some (.get key)
  | .attemptConsensus r => if r = setRequest r.key r.value then some (.set r.key r.value) else none
  | .electLeader _ _ | .coordinate => none

/-- **A procedure is called for the operation** that its caller is part of. -/
theorem op?_of_emits {me : String} {t t' : Task} {h : History} {dest : Option String}
    (he : emits cl me t h (.invoke dest t')) {op : MapOp} (hop : t'.op? = some op) :
    t.op? = some op := by
  rcases task_of_emits he with ⟨key, value, -, rfl⟩ | ⟨key, value, rfl, rfl⟩ | ⟨-, rfl⟩ | rfl
  · have hne : electRequest key value ≠ setRequest key value := fun heq ↦
      nomatch congrArg Request.op heq
    rw [Task.op?, if_neg hne] at hop
    cases hop
  · rw [Task.op?, if_pos rfl] at hop
    exact hop
  · exact hop
  · cases hop

section Runs

variable {a : String} {s s' : Net (db cl)} {l : Label Db}

/-- **Whoever acts on behalf of an operation** is part of it, and so are all that it acts for. -/
theorem op?_of_mem_lineage {C : Net (db cl) → Label Db → Prop}
    (h : Reach C (cl.start fun _ ↦ {}) s) {i b : ℕ} {p : Activation Db}
    (hp : s.acts[i]? = some p) {op : MapOp} (hop : p.task.op? = some op) (hb : b ∈ s.lineage i) :
    ∃ q, s.acts[b]? = some q ∧ q.task.op? = some op := by
  have hlt : ∀ i j, s.origin? i = some j → j < i := fun _ _ ↦ h.origin?_lt rfl
  induction i using Nat.strongRecOn generalizing p with
  | ind i ih =>
    rcases (mem_lineage_iff hlt).1 hb with rfl | ⟨j, horigin, hmem⟩
    · exact ⟨p, hp, hop⟩
    · obtain ⟨q, h', dest, hq, -, hemit⟩ := h.emits_of_origin (contract cl) rfl hp horigin
      exact ih j (hlt i j horigin) hq (op?_of_emits hemit hop) hmem

/-! ### Taking effect -/

/-- An attempt of a set that has informed `a`, or a get that has read a store. -/
def Effective (a : String) (t : Task) (h : History) : Prop :=
  (t.SetAttempt ∧ ∃ q, Sent h a (.success q)) ∨
    ∃ key x, t = .get key ∧ (⟨.act none (.getKV key), x⟩ : Event Db) ∈ h

theorem Effective.mono {t : Task} {h h' : History} (hsub : h ⊆ h') (he : Effective a t h) :
    Effective a t h' := by
  rcases he with ⟨ht, q, hq⟩ | ⟨key, x, ht, hx⟩
  · exact .inl ⟨ht, q, hq.mono hsub⟩
  · exact .inr ⟨key, x, ht, hsub hx⟩

/-- What takes effect is part of an operation. -/
theorem Effective.op? {t : Task} {h : History} (he : Effective a t h) : ∃ op, t.op? = some op := by
  rcases he with ⟨ht, -⟩ | ⟨key, -, rfl, -⟩
  · cases t with
    | attemptConsensus r => exact ⟨_, if_pos ht⟩
    | _ => exact absurd ht id
  · exact ⟨_, rfl⟩

/-- A store is read by a get that has found its own node in the register. -/
theorem getKV_of_emits {me key : String} {t : Task} {h : History} {dest : Option String}
    (he : emits cl me t h (.act dest (.getKV key))) :
    dest = none ∧ t = .get key ∧ h = [readLeaderIs me] := by
  rcases t with r | _ | _ | key' | _ <;> cases dest
  case get.none =>
    obtain ⟨rfl, rfl⟩ := he
    exact ⟨rfl, rfl, rfl⟩
  all_goals exact absurd he id

/-- What takes effect calls nobody. -/
theorem not_origin_of_effective {C : Net (db cl) → Label Db → Prop}
    (h : Reach C (cl.start fun _ ↦ {}) s) {i b : ℕ} {p : Activation Db} (hp : s.acts[i]? = some p)
    (heff : Effective a p.task p.hist) : s.origin? b ≠ some i := by
  rcases heff with ⟨ht, q, x, hx⟩ | ⟨key, x, ht, hx⟩
  · exact not_origin_of_commitsSet h hp ⟨ht, _, hx, rfl⟩
  intro horigin
  obtain ⟨q, hq, -⟩ := Option.bind_eq_some_iff.1 horigin
  obtain ⟨p', h', dest, hp', hpre, hemit⟩ := h.emits_of_origin (contract cl) rfl hq horigin
  obtain rfl := Option.some.inj (hp.symm.trans hp')
  obtain ⟨h₁, hpre₁, hemit₁, -⟩ := ((contract cl).lawful rfl h i p hp).emits_of_mem hx
  obtain ⟨-, -, rfl⟩ := getKV_of_emits hemit₁
  rw [ht] at hemit
  cases dest with
  | none => exact absurd hemit id
  | some d =>
    -- whoever calls somebody has found another node in the register
    obtain ⟨⟨addr, h₂, rfl, hne⟩, -⟩ := hemit
    obtain ⟨_, heq⟩ := hpre
    obtain ⟨_, heq₁⟩ := hpre₁
    rw [← heq] at heq₁
    exact hne (eq_of_heq (Sigma.mk.inj (List.cons.inj heq₁).1).2).symm

/-- Whoever is about to take effect has not taken effect yet. -/
theorem not_effective_of_call {C : Net (db cl) → Label Db → Prop}
    (h : Reach C (cl.start fun _ ↦ {}) s) {i : ℕ} {p : Activation Db} (hp : s.acts[i]? = some p)
    {dest : Option String} {b : Act} {k : b.Ret → Program Reply}
    (hc : p.prog = .call (.act dest b) k)
    (hb : (∃ q, b = .success q ∧ dest = some a) ∨ ∃ key, b = .getKV key) :
    ¬ Effective a p.task p.hist := by
  have hemit := ((contract cl).lawful rfl h i p hp).emits hc
  have hemit' := ((onceContract cl).lawful rfl h i p hp).emits hc
  rcases hb with ⟨q, rfl, rfl⟩ | ⟨key, rfl⟩ <;> rintro (⟨ht, hsent⟩ | ⟨key', x, ht, hx⟩)
  · rcases htask : p.task with r | _ | _ | _ | _ <;> rw [htask] at ht hemit'
    · obtain ⟨q', hq'⟩ := hsent
      exact hemit' q' hq'
    all_goals exact ht
  · rw [ht] at hemit
    exact hemit
  · rw [(getKV_of_emits hemit).2.1] at ht
    exact ht
  · rw [(getKV_of_emits hemit).2.2] at hx
    cases List.mem_singleton.1 hx

/-- **One activation** takes effect for each client. -/
theorem unique_of_effective (ha : a ∈ cl.memberList)
    (h : Reach (Leads a) (cl.start fun _ ↦ {}) s) {i₁ i₂ : ℕ} {p₁ p₂ : Activation Db}
    (hp₁ : s.acts[i₁]? = some p₁) (hp₂ : s.acts[i₂]? = some p₂)
    (heff₁ : Effective a p₁.task p₁.hist) (heff₂ : Effective a p₂.task p₂.hist)
    (hroot : s.root i₁ = s.root i₂) : i₁ = i₂ := by
  have hlt : ∀ i j, s.origin? i = some j → j < i := fun _ _ ↦ h.origin?_lt rfl
  refine unique_of_siblings (P := Effective a) hlt
    (fun i p hp heff b ↦ not_origin_of_effective h hp heff) ?_ hp₁ hp₂ (root_spec hlt i₁).1
    (hroot ▸ (root_spec hlt i₂).1) heff₁ heff₂
  intro c b₁ b₂ hb₁ hb₂ hlt' i p hp hmem heff
  obtain ⟨q, hq, -⟩ := Option.bind_eq_some_iff.1 hb₂
  obtain ⟨key, value, htask⟩ := elect_of_sibling ha h hb₁ hq hb₂ hlt'
  -- elections are not part of an operation
  obtain ⟨op, hop⟩ := heff.op?
  obtain ⟨q', hq', hop'⟩ := op?_of_mem_lineage h hp hop hmem
  obtain rfl := Option.some.inj (hq.symm.trans hq')
  rw [htask] at hop'
  cases hop'

/-! ### Points -/

theorem point?_none {d : String} {b : Act} {x : b.Ret} : point? a s ⟨d, b, x, none⟩ = none := by
  cases b <;> rfl

/-- A success message takes effect at `a`, unless it is about the leader. -/
theorem point?_success_iff {d : String} {q : Request} {x : Status} {j : ℕ}
    {e : Linear.Point MapOp GetResponse} : point? a s ⟨d, .success q, x, some j⟩ = some e ↔
      (d = a ∧ q.key ≠ "leader") ∧ ⟨s.root j, .set q.key q.value, {}⟩ = e := by
  rw [point?, Option.ite_none_right_eq_some, Option.some.injEq]

/-- Points only depend on roots. -/
theorem point?_congr {e : Served Db} (h : ∀ j, e.caller = some j → s'.root j = s.root j) :
    point? a s' e = point? a s e := by
  obtain ⟨d, b, x, _ | j⟩ := e
  · rw [point?_none, point?_none]
  · have hroot := h j rfl
    cases b <;> simp only [point?, hroot]

/-- **What a point says**: some activation has taken effect for its client. -/
theorem point?_spec (ha : a ∈ cl.memberList) (h : Reach (Leads a) (cl.start fun _ ↦ {}) s)
    {d : String} {b : Act} {x : b.Ret} {j : ℕ} (hcall : s.CalledBy j d b)
    {e : Linear.Point MapOp GetResponse} (he : point? a s ⟨d, b, x, some j⟩ = some e) :
    ∃ p, s.acts[j]? = some p ∧ e.name = s.root j ∧ p.task.op? = some e.op ∧
      Effective a p.task p.hist ∧ p.node = a := by
  cases b with
  | success q =>
    obtain ⟨⟨rfl, hkey⟩, rfl⟩ := point?_success_iff.1 he
    obtain ⟨p, r, hp, htask, hnode, hkey', hvalue⟩ := attempt_of_calledBy ha h hcall rfl
    have hproper := proper h hp
    rw [htask] at hproper
    have hown : r = setRequest r.key r.value := by
      obtain ⟨-, rfl | ⟨hown, -⟩⟩ := hproper
      · exact absurd hkey'.symm hkey
      · exact hown
    obtain ⟨p', dest, y, hp', hdest, hmem⟩ := hcall
    obtain rfl := Option.some.inj (hp.symm.trans hp')
    obtain ⟨h₁, -, hemit, -⟩ := ((contract cl).lawful rfl h j p hp).emits_of_mem hmem
    obtain ⟨-, d', -, rfl, -⟩ := attempt_of_emits hemit rfl
    obtain rfl : d = d' := hdest
    refine ⟨p, hp, rfl, ?_, .inl ⟨htask ▸ hown, q, y, hmem⟩, hnode⟩
    rw [htask, Task.op?, if_pos hown, hkey', hvalue]
  | getKV key =>
    obtain rfl := Option.some.inj he
    obtain ⟨p, dest, y, hp, -, hmem⟩ := hcall
    obtain ⟨h₁, hpre, hemit, -⟩ := ((contract cl).lawful rfl h j p hp).emits_of_mem hmem
    obtain ⟨h₂, -, hemit', -⟩ := ((onceContract cl).lawful rfl h j p hp).emits_of_mem hmem
    obtain ⟨rfl, htask, rfl⟩ := getKV_of_emits hemit
    rw [htask] at hemit'
    have hread := leader_of_read ha h hp (hpre.subset (List.mem_singleton_self _))
    exact ⟨p, hp, rfl, by rw [htask]; rfl, .inr ⟨key, y, htask, hmem⟩, hread.resolve_left hemit'⟩
  | _ => cases he

/-- Whoever has got an OK answer to a request that it has forwarded. -/
theorem callee_of_forwarded {C : Net (db cl) → Label Db → Prop}
    (h : Reach C (cl.start fun _ ↦ {}) s) {i : ℕ} {p : Activation Db} (hp : s.acts[i]? = some p)
    {d : String} {t : Task} {rep : Reply}
    (he : (⟨.invoke (some d) t, rep⟩ : Event Db) ∈ p.hist) (hok : rep.status.Ok) :
    ∃ j q, i < j ∧ s.acts[j]? = some q ∧ q.task = t ∧ s.root j = s.root i ∧ q.Returned rep := by
  have hlt : ∀ i j, s.origin? i = some j → j < i := fun _ _ ↦ h.origin?_lt rfl
  obtain ⟨j, q, hq, htask, -, horigin, hret⟩ | ⟨-, rfl⟩ := h.invoked rfl hp he
  · have hj := (origin?_eq hq).trans horigin
    exact ⟨j, q, hlt j i hj, hq, htask, root_of_origin hlt hj, hret⟩
  · exact absurd hok Status.not_ok_unavailable

/-- Success messages to `a` get through. -/
theorem delivered_of_leads (h : Reach (Leads a) (cl.start fun _ ↦ {}) s) {i : ℕ}
    {p : Activation Db} {o : Outcome} {q : Request} {k : Status → Program Reply}
    (hl : Leads a s (.step i o)) (hp : s.acts[i]? = some p)
    (hc : p.prog = .call (.act (some a) (.success q)) k) : o = .delivered := by
  obtain ⟨r, -, htask, -⟩ := attempt_of_call rfl h hp hc rfl
  exact hl.1.2.1 p hp (by rw [htask]; rfl) p hp (by rw [hc]; exact rfl)

theorem mem_points {e : Served Db} {x : Linear.Point MapOp GetResponse} (he : e ∈ s.served)
    (hx : point? a s e = some x) : x ∈ points a s := List.mem_filterMap.2 ⟨e, he, hx⟩

/-- A set at the leader has its point: its attempt has informed `a`. -/
theorem exists_point_of_attempted (ha : a ∈ cl.memberList)
    (h : Reach (Leads a) (cl.start fun _ ↦ {}) s) {i : ℕ} {p : Activation Db}
    (hp : s.acts[i]? = some p) {key value : String} (htask : p.task = .set key value) {rep : Reply}
    (hcalled : attempted (setRequest key value) rep ∈ p.hist) (hok : rep.status.Ok) :
    ∃ e ∈ points a s, e.name = s.root i ∧ e.ans = {} := by
  have hlt : ∀ i j, s.origin? i = some j → j < i := fun _ _ ↦ h.origin?_lt rfl
  obtain ⟨j, q, hq, hqtask, -, horigin, hret⟩ | ⟨hdest, -⟩ := h.invoked rfl hp hcalled
  case inr => cases hdest
  have hreturns := ((contract cl).lawful rfl h j q hq).returns hret
  rw [hqtask] at hreturns
  obtain ⟨-, ⟨-, qa, ⟨hadopt, -⟩, -, hsent⟩ | ⟨hfail, -⟩⟩ := hreturns
  case inr =>
    rw [hfail] at hok
    exact absurd hok (Status.not_ok_aborted _)
  obtain ⟨x, hx⟩ := hsent a ha
  have hmem := h.served_of_mem_hist rfl
    (fun _ hr _ _ _ _ hl hp hc _ ↦ delivered_of_leads hr hl hp hc) hq hx
  have hkey : key ≠ "leader" := by
    have hproper := proper h hp
    rwa [htask] at hproper
  have hroot := root_of_origin hlt ((origin?_eq hq).trans horigin)
  exact ⟨_, mem_points hmem (if_pos ⟨rfl, hkey⟩), hroot, rfl⟩

/-- **Every answer has its point**, for the client on whose behalf it is given. -/
theorem exists_point (ha : a ∈ cl.memberList) (h : Reach (Leads a) (cl.start fun _ ↦ {}) s)
    {i : ℕ} {p : Activation Db} (hp : s.acts[i]? = some p) (ht : p.task.Forwarded) {rep : Reply}
    (hret : p.Returned rep) (hok : rep.status.Ok) :
    ∃ e ∈ points a s, e.name = s.root i ∧ e.ans = rep.getResponse := by
  -- callees have larger indices
  obtain ⟨n, hn⟩ : ∃ n, n = s.acts.length - i := ⟨_, rfl⟩
  induction n using Nat.strongRecOn generalizing i p rep with
  | ind n ih =>
    have hforwarded : ∀ {d : String} {rep' : Reply},
        (⟨.invoke (some d) p.task, rep'⟩ : Event Db) ∈ p.hist → rep'.status.Ok →
          onceReturns p.task rep' ∧
            ∃ e ∈ points a s, e.name = s.root i ∧ e.ans = rep'.getResponse := by
      intro d rep' hmem hok'
      obtain ⟨j, q, hij, hq, htask, hroot, hret'⟩ := callee_of_forwarded h hp hmem hok'
      have hjlt := lt_length hq
      rw [← hroot, ← htask]
      exact ⟨((onceContract cl).lawful rfl h j q hq).returns hret',
        ih _ (by omega) hq (htask ▸ ht) hret' hok' rfl⟩
    have hreturns := ((contract cl).lawful rfl h i p hp).returns hret
    have honce := ((onceContract cl).lawful rfl h i p hp).returns hret
    rcases htask : p.task with r | _ | ⟨key, value⟩ | key | _ <;>
      rw [htask] at ht hreturns honce hforwarded
    case set =>
      obtain ⟨rep', hhist, rfl⟩ | ⟨-, rfl⟩ | ⟨-, hcase⟩ := hreturns
      · have hcalled : attempted (setRequest key value) rep' ∈ p.hist := by
          rw [hhist]
          simp
        exact exists_point_of_attempted ha h hp htask hcalled hok
      · exact absurd hok (Status.not_ok_aborted _)
      · obtain ⟨m, d, rep', hmem, hok', -⟩ := hcase hok
        obtain ⟨hempty, e, he, hname, hans⟩ := hforwarded hmem hok'
        exact ⟨e, he, hname, hans.trans (Eq.trans hempty (Eq.symm honce))⟩
    case get =>
      obtain ⟨x, hhist, rfl⟩ | ⟨-, rfl⟩ | ⟨-, hcase⟩ := hreturns
      · have hx : (⟨.act none (.getKV key), x⟩ : Event Db) ∈ p.hist := by
          rw [hhist]
          simp
        have hmem := h.served_of_mem_hist rfl (fun _ _ _ _ _ _ _ _ _ hdest ↦ by cases hdest) hp hx
        exact ⟨_, mem_points hmem rfl, rfl, rfl⟩
      · exact absurd hok (Status.not_ok_aborted _)
      · obtain ⟨d, rep', hmem, hok', hans⟩ := hcase hok
        exact hans ▸ (hforwarded hmem hok').2
    all_goals exact absurd ht id

/-! ### One step -/

/-- What the store of a replica holds. -/
def Replica.map (st : Replica) : mapObject.State := fun key ↦ st.kvStore.lookup key

theorem Replica.map_congr {st st' : Replica} (h : st.kvStore = st'.kvStore) : st.map = st'.map :=
  funext fun key ↦ congrArg (fun kv : KVStore ↦ kv.lookup key) h

/-- A set is committed. -/
theorem Replica.map_success {st : Replica} {q : Request} (hround : 0 ≤ q.round)
    (hcur : Current q st) (hkey : q.key ≠ "leader") :
    (act (.success q) st).2.map = Function.update st.map q.key (some q.value) := by
  funext key
  show (act (.success q) st).2.kvStore.lookup key = _
  rw [kvStore_success st hround hcur hkey]
  by_cases hkk : key = q.key
  · rw [hkk, Function.update_self]
    exact KVStore.lookup_setKV_self _ _ _
  · rw [Function.update_of_ne hkk]
    exact KVStore.lookup_setKV_of_ne _ _ hkk

section Step

variable (h : Reach (Leads a) (cl.start fun _ ↦ {}) s)
  (h' : Reach (Leads a) (cl.start fun _ ↦ {}) s') (hl : Leads a s l) (hs : Step s l s')
include h

section Effects

include hs

/-- Nothing but a current success message about a key of clients changes the store. -/
theorem kvStore_of_leads {b : Act} (hex : s.executed? l = some (a, b))
    (hb : ∀ q, b = .success q → q.key = "leader") :
    (s'.nodes a).kvStore = (s.nodes a).kvStore := by
  rw [replica_executed hs hex]
  rcases kvStore_act b (s.nodes a) (sound_of_requested rfl rfl h (hs.executed hex)) with
    heq | ⟨q, hq, -, hkey, -⟩ | ⟨key, value, rfl, -⟩
  · exact heq
  · exact absurd (hb q hq) hkey
  · refine absurd (hs.executed hex) (not_requested_setKV rfl rfl (fun _ _ hl ↦ hl.1.1) ?_ h)
    rintro s d t hl rfl
    exact hl.2.2

omit h in
include hl in
/-- What another node executes leaves `a` alone. -/
theorem node_of_leads (hex : ∀ b, s.executed? l ≠ some (a, b)) : s'.nodes a = s.nodes a := by
  rcases replica_step hs a with hnode | ⟨b, hex', -⟩ | ⟨rfl, -⟩
  · exact hnode
  · exact absurd hex' (hex b)
  · exact absurd hl.1.1 id

end Effects

section Points

include h' hs

/-- A step does not change old points. -/
theorem filterMap_point? : s.served.filterMap (point? a s') = points a s := by
  refine List.filterMap_congr fun e he ↦ point?_congr fun j hj ↦ ?_
  obtain ⟨p, -, -, hp, -⟩ := h.calledBy_of_served_for rfl he hj
  exact hs.root rfl h h' hp

/-- **A new point** is that of a client that had none: whoever has taken effect for this client
before is the same activation. -/
theorem fresh_point (ha : a ∈ cl.memberList) {i : ℕ} {p : Activation Db} (hp : s.acts[i]? = some p)
    {dest : Option String} {b : Act} {k : b.Ret → Program Reply}
    (hc : p.prog = .call (.act dest b) k)
    (hb : (∃ q, b = .success q ∧ dest = some a) ∨ ∃ key, b = .getKV key)
    (hcall : s'.CalledBy i (dest.getD p.node) b) {x : b.Ret}
    {e : Linear.Point MapOp GetResponse}
    (he : point? a s' ⟨dest.getD p.node, b, x, some i⟩ = some e) :
    e.name ∉ (points a s).map Linear.Point.name := by
  intro hmem
  obtain ⟨p', hp', hname, -, heff, -⟩ := point?_spec ha h' hcall he
  obtain ⟨e₁, he₁, hname₁⟩ := List.mem_map.1 hmem
  obtain ⟨⟨d₁, b₁, x₁, _ | j⟩, hserved, hpoint⟩ := List.mem_filterMap.1 he₁
  · rw [point?_none] at hpoint
    cases hpoint
  obtain ⟨q, hq, hname₂, -, heff₁, -⟩ := point?_spec ha h
    (h.calledBy_of_served_for rfl hserved rfl) hpoint
  obtain ⟨q', hq', -, htask, -, -, hhist, -⟩ := hs.keeps hq
  have hij : j = i := by
    refine unique_of_effective ha h' hq' hp' ?_ heff ?_
    · rw [htask]
      exact heff₁.mono hhist.subset
    · rw [hs.root rfl h h' hq, ← hname₂, hname₁, hname]
  subst hij
  obtain rfl := Option.some.inj (hp.symm.trans hq)
  exact not_effective_of_call h hp hc hb heff₁

end Points

/-! ### What a step adds -/

section

include hl hs

/-- What takes no effect leaves the map of `a` alone. -/
theorem map_of_no_point {d : String} {b : Act} {x : b.Ret} {i : ℕ}
    (hex : s.executed? l = some (d, b)) (hpoint : point? a s' ⟨d, b, x, some i⟩ = none) :
    (s'.nodes a).map = (s.nodes a).map := by
  by_cases hd : d = a
  · subst hd
    refine Replica.map_congr (kvStore_of_leads h hs hex ?_)
    rintro q rfl
    by_contra hkey
    cases (point?_success_iff.2 ⟨⟨rfl, hkey⟩, rfl⟩).symm.trans hpoint
  · rw [node_of_leads hl hs fun b' hex' ↦
      hd (Prod.mk.inj (Option.some.inj (hex.symm.trans hex'))).1]

/-- **What takes effect** changes the map of `a` as its point says, and answers so. -/
theorem step_of_point (ha : a ∈ cl.memberList) {i : ℕ} {p : Activation Db}
    (hp : s.acts[i]? = some p) {dest : Option String} {b : Act} {k : b.Ret → Program Reply}
    (hc : p.prog = .call (.act dest b) k) (hnode : p.node = a)
    (hex : s.executed? l = some (dest.getD p.node, b)) {e : Linear.Point MapOp GetResponse}
    (he : point? a s' ⟨dest.getD p.node, b, (act b (s.nodes (dest.getD p.node))).1, some i⟩ =
      some e) : mapObject.step (s.nodes a).map e.op = (e.ans, (s'.nodes a).map) := by
  cases b with
  | success q =>
    obtain ⟨⟨hd, hkey⟩, rfl⟩ := point?_success_iff.1 he
    have hsound := sound_of_requested rfl rfl h (hs.executed hex)
    have hcur := current_of_call solo_oneProposer (fun _ ↦ rfl) ha (h.mono fun _ _ hl ↦ hl.1) hp hc
      a
    rw [hd] at hex
    rw [replica_executed hs hex, Replica.map_success hsound.2 hcur hkey]
  | getKV key =>
    obtain rfl := Option.some.inj he
    obtain ⟨rfl, -⟩ := getKV_of_emits (((contract cl).lawful rfl h i p hp).emits hc)
    subst hnode
    have hans := congrArg Reply.getResponse (getAnswer_eq_found (s.nodes p.node).kvStore key)
    have hstep : s'.nodes p.node = s.nodes p.node := replica_executed hs hex
    rw [hstep]
    exact congrArg (·, (s.nodes p.node).map) hans.symm
  | _ => cases he

end

/-- What takes effect is a success message to `a`, or a read. -/
theorem call_of_point {i : ℕ} {p : Activation Db} (hp : s.acts[i]? = some p)
    {dest : Option String} {b : Act} {k : b.Ret → Program Reply}
    (hc : p.prog = .call (.act dest b) k) {x : b.Ret} {e : Linear.Point MapOp GetResponse}
    (he : point? a s' ⟨dest.getD p.node, b, x, some i⟩ = some e) :
    (∃ q, b = .success q ∧ dest = some a) ∨ ∃ key, b = .getKV key := by
  cases b with
  | success q =>
    obtain ⟨-, d, -, rfl, -⟩ := attempt_of_call rfl h hp hc rfl
    exact .inl ⟨q, rfl, congrArg some (point?_success_iff.1 he).1.1⟩
  | getKV key => exact .inr ⟨key, rfl⟩
  | _ => cases he

include h' hl hs

/-- **What a step adds to the points**: nothing, and the map stays as it is, or one point of a
client that had none, and the map is changed as this says. -/
theorem points_step (ha : a ∈ cl.memberList) :
    (points a s' = points a s ∧ (s'.nodes a).map = (s.nodes a).map) ∨
      ∃ i p e, s.acts[i]? = some p ∧ p.task.op? = some e.op ∧ e.name = s.root i ∧
        e.name ∉ (points a s).map Linear.Point.name ∧ points a s' = points a s ++ [e] ∧
        mapObject.step (s.nodes a).map e.op = (e.ans, (s'.nodes a).map) := by
  rcases hs.served_by with ⟨hex, heq⟩ | ⟨d, b, hlate, hex, heq⟩ |
    ⟨i, o, p, dest, b, k, r, -, hex, hp, hc, hp', heq⟩
  · left
    rw [points, heq, filterMap_point? h h' hs,
      node_of_leads hl hs fun b hex' ↦ nomatch hex.symm.trans hex']
    exact ⟨rfl, rfl⟩
  · -- what is executed late takes no effect at `a`
    left
    rw [points, heq, filterMap_concat, filterMap_point? h h' hs, point?_none]
    refine ⟨List.append_nil _, ?_⟩
    by_cases hd : d = a
    · subst hd
      refine Replica.map_congr (kvStore_of_leads h hs hex fun q hq ↦ ?_)
      have hslot := slot?_of_late rfl rfl (fun _ _ hl ↦ hl.1.2.1) h _ hlate rfl
      rw [hq] at hslot
      cases hslot
    · rw [node_of_leads hl hs fun b' hex' ↦
        hd (Prod.mk.inj (Option.some.inj (hex.symm.trans hex'))).1]
  · have hcall : s'.CalledBy i (dest.getD p.node) b := ⟨_, dest, r, hp', rfl, by simp⟩
    have hpoints : points a s' = points a s ++ (point? a s'
        ⟨dest.getD p.node, b, (act b (s.nodes (dest.getD p.node))).1, some i⟩).toList := by
      rw [points, heq, filterMap_concat, filterMap_point? h h' hs]
    rcases hpoint : point? a s'
      ⟨dest.getD p.node, b, (act b (s.nodes (dest.getD p.node))).1, some i⟩ with _ | e <;>
      rw [hpoint] at hpoints
    · exact .inl ⟨hpoints.trans (List.append_nil _), map_of_no_point h hl hs hex hpoint⟩
    · right
      obtain ⟨p₁, hp₁, hname, hop, -, hnode⟩ := point?_spec ha h' hcall hpoint
      obtain rfl := Option.some.inj (hp₁.symm.trans hp')
      exact ⟨i, p, e, hp, hop, hname.trans (hs.root rfl h h' hp),
        fresh_point h h' hs ha hp hc (call_of_point h hp hc hpoint) hcall hpoint, hpoints,
        step_of_point h hl hs ha hp hc hnode hex hpoint⟩

end Step

/-! ### Runs -/

theorem mem_history {i : ℕ} {c : Linear.Call MapOp GetResponse} : c ∈ history s i ↔
    ∃ p op, s.acts[i]? = some p ∧ clientOp? p = some op ∧
      c = { op := op, start := p.start, answer := clientAnswer? p } := by
  rw [history, Option.mem_def, Option.bind_eq_some_iff]
  constructor
  · rintro ⟨p, hp, hc⟩
    obtain ⟨op, hop, rfl⟩ := Option.map_eq_some_iff.1 hc
    exact ⟨p, op, hp, hop, rfl⟩
  · rintro ⟨p, op, hp, hop, rfl⟩
    exact ⟨p, hp, Option.map_eq_some_iff.2 ⟨op, hop, rfl⟩⟩

theorem clientAnswer?_eq_some {p : Activation Db} {t : ℕ} {r : GetResponse}
    (h : clientAnswer? p = some (t, r)) :
    p.stop = some t ∧ ∃ rep, p.Returned rep ∧ rep.status.Ok ∧ rep.getResponse = r := by
  rw [clientAnswer?] at h
  split at h
  case h_2 => cases h
  rename_i t' rep hstop hrep
  split at h
  case isFalse => cases h
  rename_i hok
  obtain ⟨rfl, rfl⟩ := Prod.mk.inj (Option.some.inj h)
  exact ⟨hstop, rep, Prog.result?_eq_some_iff.1 hrep, hok, rfl⟩

/-- **The calls of clients go on** with each step. -/
theorem history_extends {C : Net (db cl) → Label Db → Prop} (h : Reach C (cl.start fun _ ↦ {}) s)
    (hs : Step s l s') : (history s).Extends s.clock (history s') where
  starts i c hc := by
    obtain ⟨p, op, hp, -, rfl⟩ := mem_history.1 hc
    exact h.start_le rfl hp
  keeps i c hc := by
    obtain ⟨p, op, hp, hop, rfl⟩ := mem_history.1 hc
    obtain ⟨p', hp', hnode, htask, horigin, hstart, -⟩ := hs.keeps hp
    have hop' : clientOp? p' = some op := by rw [clientOp?, horigin, htask]; exact hop
    refine ⟨_, mem_history.2 ⟨p', op, hp', hop', rfl⟩, rfl, hstart, fun t r hr ↦ ?_⟩
    obtain ⟨hstop, rep, hret, hok, rfl⟩ := clientAnswer?_eq_some hr
    rcases hs.activation hp' with hsame | ⟨hlen, -⟩ | ⟨p₀, hp₀, rfl, -, -, -, _, _, _, hcall, -⟩ |
      ⟨p₀, hp₀, rfl, -⟩ | ⟨p₀, c, k, x, -, -, -, rfl, -⟩
    · obtain rfl := Option.some.inj (hp.symm.trans hsame)
      exact .inl hr
    · exact absurd hlen (Nat.ne_of_lt (lt_length hp))
    · cases hcall.symm.trans hret
    · obtain rfl := Option.some.inj (hp.symm.trans hp₀)
      exact .inl hr
    · obtain ⟨-, -, rfl⟩ := Option.map_eq_some_iff.1 hstop
      exact .inr rfl

/-- The points explain the calls of clients, and the map is the store of `a`. -/
structure Explained (a : String) (s : Net (db cl)) : Prop where
  order : Linear.Linearization mapObject (history s) (points a s)
  map : mapObject.after (points a s) = (s.nodes a).map

theorem client_of_clientOp? {p : Activation Db} {op : MapOp} (h : clientOp? p = some op) :
    p.origin = none ∧ p.task.Forwarded := by
  rw [clientOp?] at h
  split at h
  · rename_i horigin htask
    exact ⟨horigin, htask ▸ trivial⟩
  · rename_i horigin htask
    exact ⟨horigin, htask ▸ trivial⟩
  · cases h

/-- What a client has asked for is what its procedure is for. -/
theorem clientOp?_of_op? (h : Reach (Leads a) (cl.start fun _ ↦ {}) s) {i : ℕ} {p : Activation Db}
    (hp : s.acts[i]? = some p) (horigin : p.origin = none) {op : MapOp}
    (hop : p.task.op? = some op) : clientOp? p = some op := by
  have hserves := serves_of_client h hp horigin
  rw [clientOp?, horigin]
  rcases htask : p.task with r | _ | _ | _ | _ <;> rw [htask] at hop hserves
  · exact absurd hserves.2 id
  · cases hop
  · exact hop
  · exact hop
  · cases hop

/-- **A step keeps what is explained.** -/
theorem Explained.step (ha : a ∈ cl.memberList) (h : Reach (Leads a) (cl.start fun _ ↦ {}) s)
    (h' : Reach (Leads a) (cl.start fun _ ↦ {}) s') (hex : Explained a s) (hl : Leads a s l)
    (hs : Step s l s') : Explained a s' := by
  have hlt : ∀ i j, s.origin? i = some j → j < i := fun _ _ ↦ h.origin?_lt rfl
  -- the order explains the calls before the step
  have hbefore : Linear.Linearization mapObject (history s) (points a s') ∧
      mapObject.after (points a s') = (s'.nodes a).map := by
    rcases points_step h h' hl hs ha with ⟨hpoints, hmap⟩ |
      ⟨i, p, e, hp, hop, hname, hfresh, hpoints, hstep⟩
    · rw [hpoints, hmap]
      exact ⟨hex.order, hex.map⟩
    rw [hpoints, Linear.Object.after_snoc, hex.map, hstep]
    refine ⟨hex.order.snoc hfresh ?_ (by rw [hex.map, hstep]), rfl⟩
    -- the client on whose behalf the step takes effect
    obtain ⟨hmem, hnone⟩ := root_spec hlt i
    obtain ⟨q, hq, hqop⟩ := op?_of_mem_lineage h hp hop hmem
    have hclient := clientOp?_of_op? h hq ((origin?_eq hq).symm.trans hnone) hqop
    refine ⟨_, mem_history.2 ⟨q, e.op, hname ▸ hq, hclient, rfl⟩, rfl, ?_⟩
    rcases hans : clientAnswer? q with _ | ⟨t, r⟩
    · rfl
    · obtain ⟨e', he', hname', -⟩ := hex.order.answered _ _
        (mem_history.2 ⟨q, e.op, hq, hclient, rfl⟩) t r hans
      exact absurd (List.mem_map.2 ⟨e', he', hname'.trans hname.symm⟩) hfresh
  refine ⟨hbefore.1.advance (history_extends h hs) fun i c hc t r hr ↦ .inr ?_, hbefore.2⟩
  obtain ⟨p, op, hp, hop, rfl⟩ := mem_history.1 hc
  obtain ⟨-, rep, hret, hok, rfl⟩ := clientAnswer?_eq_some hr
  obtain ⟨horigin, hforwarded⟩ := client_of_clientOp? hop
  have hroot : s'.root i = i :=
    root_of_client (fun _ _ ↦ h'.origin?_lt rfl) ((origin?_eq hp).trans horigin)
  obtain ⟨e, he, hname, hans⟩ := exists_point ha h' hp hforwarded hret hok
  exact ⟨e, he, hname.trans hroot, hans⟩

/-- **Linearizability**: in every run in which only the node `a` runs attempts, one at a time, and
what they send to `a` arrives, the sets and gets of all clients at all nodes are answered as by one
map that handles each at some time between its call and its answer; and `a` holds this map. -/
theorem linearizable (ha : a ∈ cl.memberList) (h : Reach (Leads a) (cl.start fun _ ↦ {}) s) :
    ∃ l, Linear.Linearization mapObject (history s) l ∧
      ∀ key, mapObject.after l key = (s.nodes a).kvStore.lookup key := by
  have hex : Explained a s := h.invariant (I := Explained a)
    ⟨.nil fun _ ↦ rfl, rfl⟩ fun _ _ _ h h' hex hl hs ↦ hex.step ha h h' hl hs
  exact ⟨_, hex.order, fun key ↦ congrFun hex.map key⟩

end Runs

/-- A get at `c:1` is answered with a value before the set at `b:1` of this value is, and the
success message of the set to `c:1` is executed at the very end. -/
theorem linearizable_trio : ∃ s : Net (db trio),
    Reach (Leads "a:1") (trio.start fun _ ↦ {}) s ∧
    (∃ c ∈ history s 2, c.op = .set "k" "v" ∧ c.answer = some (44, {})) ∧
    (∃ c ∈ history s 5, c.op = .get "k" ∧ c.answer = some (40, { value := "v" })) ∧
    ∃ l, Linear.Linearization mapObject (history s) l ∧
      ∀ key, mapObject.after l key = (s.nodes "a:1").kvStore.lookup key := by
  obtain ⟨s, hs, hset, hget⟩ : ∃ s : Net (db trio),
      Reach (Leads "a:1") (trio.start fun _ ↦ {}) s ∧
      (∃ c ∈ history s 2, c.op = .set "k" "v" ∧ c.answer = some (44, {})) ∧
      ∃ c ∈ history s 5, c.op = .get "k" ∧ c.answer = some (40, { value := "v" }) :=
    Reach.exists_of_steps (by
      decide +kernel : ((trio.start fun _ ↦ {}).steps (Leads "a:1")
        (election "a:1" 0 ++ .submit "b:1" (.set "k" "v") :: calls 2 2 ++ calls 1 2 ++ calls 2 3 ++
          calls 11 4 ++ .submit "c:1" (.get "k") :: calls 3 5 ++ calls 2 6 ++ calls 1 5 ++
          calls 1 4 ++ [.step 4 .late] ++ calls 1 3 ++ calls 1 2 ++ [.deliver 0])).any _ = true)
  exact ⟨s, hs, hset, hget, linearizable (by decide) hs⟩

end ReplicatedDB
