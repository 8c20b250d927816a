import ReplicatedDB.Protocol.Deposed
import ReplicatedDB.Protocol.FailureFree
import ReplicatedDB.Protocol.LogMatching
import ReplicatedDB.Protocol.Resend
import ReplicatedDB.Rpc.Client

/-!
# One leader

Clients call sets, gets and elections at any nodes, but only the node `a` runs attempts, one at a
time, and what these send to `a` itself arrives (`Leads`). Then `a` is the only node that wins
elections and that is found in a leader register (`leader_of_leads`), so that a handler that
forwards a request to another node does it once (`not_invoked_of_forwardsOnce`). Hence whatever a
procedure calls second is an election (`elect_of_sibling`).
-/

namespace ReplicatedDB

open Rpc Rpc.Net

variable {cl : Cluster}

/-! ### The condition -/

instance (a : String) : (t : Task) → Decidable (cl.Serves a t)
  | .set _ _ | .get _ | .electLeader _ _ => inferInstanceAs (Decidable (_ ∧ _))
  | .attemptConsensus _ | .coordinate => inferInstanceAs (Decidable (_ ∧ False))

/-- Only the node `a` runs attempts, one at a time. Clients call sets, gets and elections. -/
def Leads (a : String) (s : Net (db cl)) (l : Label Db) : Prop :=
  OneProposer a s l ∧ match l with
    | .submit d t => cl.Serves d t
    | _ => True

instance (a : String) (s : Net (db cl)) : DecidablePred (Leads a s)
  | .submit _ _ => inferInstanceAs (Decidable (_ ∧ _))
  | .step _ _ | .deliver _ | .restart _ => inferInstanceAs (Decidable (_ ∧ True))

/-! ### What is called once -/

/-- No success message was sent. -/
def NoSuccess (h : History) : Prop := ∀ d q, ¬ Sent h d (.success q)

theorem NoSuccess.append {h : History} (hh : NoSuccess h) (d : String) {b : Act}
    (hb : ∀ q, b ≠ .success q) (x : b.Ret) :
    NoSuccess (h ++ [⟨.act (some d) b, x⟩]) := by
  intro d' q hs
  rcases sent_append_one.1 hs with hs | ⟨-, heq⟩
  · exact hh d' q hs
  · exact hb q heq.symm

/-- A handler that forwards its request has found another node in the leader register. Unless it
forwards it for the first time, it has won an election. -/
def forwardsOnce (me : String) (h : History) : Prop :=
  (∃ addr h', h = readLeaderIs addr :: h' ∧ addr ≠ "" ∧ addr ≠ me) ∧
    ((∀ dest t rep, (⟨.invoke dest t, rep⟩ : Event Db) ∉ h) ∨
      ∃ rep : Reply, (⟨.invoke (some me) (.electLeader "leader" me), rep⟩ : Event Db) ∈ h ∧
        rep.status.Ok)

/-- An attempt informs every node once, and handlers forward their requests once, unless they win an
election. -/
def onceEmits (me : String) : Task → History → Call Db → Prop
  | .attemptConsensus _, h, .act (some d) (.success _) => ∀ q, ¬ Sent h d (.success q)
  | .set key value, h, .invoke _ t => t = .set key value → forwardsOnce me h
  | .get key, h, .invoke _ t => t = .get key → forwardsOnce me h
  | .get _, _, .act none (.getKV _) => me ≠ ""
  | _, _, _ => True

/-- Sets return nothing but their status. -/
def onceReturns : Task → Reply → Prop
  | .set _ _, rep => rep.getResponse = {}
  | _, _ => True

/-- A stage other than the last one. -/
theorem stage_noSuccess {me : String} {r : Request} {β : Type} {b : Act} (hb : ∀ q, b ≠ .success q)
    (f : β → String → b.Ret → β) (l : List String) (v : β) {h : History} (hh : NoSuccess h) :
    Sat (fun _ _ ↦ True) (onceEmits me (.attemptConsensus r)) (fun h' _ ↦ NoSuccess h')
      (l.foldlM (fun v d ↦ do
        let x ← Prog.send (S := Db) d b
        pure (f v d x)) v) h := by
  refine Sat.foldlM (fun _ _ h' ↦ NoSuccess h') (fun d _ v h' hh' ↦ ?_) l v h hh
  have hemit : onceEmits me (.attemptConsensus r) h' (.act (some d) b) := by
    cases b with
    | success q => exact absurd rfl (hb q)
    | _ => trivial
  exact ⟨hemit, fun x _ ↦ hh'.append d hb x⟩

theorem attempt_once (me : String) {members : List String} (hnodup : members.Nodup) (r : Request) :
    Sat (fun _ _ ↦ True) (onceEmits me (.attemptConsensus r)) (fun _ _ ↦ True)
      (attemptConsensus members r) [] := by
  refine ⟨trivial, fun log _ ↦ ?_⟩
  have hnone : NoSuccess ([] ++ [⟨.act none (Act.getLog r.key), log⟩]) := by
    rintro d q ⟨x, hx⟩
    cases List.mem_singleton.1 hx
  show Sat _ _ _ (pingStage members >>= _) _
  refine Sat.bind ((stage_noSuccess (b := .ping) nofun _ members [] hnone).mono fun h₁ live h₁' ↦
    ?_)
  refine Sat.ite (fun _ ↦ trivial) fun _ ↦ ?_
  refine Sat.bind ((stage_noSuccess (b := .propose _) nofun _ live _ h₁').mono fun h₂ v h₂' ↦ ?_)
  refine Sat.ite (fun _ ↦ trivial) fun _ ↦ ?_
  refine Sat.bind ((stage_noSuccess (b := .accept _) nofun _ live _ h₂').mono fun h₃ v h₃' ↦ ?_)
  refine Sat.ite (fun _ ↦ trivial) fun _ ↦ ?_
  -- the nodes that are still to be informed have not been informed
  refine Sat.bind ((Sat.foldlM
    (fun rest _ h ↦ rest.Nodup ∧ ∀ d ∈ rest, ∀ q, ¬ Sent h d (.success q)) ?_ members () h₃
    ⟨hnodup, fun d _ q ↦ h₃' d q⟩).mono fun _ _ _ ↦ trivial)
  rintro d rest - h ⟨hrest, hh⟩
  refine ⟨hh d (by simp), fun st _ ↦ ⟨(List.nodup_cons.1 hrest).2, fun d' hd' q hs ↦ ?_⟩⟩
  rcases sent_append_one.1 hs with hs | ⟨rfl, -⟩
  · exact hh d' (List.mem_cons_of_mem _ hd') q hs
  · exact (List.nodup_cons.1 hrest).1 hd'

theorem forward_once {emits : History → Call Db → Prop} {returns : Reply → Prop}
    {members : List String} {me addr : String} {task : Task} {answer : Reply → Reply}
    (hread : ∀ h, emits h (.act none .readLeader))
    (helect : ∀ h, emits h (.invoke (some me) (.electLeader "leader" me)))
    (hforward : ∀ h d, forwardsOnce me h → emits h (.invoke (some d) task))
    (hfail : ∀ st, returns { status := st }) (hanswer : ∀ rep, returns (answer rep))
    (hset : addr ≠ "") (hne : addr ≠ me) :
    Sat (fun _ _ ↦ True) emits (fun _ ↦ returns) (forward members me task answer)
      [readLeaderIs addr] := by
  refine ⟨hread _, fun leader _ ↦ Sat.ite (fun _ ↦ ?_) fun _ ↦ hfail _⟩
  refine ⟨hforward _ _ ⟨⟨addr, _, rfl, hset, hne⟩, .inl (by simp)⟩, fun rep _ ↦
    Sat.ite (fun _ ↦ hanswer rep) fun _ ↦ ?_⟩
  refine ⟨helect _, fun election _ ↦ Sat.ite (fun _ ↦ hfail _) fun hok ↦ ?_⟩
  -- an election was won
  refine ⟨hread _, fun leader' _ ↦ Sat.ite (fun _ ↦ ?_) fun _ ↦ hfail _⟩
  exact ⟨hforward _ _ ⟨⟨addr, _, rfl, hset, hne⟩, .inr ⟨election, by simp, not_not.1 hok⟩⟩,
    fun rep' _ ↦ Sat.ite (fun _ ↦ hfail _) fun _ ↦ hanswer rep'⟩

theorem set_once (members : List String) (me key value : String) :
    Sat (fun _ _ ↦ True) (onceEmits me (.set key value)) (fun _ ↦ onceReturns (.set key value))
      (set members me key value) [] := by
  refine ⟨trivial, fun addr _ ↦ Sat.ite (fun _ ↦ rfl) fun hset ↦
    Sat.ite (fun _ ↦ ⟨nofun, fun _ _ ↦ rfl⟩) fun hne ↦ ?_⟩
  exact forward_once (fun _ ↦ trivial) (fun _ ↦ nofun) (fun _ _ hh _ ↦ hh) (fun _ ↦ rfl)
    (fun _ ↦ rfl) hset hne

theorem get_once (members : List String) (me key : String) :
    Sat (fun _ _ ↦ True) (onceEmits me (.get key)) (fun _ _ ↦ True) (get members me key) [] := by
  refine ⟨trivial, fun addr _ ↦ Sat.ite (fun _ ↦ trivial) fun hset ↦ Sat.ite (fun hme ↦ ?_)
    fun hne ↦ ?_⟩
  · exact ⟨hme ▸ hset, fun _ _ ↦ Sat.ite (fun _ ↦ trivial) fun _ ↦ trivial⟩
  · exact forward_once (fun _ ↦ trivial) (fun _ ↦ nofun) (fun _ _ hh _ ↦ hh) (fun _ ↦ trivial)
      (fun _ ↦ trivial) hset hne

/-- The contract that says what is called once. -/
def onceContract (cl : Cluster) : Rpc.Contract (db cl) where
  rely _ _ := True
  emits := onceEmits
  returns _ t _ := onceReturns t
  rely_act _ _ _ := trivial
  rely_lost _ _ := trivial
  rely_invoke _ _ _ := trivial
  body_sat me t := by
    cases t with
    | attemptConsensus r => exact attempt_once me cl.nodup r
    | set key value => exact set_once cl.memberList me key value
    | get key => exact get_once cl.memberList me key
    | electLeader key value => exact Sat.of_forall (fun _ _ ↦ trivial) (fun _ _ ↦ trivial) _ _
    | coordinate => exact Sat.of_forall (fun _ _ ↦ trivial) (fun _ _ ↦ trivial) _ _

/-! ### What is called -/

section Runs

variable {a : String} {s s' : Net (db cl)} {l : Label Db}

/-- The procedures that run at the node `n`, if only `a` runs attempts. -/
def Task.Proper (a n : String) : Task → Prop
  | .attemptConsensus r => n = a ∧
      (r = electRequest "leader" a ∨ r = setRequest r.key r.value ∧ r.key ≠ "leader")
  | .electLeader key value => key = "leader" ∧ value = n
  | .set key _ | .get key => key ≠ "leader"
  | .coordinate => False

theorem Task.Proper.of_serves {n : String} {t : Task} (h : cl.Serves n t) : t.Proper a n := by
  cases t with
  | attemptConsensus r => exact absurd h.2 id
  | coordinate => exact absurd h.2 id
  | _ => exact h.2

/-- **What is called** is proper. -/
theorem proper (h : Reach (Leads a) (cl.start fun _ ↦ {}) s) {j : ℕ} {p : Activation Db}
    (hp : s.acts[j]? = some p) : p.task.Proper a p.node := by
  refine h.invariant (I := fun s ↦ ∀ (j : ℕ) (p : Activation Db), s.acts[j]? = some p →
    p.task.Proper a p.node) (by simp) ?_ j p hp
  rintro s l s' hr - ih hl hs j p' hp'
  rcases hs.activation hp' with hp | ⟨-, n, t, origin, rfl, hopen⟩ | ⟨p, hp, rfl, -⟩ |
    ⟨p, hp, rfl, -⟩ | ⟨p, c, k, r, hp, -, -, rfl, -⟩
  · exact ih j p' hp
  · show t.Proper a n
    have hsolo := hl.1.2.2 _ hopen.opens?_eq
    rcases hopen with ⟨rfl, -⟩ | ⟨rfl, -⟩ | ⟨i, p, dest, k, -, hp, -, hc, -, rfl, -⟩
    · exact .of_serves hl.2
    · exact absurd hl.1.1 id
    have hcaller := ih i p hp
    have hemit := ((contract cl).lawful rfl hr i p hp).emits hc
    rcases task_of_emits hemit with ⟨key, value, htask, rfl⟩ | ⟨key, value, htask, rfl⟩ |
      ⟨hforward, htask⟩ | rfl
    · rw [htask] at hcaller hemit
      obtain ⟨rfl, rfl⟩ := hcaller
      obtain rfl : dest = none := by
        cases dest with
        | none => rfl
        | some d => exact absurd hemit id
      have hnode : p.node = a := (hsolo rfl).1
      exact ⟨hnode, .inl (hnode ▸ rfl)⟩
    · rw [htask] at hcaller
      exact ⟨(hsolo rfl).1, .inr ⟨rfl, hcaller⟩⟩
    · rw [← htask] at hcaller hforward
      cases t with
      | set _ _ | get _ => exact hcaller
      | _ => exact absurd hforward id
    · obtain ⟨rfl, -⟩ := dest_of_elect hemit
      exact ⟨rfl, rfl⟩
  · exact ih j p hp
  · exact ih j p hp
  · exact ih j p hp

/-- Clients call what is served. -/
theorem serves_of_client (h : Reach (Leads a) (cl.start fun _ ↦ {}) s) {j : ℕ} {p : Activation Db}
    (hp : s.acts[j]? = some p) (horigin : p.origin = none) : cl.Serves p.node p.task := by
  refine h.invariant (I := fun s ↦ ∀ (j : ℕ) (p : Activation Db), s.acts[j]? = some p →
    p.origin = none → cl.Serves p.node p.task) (by simp) ?_ j p hp horigin
  rintro s l s' - - ih hl hs j p' hp' horigin
  rcases hs.activation hp' with hp | ⟨-, n, t, origin, rfl, hopen⟩ | ⟨p, hp, rfl, -⟩ |
    ⟨p, hp, rfl, -⟩ | ⟨p, c, k, r, hp, -, -, rfl, -⟩
  · exact ih j p' hp horigin
  · rcases hopen with ⟨rfl, -⟩ | ⟨rfl, -⟩ | ⟨i, p, dest, k, -, -, -, -, -, -, rfl⟩
    · exact hl.2
    · exact absurd hl.1.1 id
    · cases horigin
  · exact ih j p hp horigin
  · exact ih j p hp horigin
  · exact ih j p hp horigin

/-! ### The leader -/

theorem oneByOne_of_leads (h : Reach (Leads a) (cl.start fun _ ↦ {}) s) : OneByOne a s :=
  oneByOne (h.mono fun _ _ hl ↦ hl.1)

/-- An attempt that is called at the own node runs at `a`. -/
theorem node_of_attempted (h : Reach (Leads a) (cl.start fun _ ↦ {}) s) {j : ℕ}
    {p : Activation Db} (hp : s.acts[j]? = some p) {r : Request} {rep : Reply}
    (he : attempted r rep ∈ p.hist) : p.node = a := by
  obtain ⟨i, q, hq, htask, hnode, -⟩ | ⟨hdest, -⟩ := h.invoked rfl hp he
  · exact hnode.symm.trans ((oneByOne_of_leads h).node i q r hq htask)
  · cases hdest

/-- **Only `a` is elected.** -/
theorem node_of_elected (h : Reach (Leads a) (cl.start fun _ ↦ {}) s) {j : ℕ} {p : Activation Db}
    (hp : s.acts[j]? = some p) {d key value : String} {rep : Reply}
    (he : (⟨.invoke (some d) (.electLeader key value), rep⟩ : Event Db) ∈ p.hist)
    (hok : rep.status.Ok) : d = a := by
  obtain ⟨i, q, hq, htask, hnode, -, hret⟩ | ⟨-, rfl⟩ := h.invoked rfl hp he
  · have hreturns := ((contract cl).lawful rfl h i q hq).returns hret
    rw [htask] at hreturns
    obtain ⟨rep', -, hhist⟩ := hreturns
    have hmem : attempted (electRequest key value) rep' ∈ q.hist := by
      rcases hhist with ⟨-, heq⟩ | ⟨-, heq⟩ <;> rw [heq] <;> exact List.mem_cons_self
    exact hnode.symm.trans (node_of_attempted h hq hmem)
  · exact absurd hok Status.not_ok_unavailable

section Values

variable (ha : a ∈ cl.memberList)
include ha

/-- **What an attempt writes** is what it was called for. -/
theorem attempt_of_calledBy (h : Reach (Leads a) (cl.start fun _ ↦ {}) s) {j : ℕ} {d : String}
    {b : Act} (hcall : s.CalledBy j d b) {q : Request} (hq : b.write? = some q) :
    ∃ p r, s.acts[j]? = some p ∧ p.task = .attemptConsensus r ∧ p.node = a ∧
      r.key = q.key ∧ r.value = q.value := by
  have hone : Reach (OneProposer a) (cl.start fun _ ↦ {}) s := h.mono fun _ _ hl ↦ hl.1
  obtain ⟨r, ⟨p, d', hp, htask, -⟩, hkey, -, hvalue⟩ := own_of_write hone
    (ownEntries solo_oneProposer (fun _ ↦ rfl) ha hone).heard hcall hq
  exact ⟨p, r, hp, htask, (oneByOne hone).node j p r hp htask, hkey, hvalue⟩

/-- Only `a` is made the leader. -/
theorem value_of_calledBy (h : Reach (Leads a) (cl.start fun _ ↦ {}) s) {j : ℕ} {d : String}
    {b : Act} (hcall : s.CalledBy j d b) {q : Request} (hq : b.write? = some q)
    (hkey : q.key = "leader") : q.value = a := by
  obtain ⟨p, r, hp, htask, -, hkey', hvalue⟩ := attempt_of_calledBy ha h hcall hq
  have hproper := proper h hp
  rw [htask] at hproper
  obtain ⟨-, rfl | ⟨-, hne⟩⟩ := hproper
  · exact hvalue.symm
  · exact absurd (hkey'.trans hkey) hne

/-- **The registers**: nobody knows another leader than `a`. -/
theorem leader_of_leads (h : Reach (Leads a) (cl.start fun _ ↦ {}) s) (d : String) :
    (s.nodes d).leader = "" ∨ (s.nodes d).leader = a := by
  refine h.invariant (I := fun (s : Net (db cl)) ↦ (s.nodes d).leader = "" ∨
    (s.nodes d).leader = a) (.inl rfl) ?_
  intro s l s' hr hr' ih hl hs
  rcases replica_step hs d with hnode | ⟨b, hex, hnode⟩ | ⟨rfl, -⟩
  · rwa [hnode]
  · rw [hnode]
    obtain ⟨j, hcall⟩ := hr.calledBy_of_executed rfl hs hex
    rcases leader_act b (s.nodes d) (sound_of_requested rfl rfl hr (hs.executed hex)) with
      heq | ⟨q, rfl, -, hkey, heq⟩ | ⟨v, rfl, heq⟩ <;> rw [heq]
    · exact ih
    · exact .inr (value_of_calledBy ha hr' hcall rfl hkey)
    · -- the winner of an election: it has carried its own value
      right
      obtain ⟨p, dest, x, hp, -, hmem⟩ := hcall
      obtain ⟨h₁, hpre, hemit, -⟩ := ((contract cl).lawful rfl hr' j p hp).emits_of_mem hmem
      have hproper := proper hr' hp
      obtain ⟨rfl, htask | ⟨key, value, rep, htask, rfl, hok, rfl⟩⟩ :=
        writeLeader_of_emits hemit <;> rw [htask] at hproper
      · exact absurd hproper id
      obtain ⟨i, q, hq, hqtask, -, -, hret⟩ | ⟨hdest, -⟩ :=
        hr'.invoked rfl hp (hpre.subset List.mem_cons_self)
      case inr => cases hdest
      have hreturns := ((contract cl).lawful rfl hr' i q hq).returns hret
      rw [hqtask] at hreturns
      obtain ⟨-, ⟨-, qa, ⟨hadopt, -, Q, hQ, hvotes⟩, hresponse, -⟩ | ⟨hfail, -⟩⟩ := hreturns
      · obtain ⟨e, he⟩ := hQ.nonempty cl.ne_nil
        obtain ⟨y, hy, -⟩ := hvotes e he
        rw [hresponse]
        exact value_of_calledBy (b := .accept qa) ha hr' ⟨q, some e, y, hq, rfl, hy⟩ rfl
          (hadopt.key.trans hproper.1)
      · rw [hfail] at hok
        exact absurd hok (Status.not_ok_aborted _)
  · exact absurd hl.1.1 id

/-- What a register is found to hold. -/
theorem leader_of_read (h : Reach (Leads a) (cl.start fun _ ↦ {}) s) {j : ℕ} {p : Activation Db}
    (hp : s.acts[j]? = some p) {addr : String} (he : readLeaderIs addr ∈ p.hist) :
    addr = "" ∨ addr = a := by
  refine h.answered rfl (P := fun _ _ e ↦ ∀ addr, e = readLeaderIs addr → addr = "" ∨ addr = a)
    (fun _ _ _ _ _ _ _ _ _ _ _ _ hkeep ↦ hkeep) ?_ j p hp _ he addr rfl
  rintro s l s' hr - - - j p c k r hp - hc hans addr heq
  obtain ⟨rfl, heq⟩ := Sigma.mk.inj heq
  obtain rfl := eq_of_heq heq
  rcases hans.lost_or_executed hp hc with ⟨hdest, -⟩ | ⟨-, -, rfl⟩
  · cases hdest
  · exact leader_of_leads ha hr p.node

/-- **A request is forwarded once**: no node other than `a` wins an election. -/
theorem not_invoked_of_forwardsOnce (h : Reach (Leads a) (cl.start fun _ ↦ {}) s) {j : ℕ}
    {p : Activation Db} (hp : s.acts[j]? = some p) {h₁ : History} (hpre : h₁ <+: p.hist)
    (hforward : forwardsOnce p.node h₁) (dest : Option String) (t : Task) (rep : Reply) :
    (⟨.invoke dest t, rep⟩ : Event Db) ∉ h₁ := by
  obtain ⟨⟨addr, h₂, rfl, hset, hne⟩, hfirst | ⟨rep', hmem, hok⟩⟩ := hforward
  · exact hfirst dest t rep
  · -- the winner has found itself in the register
    have haddr := (leader_of_read ha h hp (hpre.subset List.mem_cons_self)).resolve_left hset
    have hnode := node_of_elected h hp (hpre.subset hmem) hok
    exact absurd (haddr.trans hnode.symm) hne

/-- **Who is called second** runs an election. -/
theorem elect_of_sibling (h : Reach (Leads a) (cl.start fun _ ↦ {}) s) {b₁ b₂ c : ℕ}
    (hb₁ : s.origin? b₁ = some c) {q : Activation Db} (hq : s.acts[b₂]? = some q)
    (hb₂ : s.origin? b₂ = some c) (hlt : b₁ < b₂) :
    ∃ key value, q.task = .electLeader key value := by
  obtain ⟨p, h₁, dest, hp, hpre, hemit, dest', t', r', hmem⟩ :=
    h.emits_of_sibling (contract cl) rfl hb₁ hq hb₂ hlt
  obtain ⟨p', h₂, dest₂, hp', hpre₂, hemit₂, hmem₂⟩ :=
    h.emits_of_sibling (onceContract cl) rfl hb₁ hq hb₂ hlt
  obtain rfl := Option.some.inj (hp.symm.trans hp')
  rcases task_of_emits hemit with ⟨key, value, htask, hqtask⟩ | ⟨key, value, htask, hqtask⟩ |
    ⟨hforwarded, hqtask⟩ | hqtask
  · rw [htask, hqtask] at hemit
    cases dest with
    | some d => exact absurd hemit id
    | none => exact absurd (hemit.2 ▸ hmem) List.not_mem_nil
  · have hset : Task.SetAttempt q.task := by rw [hqtask]; exact rfl
    rw [hist_of_emits hemit hset] at hmem
    cases List.mem_singleton.1 hmem
  · exfalso
    obtain ⟨dest₂', t₂, r₂, hmem₂⟩ := hmem₂
    rw [hqtask] at hemit₂
    refine not_invoked_of_forwardsOnce ha h hp hpre₂ ?_ _ _ _ hmem₂
    rcases htask : p.task with _ | _ | ⟨key, value⟩ | key | _ <;> rw [htask] at hforwarded hemit₂
    case set => exact hemit₂ rfl
    case get => exact hemit₂ rfl
    all_goals exact absurd hforwarded id
  · exact ⟨_, _, hqtask⟩

end Values

end Runs

end ReplicatedDB
