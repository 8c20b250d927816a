import ReplicatedDB.Model.Evaluation
import ReplicatedDB.Rpc.Locality

/-!
# Independence of keys

Client sets of different keys at one leader do not disturb each other. All actions that a set of
`key` calls are about that key (`Act.About`): they answer and act according to the part of the state
that belongs to the key (`alike_act`), and leave the other parts and the leader alone (`frame_act`).

In a concurrent run (`Concurrently`) every set therefore is a thread whose evaluation, at any time,
ends as it would have ended alone from the initial states (`Separate.step`). When all have
returned, the answers and the parts of the nodes are those of the sets alone, and these are also
what every order of handling them one after another leads to (`endsAs_of_session`). So the
interleaving does not matter (`sets_independent`).
-/

namespace ReplicatedDB

open Rpc Rpc.Net

variable {cl : Cluster} {a key : String}

/-! ### The part of a state that belongs to a key -/

/-- The rounds logged for the key, if any, and its value, if any. -/
def Replica.part (s : Replica) (key : String) : Option Log × Option String :=
  (s.paxLog.lookup key, s.kvStore.lookup key)

/-- Two nodes agree on a key, and on the leader. -/
structure Alike (key : String) (s s' : Replica) : Prop where
  part : s.part key = s'.part key
  leader : s.leader = s'.leader

theorem Alike.refl (key : String) (s : Replica) : Alike key s s := ⟨rfl, rfl⟩

theorem Alike.log {s s' : Replica} (h : Alike key s s') : s.log key = s'.log key := by
  have := congrArg Prod.fst h.part
  rw [Replica.log, Replica.log, PaxLog.rounds, PaxLog.rounds,
    show s.paxLog.lookup key = _ from this]
  rfl

/-- The actions that a set of the key calls. -/
def Act.About (key : String) : Act → Prop
  | .getLog k => k = key
  | .propose q | .accept q | .success q => q.key = key ∧ 0 ≤ q.round
  | .readLeader | .ping => True
  | _ => False

theorem Alike.store {s s' : Replica} (h : Alike key s s') :
    s.kvStore.lookup key = s'.kvStore.lookup key := congrArg Prod.snd h.part

theorem lookup_modify_self (l : PaxLog) (key : String) (round : ℤ) (f : LogEntry → LogEntry) :
    (l.modify key round f).lookup key =
      some ((l.rounds key).insert round (f ((l.rounds key).entry round))) :=
  Finmap.lookup_insert _

theorem lookup_modify_of_ne (l : PaxLog) {key key' : String} (hne : key' ≠ key) (round : ℤ)
    (f : LogEntry → LogEntry) : (l.modify key round f).lookup key' = l.lookup key' :=
  Finmap.lookup_insert_of_ne _ hne

theorem lookup_setLog_of_ne (l : PaxLog) {key key' : String} (hne : key' ≠ key) (round : ℤ) :
    (l.setLog key round).lookup key' = l.lookup key' := by
  rw [PaxLog.setLog, lookup_modify_of_ne l hne]

theorem lookup_setLogAccept_of_ne (l : PaxLog) {key key' : String} (hne : key' ≠ key)
    (round aServer : ℤ) (op : Operation) (value : String) :
    (l.setLogAccept key round aServer op value).lookup key' = l.lookup key' := by
  rw [PaxLog.setLogAccept, lookup_modify_of_ne l hne]

/-- The log of the key is changed in the same way. -/
theorem Alike.lookup_modify {s s' : Replica} (h : Alike key s s') (round : ℤ)
    (f : LogEntry → LogEntry) :
    (s.paxLog.modify key round f).lookup key = (s'.paxLog.modify key round f).lookup key := by
  have hlog : s.paxLog.rounds key = s'.paxLog.rounds key := h.log
  rw [lookup_modify_self, lookup_modify_self, hlog]

theorem alike_propose {q : Request} {s s' : Replica} (h : Alike q.key s s') :
    (propose false q s).1 = (propose false q s').1 ∧
      Alike q.key (propose false q s).2 (propose false q s').2 := by
  rw [propose_answer, propose_answer, propose_state, propose_state, h.log]
  exact ⟨rfl, Prod.ext (h.lookup_modify _ _) h.store, h.leader⟩

theorem alike_accept {q : Request} {s s' : Replica} (h : Alike q.key s s') :
    (accept false q s).1 = (accept false q s').1 ∧
      Alike q.key (accept false q s).2 (accept false q s').2 := by
  rw [accept_answer, accept_answer, accept_state, accept_state]
  exact ⟨rfl, Prod.ext (h.lookup_modify _ _) h.store, h.leader⟩

theorem alike_success {q : Request} {s s' : Replica} (hround : 0 ≤ q.round)
    (hkey : q.key ≠ "leader") (h : Alike q.key s s') :
    (success false q s).1 = (success false q s').1 ∧
      Alike q.key (success false q s).2 (success false q s').2 := by
  have hmin : intMin ≤ q.round := (by decide : intMin ≤ 0).trans hround
  have hcur : Current q s ↔ Current q s' := by rw [Current, Current, h.log]
  rw [success_answer q s hmin, success_answer q s' hmin, success_state q s hmin,
    success_state q s' hmin]
  refine ⟨by simp only [hcur], Prod.ext (h.lookup_modify _ _) ?_, ?_⟩
  · simp only [Replica.part, hcur]
    split
    · rw [KVStore.lookup_setKV_self, KVStore.lookup_setKV_self]
    · exact h.store
  · simp only [hkey, and_false, if_false]
    exact h.leader

/-- **Actions about a key** act alike on states that are alike. -/
theorem alike_act {b : Act} (hb : b.About key) (hkey : key ≠ "leader") {s s' : Replica}
    (h : Alike key s s') : (act b s).1 = (act b s').1 ∧ Alike key (act b s).2 (act b s').2 := by
  cases b with
  | getLog k =>
    obtain rfl := hb
    exact ⟨h.log, h⟩
  | readLeader => exact ⟨h.leader, h⟩
  | ping => exact ⟨rfl, h⟩
  | propose q =>
    obtain ⟨rfl, -⟩ := hb
    exact alike_propose h
  | accept q =>
    obtain ⟨rfl, -⟩ := hb
    exact alike_accept h
  | success q =>
    obtain ⟨rfl, hround⟩ := hb
    exact alike_success hround hkey h
  | _ => exact absurd hb id

/-- **Actions about a key** leave the other keys and the leader alone. -/
theorem frame_act {b : Act} (hb : b.About key) (hkey : key ≠ "leader") (s : Replica) :
    (act b s).2.leader = s.leader ∧
      ∀ key', key' ≠ key → (act b s).2.part key' = s.part key' := by
  cases b with
  | getLog k => exact ⟨rfl, fun _ _ ↦ rfl⟩
  | readLeader => exact ⟨rfl, fun _ _ ↦ rfl⟩
  | ping => exact ⟨rfl, fun _ _ ↦ rfl⟩
  | propose q =>
    obtain ⟨rfl, -⟩ := hb
    change (propose false q s).2.leader = _ ∧
      ∀ key', key' ≠ q.key → (propose false q s).2.part key' = _
    rw [propose_state]
    exact ⟨rfl, fun _ hne ↦ Prod.ext (lookup_setLog_of_ne s.paxLog hne q.round) rfl⟩
  | accept q =>
    obtain ⟨rfl, -⟩ := hb
    change (accept false q s).2.leader = _ ∧
      ∀ key', key' ≠ q.key → (accept false q s).2.part key' = _
    rw [accept_state]
    exact ⟨rfl, fun _ hne ↦ Prod.ext
      (lookup_setLogAccept_of_ne s.paxLog hne q.round q.pserverId q.op q.value) rfl⟩
  | success q =>
    obtain ⟨rfl, hround⟩ := hb
    change (success false q s).2.leader = _ ∧
      ∀ key', key' ≠ q.key → (success false q s).2.part key' = _
    rw [success_state q s ((by decide : intMin ≤ 0).trans hround)]
    refine ⟨by simp [hkey], fun key' hne ↦ Prod.ext
      (lookup_setLogAccept_of_ne s.paxLog hne q.round q.pserverId q.op q.value) ?_⟩
    simp only [Replica.part]
    split
    · exact KVStore.lookup_setKV_of_ne _ _ hne
    · rfl
  | _ => exact absurd hb id

/-! ### Sets at the leader -/

/-- Calls about a key: actions, and attempts at it. -/
def CallAbout (key : String) : Call Db → Prop
  | .act _ b => b.About key
  | .invoke none (.attemptConsensus r) => r.key = key
  | .invoke _ _ => False

/-- Actions about a key. -/
def ActAbout (key : String) (c : Call Db) : Prop := ∃ dest b, c = .act dest b ∧ b.About key

theorem ActAbout.callAbout {c : Call Db} (h : ActAbout key c) : CallAbout key c := by
  obtain ⟨dest, b, rfl, hb⟩ := h
  exact hb

/-- The answers that programs at the leader `a` get: its register names the node itself. -/
def relyAt (a : String) : (c : Call Db) → c.Ret → Prop
  | .act none .readLeader, addr => addr = a
  | c, r => rely c r

theorem rely_of_relyAt {c : Call Db} {r : c.Ret} (h : relyAt a c r) : rely c r := by
  rcases c with ⟨_ | d, b⟩ | ⟨dest, t⟩
  · cases b <;> first | exact h | trivial
  · exact h
  · trivial

/-- Two states of the node `d` that agree on the key; that of `a` names it as the leader. -/
def AlikeAt (a key d : String) (s s' : Replica) : Prop :=
  Alike key s s' ∧ (d = a → s.leader = a)

/-- The calls of an attempt are actions about its key. -/
theorem about_of_attemptEmits {members : List String} {r : Request} {h : History} {c : Call Db}
    (he : attemptEmits members r h c) : ActAbout r.key c := by
  rcases c with ⟨_ | d, b⟩ | ⟨_ | d, t⟩
  · cases b <;> first | exact absurd he id | exact ⟨_, _, rfl, he.1⟩
  · cases b with
    | ping => exact ⟨_, _, rfl, trivial⟩
    | propose q =>
      obtain ⟨-, rfl, -⟩ := he
      exact ⟨_, _, rfl, rfl, roundOf_nonneg h⟩
    | accept q =>
      obtain ⟨-, hq, -⟩ := he
      exact ⟨_, _, rfl, hq.key, hq.round ▸ roundOf_nonneg h⟩
    | success q =>
      obtain ⟨-, -, qa, ⟨hq, -⟩, rfl⟩ := he
      exact ⟨_, _, rfl, rfl, hq.round ▸ roundOf_nonneg h⟩
    | _ => exact absurd he id
  · exact absurd he id
  · exact absurd he id

theorem within_attempt (cl : Cluster) (a : String) (r : Request) :
    (attemptConsensus cl.memberList r).Within (relyAt a) (ActAbout r.key) := by
  refine (attemptConsensus_sat cl.nodup cl.ne_nil r).within (fun _ _ ↦ rely_of_relyAt) ?_
  exact fun _ _ he ↦ about_of_attemptEmits he

/-- **Programs at the leader about a key** act alike on states that agree on it. -/
theorem local_about (cl : Cluster) (a : String) (hkey : key ≠ "leader") :
    Local (db cl) a (relyAt a) (CallAbout key) (AlikeAt a key) where
  lost d b _ := (contract cl).rely_lost (some d) b
  act dest b hb st st' hst := by
    obtain ⟨hans, hparts⟩ := alike_act hb hkey hst.1
    refine ⟨hans, ?_, hparts, fun hd ↦ (frame_act hb hkey st).1.trans (hst.2 hd)⟩
    have hrely : rely (.act dest b) (act b st).1 := (contract cl).rely_act dest b st
    cases dest with
    | some d => exact hrely
    | none => cases b <;> first | exact hst.2 rfl | exact hrely
  invoke dest t ht := by
    cases dest with
    | some d => exact absurd ht id
    | none =>
      cases t with
      | attemptConsensus r =>
        obtain rfl := ht
        exact ⟨rfl, (within_attempt cl a r).mono fun _ ↦ ActAbout.callAbout, fun _ ↦ trivial⟩
      | _ => exact absurd ht id

theorem within_set (cl : Cluster) (hne : a ≠ "") (key value : String) :
    (body cl a (.set key value)).Within (relyAt a) (CallAbout key) := by
  rw [body, set, Prog.here_bind]
  refine ⟨trivial, fun addr haddr ↦ ?_⟩
  obtain rfl : addr = a := haddr
  beta_reduce
  rw [if_neg hne, if_pos rfl]
  exact ⟨rfl, fun _ _ ↦ trivial⟩

/-- **A set at the leader evaluates.** -/
theorem exists_evals_set {N : String → Replica} {w : Plan Db} (hleader : (N a).leader = a)
    (hne : a ≠ "") (hkey : key ≠ "leader") (value : String) :
    ∃ r N', Evals (db cl) w a (body cl a (.set key value)) N r N' := by
  obtain ⟨rep, N', h⟩ := Evals.exists_of_within (w := w) (N := N)
    (fun _ ↦ ActAbout.callAbout) (fun dest t ⟨_, _, hc, _⟩ ↦ by cases hc) (local_about cl a hkey)
    (within_attempt cl a (setRequest key value))
    fun d ↦ ⟨.refl key _, fun hd ↦ hd ▸ hleader⟩
  exact ⟨_, N', evals_set_leader hleader hne h⟩

/-! ### Concurrent runs -/

/-- The key that a set or an attempt is about. -/
def Task.key? : Task → Option String
  | .set key _ => some key
  | .attemptConsensus r => some r.key
  | _ => none

/-- The node `a` is sent each of the requests at most once, and the requests of each key have the
outcomes planned for it. -/
def Concurrently (a : String) (reqs : List (String × String)) (plan : String → Plan Db)
    (s : Net (db cl)) : Label Db → Prop
  | .submit b t => b = a ∧ (∃ e ∈ reqs, t = .set e.1 e.2) ∧ ∀ p ∈ s.acts, p.task ≠ t
  | .step i o => ∀ p ∈ s.acts[i]?, ∀ k ∈ p.task.key?, o = (plan k).next p.prog
  | .deliver _ | .restart _ => False

/-- All requests were sent, and have returned. -/
def AllHandled (reqs : List (String × String)) (s : Net (db cl)) : Prop :=
  s.Finished ∧ ∀ e ∈ reqs, ∃ p ∈ s.acts, p.task = .set e.1 e.2

instance (a : String) (reqs : List (String × String)) (plan : String → Plan Db) (s : Net (db cl)) :
    DecidablePred (Concurrently a reqs plan s)
  | .submit b t => inferInstanceAs (Decidable
    (b = a ∧ (∃ e ∈ reqs, t = .set e.1 e.2) ∧ ∀ p ∈ s.acts, p.task ≠ t))
  | .step i o => inferInstanceAs (Decidable
    (∀ p ∈ s.acts[i]?, ∀ k ∈ p.task.key?, o = (plan k).next p.prog))
  | .deliver _ | .restart _ => inferInstanceAs (Decidable False)

instance (reqs : List (String × String)) (s : Net (db cl)) : Decidable (AllHandled reqs s) :=
  inferInstanceAs (Decidable (_ ∧ ∀ e ∈ reqs, ∃ p ∈ s.acts, p.task = .set e.1 e.2))

section Concurrent

variable {reqs : List (String × String)} {plan : String → Plan Db} {nodes : String → Replica}
  {s s' : Net (db cl)} {l : Label Db}

/-- The invariant of the activations: each is about a key of a request that was sent, and makes
calls about this key only. -/
structure Orderly (a : String) (reqs : List (String × String)) (nodes : String → Replica)
    (s : Net (db cl)) : Prop where
  leader : ∀ d, (s.nodes d).leader = (nodes d).leader
  acts : ∀ (j : ℕ) (q : Activation Db), s.acts[j]? = some q → q.node = a ∧
    ∃ e ∈ reqs, q.task.key? = some e.1 ∧ q.prog.Within (relyAt a) (CallAbout e.1) ∧
      ∃ p ∈ s.acts, p.task = .set e.1 e.2

/-- What the step of an activation about a key does to the nodes. -/
theorem Orderly.frame (h : Orderly a reqs nodes s) (hkeys : "leader" ∉ reqs.map Prod.fst) {i : ℕ}
    {o : Outcome} (hs : Step s (.step i o) s') {q : Activation Db} (hq : s.acts[i]? = some q)
    (hqkey : q.task.key? = some key) (d : String) :
    (s'.nodes d).leader = (s.nodes d).leader ∧
      ∀ key', key' ≠ key → (s'.nodes d).part key' = (s.nodes d).part key' := by
  obtain ⟨-, e, he, hkey, hwithin, -⟩ := h.acts i q hq
  obtain rfl := Option.some.inj (hqkey.symm.trans hkey)
  have hne : e.1 ≠ "leader" := fun heq ↦ hkeys (heq ▸ List.mem_map_of_mem he)
  rcases hs.node d with hnode | ⟨b, hex, hnode⟩ | ⟨hl, -⟩
  · rw [hnode]
    exact ⟨rfl, fun _ _ ↦ rfl⟩
  · obtain ⟨q', dest, k, hq', hc, -⟩ := executed?_step hex
    obtain rfl := Option.some.inj (hq.symm.trans hq')
    rw [hc] at hwithin
    rw [hnode]
    exact frame_act hwithin.1 hne _
  · cases hl

theorem Orderly.start (nodes : String → Replica) : Orderly a reqs nodes (cl.start nodes) where
  leader _ := rfl
  acts j q hq := by simp at hq

/-- **The activations remain orderly.** -/
theorem Orderly.step (h : Orderly a reqs nodes s) (hleader : (nodes a).leader = a) (hne : a ≠ "")
    (hkeys : "leader" ∉ reqs.map Prod.fst) (hl : Concurrently a reqs plan s l)
    (hs : Step s l s') : Orderly a reqs nodes s' := by
  have hkeys' : ∀ e ∈ reqs, e.1 ≠ "leader" := fun e he heq ↦
    hkeys (heq ▸ List.mem_map_of_mem he)
  -- the requests that were sent
  have hsent : ∀ e : String × String, (∃ p ∈ s.acts, p.task = .set e.1 e.2) →
      ∃ p ∈ s'.acts, p.task = .set e.1 e.2 := by
    rintro e ⟨p, hp, htask⟩
    obtain ⟨j, hj⟩ := List.getElem?_of_mem hp
    obtain ⟨p', hp', -, htask', -⟩ := hs.keeps hj
    exact ⟨p', List.mem_of_getElem? hp', htask'.trans htask⟩
  refine ⟨fun d ↦ ?_, fun j q hq ↦ ?_⟩
  · cases l with
    | submit b t =>
      cases hs
      exact h.leader d
    | step i o =>
      obtain ⟨p, c, k, hp, -⟩ := hs.moved
      obtain ⟨-, e, -, hkey, -⟩ := h.acts i p hp
      exact ((h.frame hkeys hs hp hkey d).1).trans (h.leader d)
    | deliver j => exact absurd hl id
    | restart b => exact absurd hl id
  · rcases hs.activation hq with hq | ⟨rfl, b, t, origin, rfl, hopen⟩ | ⟨p, hp, rfl, -⟩ |
      ⟨p, hp, rfl, hrestart⟩ | ⟨p, c, k, r, hp, -, hc, rfl, hans⟩
    · obtain ⟨hnode, e, he, hkey, hwithin, hroot⟩ := h.acts j q hq
      exact ⟨hnode, e, he, hkey, hwithin, hsent e hroot⟩
    · rcases hopen with ⟨rfl, rfl⟩ | ⟨rfl, -, -⟩ | ⟨i, p, dest, k, rfl, hp, -, hc, -, rfl, rfl⟩
      · obtain ⟨rfl, ⟨e, he, rfl⟩, -⟩ := hl
        exact ⟨rfl, e, he, rfl, within_set cl hne e.1 e.2, _, List.mem_of_getElem? hq, rfl⟩
      · exact absurd hl id
      · -- a set calls an attempt
        obtain ⟨hnode, e, he, hkey, hwithin, hroot⟩ := h.acts i p hp
        rw [hc] at hwithin
        have hcall := hwithin.1
        obtain ⟨rfl, hbody, -⟩ := (local_about cl a (hkeys' e he)).invoke dest t hcall
        refine ⟨hnode, e, he, ?_, ?_, hsent e hroot⟩
        · cases t with
          | attemptConsensus r => exact congrArg some hcall
          | _ => exact absurd hcall id
        · rw [opened_prog, Option.getD_none, hnode]
          exact hbody
    · obtain ⟨hnode, e, he, hkey, hwithin, hroot⟩ := h.acts j p hp
      exact ⟨hnode, e, he, hkey, hwithin, hsent e hroot⟩
    · rw [hrestart] at hl
      exact absurd hl id
    · obtain ⟨hnode, e, he, hkey, hwithin, hroot⟩ := h.acts j p hp
      rw [hc] at hwithin
      refine ⟨hnode, e, he, hkey, hwithin.2 r ?_, hsent e hroot⟩
      exact (local_about cl a (hkeys' e he)).rely_of_answers hnode hwithin.1
        (fun d ↦ ⟨.refl e.1 _, fun hd ↦ hd ▸ (h.leader a).trans hleader⟩) hans

/-- The step of an activation about a key leaves the activations about other keys alone. -/
theorem Orderly.unmoved (h : Orderly a reqs nodes s) (hkeys : ∀ e ∈ reqs, e.1 ≠ "leader") {i : ℕ}
    {o : Outcome} (hs : Step s (.step i o) s') {q : Activation Db} (hq : s.acts[i]? = some q)
    (hqkey : q.task.key? = some key) {j : ℕ} {q' : Activation Db} (hne : q'.task.key? ≠ some key) :
    s'.acts[j]? = some q' ↔ s.acts[j]? = some q' := by
  have hback : ∀ {q' : Activation Db}, q'.task.key? ≠ some key → s'.acts[j]? = some q' →
      s.acts[j]? = some q' := by
    intro q' hne hq'
    rcases hs.activation hq' with hold | ⟨rfl, b, t, origin, rfl, hopen⟩ |
      ⟨p, hp, rfl, -, -, hl, -⟩ | ⟨p, -, -, hl⟩ | ⟨p, c, k, r, hp, -, -, rfl, hans⟩
    · exact hold
    · rcases hopen with ⟨hl, -⟩ | ⟨hl, -⟩ | ⟨i', p, dest, k, hl, hp, -, hc, -⟩
      · cases hl
      · cases hl
      · obtain ⟨rfl, -⟩ := Label.step.inj hl
        obtain rfl := Option.some.inj (hq.symm.trans hp)
        obtain ⟨-, e, he, hkey, hwithin, -⟩ := h.acts i q hq
        rw [hc] at hwithin
        have hcall := hwithin.1
        obtain ⟨rfl, -⟩ := (local_about cl a (hkeys e he)).invoke dest t hcall
        rw [hqkey] at hkey
        refine absurd ?_ hne
        cases t with
        | attemptConsensus r => exact (congrArg some hcall).trans hkey.symm
        | _ => exact absurd hcall id
    · obtain ⟨rfl, -⟩ := Label.step.inj hl
      obtain rfl := Option.some.inj (hq.symm.trans hp)
      exact absurd hqkey hne
    · cases hl
    · obtain ⟨o', hl⟩ := hans.label
      obtain ⟨rfl, -⟩ := Label.step.inj hl
      obtain rfl := Option.some.inj (hq.symm.trans hp)
      exact absurd hqkey hne
  refine ⟨hback hne, fun hq' ↦ ?_⟩
  obtain ⟨q'', hq'', -, htask, -⟩ := hs.keeps hq'
  have hold := hback (by rw [htask]; exact hne) hq''
  rw [hq'', ← hold, hq']

/-- The activations of one request: a thread that ends as the request would alone. -/
structure SetThread (a : String) (plan : String → Plan Db) (nodes : String → Replica)
    (s : Net (db cl)) (e : String × String) (i : ℕ) (p : Activation Db)
    (fs : List (String × (Reply → Program Reply))) (js : List ℕ) : Prop where
  thread : s.Thread i p fs js
  about : ∀ j ∈ i :: js, ∃ q, s.acts[j]? = some q ∧ q.task.key? = some e.1
  all : ∀ (j : ℕ) (q : Activation Db), s.acts[j]? = some q → q.task.key? = some e.1 →
    j ∈ i :: js ∨ ∃ r, q.Returned r
  root : ∃ i₀ q₀, (i :: js).getLast? = some i₀ ∧ s.acts[i₀]? = some q₀ ∧ q₀.task = .set e.1 e.2
  ends : ∀ r M, EvalsStack (db cl) (plan e.1) p.node p.prog fs s.nodes r M →
    ∃ M', Evals (db cl) (plan e.1) a (body cl a (.set e.1 e.2)) nodes r M' ∧
      ∀ d, (M d).part e.1 = (M' d).part e.1

/-- The invariant of the nodes: the requests that were sent are threads, and the keys of the
others are as they were. -/
structure Separate (a : String) (reqs : List (String × String)) (plan : String → Plan Db)
    (nodes : String → Replica) (s : Net (db cl)) : Prop where
  orderly : Orderly a reqs nodes s
  idle : ∀ key, (∀ p ∈ s.acts, p.task.key? ≠ some key) →
    ∀ d, (s.nodes d).part key = (nodes d).part key
  threads : ∀ e ∈ reqs, (∃ p ∈ s.acts, p.task = .set e.1 e.2) →
    ∃ i p fs js, SetThread a plan nodes s e i p fs js

/-- What the activations that wait have left to do is about their key. -/
theorem Orderly.waits_within (h : Orderly a reqs nodes s) {i : ℕ}
    {fs : List (String × (Reply → Program Reply))} {js : List ℕ} (hw : s.Waits i fs js)
    (habout : ∀ j ∈ js, ∃ q, s.acts[j]? = some q ∧ q.task.key? = some key) :
    ∀ f ∈ fs, f.1 = a ∧ ∀ r, (f.2 r).Within (relyAt a) (CallAbout key) := by
  refine hw.forall_frames fun j hj p dest t k hp hc ↦ ?_
  obtain ⟨q, hq, hkey⟩ := habout j hj
  obtain rfl := Option.some.inj (hp.symm.trans hq)
  obtain ⟨hnode, e, -, hkey', hwithin, -⟩ := h.acts j p hp
  obtain rfl := Option.some.inj (hkey.symm.trans hkey')
  rw [hc] at hwithin
  exact ⟨hnode, fun r ↦ hwithin.2 r trivial⟩

/-- **A thread does not notice what happens elsewhere.** -/
theorem SetThread.stays {e : String × String} {i : ℕ} {p : Activation Db}
    {fs : List (String × (Reply → Program Reply))} {js : List ℕ}
    (h : SetThread a plan nodes s e i p fs js) (horderly : Orderly a reqs nodes s)
    (hleader : (nodes a).leader = a) (hne : e.1 ≠ "leader")
    (hacts : ∀ (j : ℕ) (q : Activation Db), q.task.key? = some e.1 →
      (s'.acts[j]? = some q ↔ s.acts[j]? = some q))
    (hnodes : ∀ d, (s'.nodes d).leader = (s.nodes d).leader ∧
      (s'.nodes d).part e.1 = (s.nodes d).part e.1) :
    SetThread a plan nodes s' e i p fs js where
  thread := h.thread.congr fun j hj ↦ by
    obtain ⟨q, hq, hkey⟩ := h.about j hj
    rw [hq, hacts j q hkey, hq]
  about j hj := by
    obtain ⟨q, hq, hkey⟩ := h.about j hj
    exact ⟨q, (hacts j q hkey).2 hq, hkey⟩
  all j q hq hkey := h.all j q ((hacts j q hkey).1 hq) hkey
  root := by
    obtain ⟨i₀, q₀, hlast, hq₀, htask⟩ := h.root
    exact ⟨i₀, q₀, hlast, (hacts i₀ q₀ (by rw [htask]; rfl)).2 hq₀, htask⟩
  ends r M hev := by
    obtain ⟨q, hq, hkey⟩ := h.about i (by simp)
    obtain rfl := Option.some.inj (h.thread.top.symm.trans hq)
    obtain ⟨hnode, e', -, hkey', hwithin, -⟩ := horderly.acts i p hq
    rw [← Option.some.inj (hkey.symm.trans hkey')] at hwithin
    rw [hnode] at hev
    obtain ⟨M₁, hev₁, hrel⟩ := hev.congr (local_about cl a hne) hwithin
      (horderly.waits_within h.thread.waits fun j hj ↦ h.about j (List.mem_cons_of_mem _ hj))
      (M := s.nodes) fun d ↦ ⟨⟨(hnodes d).2, (hnodes d).1⟩, fun hd ↦ by
        rw [(hnodes d).1, horderly.leader, hd, hleader]⟩
    obtain ⟨M', hM', hparts⟩ := h.ends r M₁ (hnode ▸ hev₁)
    exact ⟨M', hM', fun d ↦ ((hrel d).1.part).trans (hparts d)⟩

/-- A request that is sent starts a thread. -/
theorem Separate.sent (h : Separate a reqs plan nodes s) (hleader : (nodes a).leader = a)
    (hne : a ≠ "") {e : String × String} (hkey : e.1 ≠ "leader")
    (hnew : ∀ p ∈ s.acts, p.task.key? ≠ some e.1) :
    SetThread a plan nodes (s.open' a (.set e.1 e.2) none).tick e s.acts.length
      (s.opened a (.set e.1 e.2) none) [] [] where
  thread := ⟨by simp, rfl, rfl, .nil⟩
  about j hj := by
    obtain rfl := List.mem_singleton.1 hj
    exact ⟨s.opened a (.set e.1 e.2) none, by simp, rfl⟩
  all j q hq hqkey := by
    rcases getElem?_append_one hq with hq | ⟨rfl, -⟩
    · exact absurd hqkey (hnew q (List.mem_of_getElem? hq))
    · exact .inl (by simp)
  root := ⟨s.acts.length, s.opened a (.set e.1 e.2) none, rfl, by simp, rfl⟩
  ends r M hev := by
    obtain ⟨M', hev', hrel⟩ := Evals.congr (M := nodes) (local_about cl a hkey) hev
      (within_set cl hne e.1 e.2) fun d ↦
        ⟨⟨h.idle e.1 hnew d, h.orderly.leader d⟩, fun hd ↦ by
          rw [hd]
          exact (h.orderly.leader a).trans hleader⟩
    exact ⟨M', hev', fun d ↦ (hrel d).1.part⟩

/-- A thread that moves. -/
theorem SetThread.moves {e : String × String} {i : ℕ} {p : Activation Db}
    {fs : List (String × (Reply → Program Reply))} {js : List ℕ}
    (h : SetThread a plan nodes s e i p fs js) {j : ℕ} (hj : j ∈ i :: js) {o : Outcome}
    (ho : ∀ q ∈ s.acts[j]?, o = (plan e.1).next q.prog) (hs : Step s (.step j o) s')
    (hnew : ∀ q, s'.acts[s.acts.length]? = some q → q.task.key? = some e.1) :
    ∃ i' p' fs' js', SetThread a plan nodes s' e i' p' fs' js' := by
  obtain ⟨i', p', fs', js', hthread, hev, hlast, hold, hcover⟩ := h.thread.step hj ho hs
  refine ⟨i', p', fs', js', hthread, fun j' hj' ↦ ?_, fun j' q hq hkey ↦ ?_, ?_, fun r M hM ↦
    h.ends r M (hev r M hM)⟩
  · rcases hold j' hj' with hj' | rfl
    · obtain ⟨q, hq, hkey⟩ := h.about j' hj'
      obtain ⟨q', hq', -, htask, -⟩ := hs.keeps hq
      exact ⟨q', hq', by rw [htask, hkey]⟩
    · obtain ⟨q, hq⟩ := hthread.exists_of_mem hj'
      exact ⟨q, hq, hnew q hq⟩
  · by_cases hstack : j' ∈ i :: js ∨ j' = s.acts.length
    · exact (hcover j' hstack).imp_right fun hret ↦ hret q hq
    · obtain ⟨hnot, hne⟩ := not_or.1 hstack
      have hold := hs.other hq (fun heq ↦ hnot (heq ▸ hj)) hne
      exact .inr ((h.all j' q hold hkey).resolve_left hnot)
  · obtain ⟨i₀, q₀, hlast₀, hq₀, htask⟩ := h.root
    obtain ⟨q', hq', -, htask', -⟩ := hs.keeps hq₀
    exact ⟨i₀, q', hlast.trans hlast₀, hq', htask'.trans htask⟩

/-- **The requests remain separate.** -/
theorem Separate.step (h : Separate a reqs plan nodes s) (hleader : (nodes a).leader = a)
    (hne : a ≠ "") (hkeys : "leader" ∉ reqs.map Prod.fst) (hnodup : (reqs.map Prod.fst).Nodup)
    (hl : Concurrently a reqs plan s l) (hs : Step s l s') : Separate a reqs plan nodes s' := by
  have hkeys' : ∀ e ∈ reqs, e.1 ≠ "leader" := fun e he heq ↦
    hkeys (heq ▸ List.mem_map_of_mem he)
  have huniq : ∀ e ∈ reqs, ∀ e' ∈ reqs, e.1 = e'.1 → e = e' := fun e he e' he' heq ↦
    List.inj_on_of_nodup_map hnodup he he' heq
  have horderly := h.orderly.step hleader hne hkeys hl hs
  cases l with
  | deliver j => exact absurd hl id
  | restart b => exact absurd hl id
  | submit b t =>
    obtain ⟨rfl, ⟨e₀, he₀, rfl⟩, hfresh⟩ := hl
    cases hs
    -- nothing was sent about its key
    have hnew : ∀ p ∈ s.acts, p.task.key? ≠ some e₀.1 := by
      intro p hp hkey
      obtain ⟨j, hj⟩ := List.getElem?_of_mem hp
      obtain ⟨-, e, he, hkey', -, q, hq, htask⟩ := h.orderly.acts j p hj
      obtain rfl := huniq e he e₀ he₀ (Option.some.inj (hkey'.symm.trans hkey))
      exact hfresh q hq htask
    refine ⟨horderly, fun key hkey d ↦ h.idle key (fun p hp ↦ hkey p (by simp [hp])) d,
      fun e he hroot ↦ ?_⟩
    by_cases heq : e.1 = e₀.1
    · obtain rfl := huniq e he e₀ he₀ heq
      exact ⟨_, _, _, _, h.sent hleader hne (hkeys' e he) hnew⟩
    · obtain ⟨p, hp, htask⟩ := hroot
      rcases List.mem_append.1 hp with hp | hp
      · obtain ⟨i, p', fs, js, hthread⟩ := h.threads e he ⟨p, hp, htask⟩
        refine ⟨i, p', fs, js, hthread.stays h.orderly hleader (hkeys' e he) (fun j q hkey ↦
          ⟨fun hq ↦ ?_, fun hq ↦ ?_⟩) fun d ↦ ⟨rfl, rfl⟩⟩
        · rcases getElem?_append_one hq with hq | ⟨-, rfl⟩
          · exact hq
          · exact absurd (Option.some.inj hkey).symm heq
        · simp [List.getElem?_append_left (lt_length hq), hq]
      · obtain rfl := List.mem_singleton.1 hp
        exact absurd (Task.set.inj htask).1.symm heq
  | step i o =>
    obtain ⟨q, c, k, hq, -, hc, -⟩ := hs.moved
    obtain ⟨-, e₀, he₀, hqkey, hwithin, hroot₀⟩ := h.orderly.acts i q hq
    have hframe := h.orderly.frame hkeys hs hq hqkey
    refine ⟨horderly, fun key hkey d ↦ ?_, fun e he hroot ↦ ?_⟩
    · -- nothing was sent about the key before either
      have hold : ∀ p ∈ s.acts, p.task.key? ≠ some key := by
        intro p hp hpkey
        obtain ⟨j, hj⟩ := List.getElem?_of_mem hp
        obtain ⟨p', hp', -, htask, -⟩ := hs.keeps hj
        exact hkey p' (List.mem_of_getElem? hp') (htask ▸ hpkey)
      have hne' : key ≠ e₀.1 := fun heq ↦ hold q (List.mem_of_getElem? hq) (heq ▸ hqkey)
      rw [(hframe d).2 key hne', h.idle key hold d]
    · by_cases heq : e.1 = e₀.1
      · obtain rfl := huniq e he e₀ he₀ heq
        obtain ⟨i', p, fs, js, hthread⟩ := h.threads e he hroot₀
        have hi : i ∈ i' :: js := by
          refine (hthread.all i q hq hqkey).resolve_right ?_
          rintro ⟨r, hr⟩
          cases hr.symm.trans hc
        refine hthread.moves hi (fun q' hq' ↦ ?_) hs fun q' hq' ↦ ?_
        · obtain rfl := Option.some.inj (hq.symm.trans hq')
          exact hl q hq e.1 hqkey
        · by_contra hne'
          exact absurd (lt_length ((h.orderly.unmoved hkeys' hs hq hqkey hne').1 hq'))
            (lt_irrefl _)
      · obtain ⟨p, hp, htask⟩ := hroot
        obtain ⟨j, hj⟩ := List.getElem?_of_mem hp
        have hother : ∀ (j : ℕ) (q' : Activation Db), q'.task.key? = some e.1 →
            (s'.acts[j]? = some q' ↔ s.acts[j]? = some q') := fun j q' hkey ↦
          h.orderly.unmoved hkeys' hs hq hqkey (by
            rw [hkey]
            exact fun heq' ↦ heq (Option.some.inj heq'))
        obtain ⟨i', p', fs, js, hthread⟩ := h.threads e he
          ⟨p, List.mem_of_getElem? ((hother j p (by rw [htask]; rfl)).1 hj), htask⟩
        exact ⟨i', p', fs, js, hthread.stays h.orderly hleader (hkeys' e he) hother fun d ↦
          ⟨(hframe d).1, (hframe d).2 e.1 heq⟩⟩

theorem Separate.start (nodes : String → Replica) :
    Separate a reqs plan nodes (cl.start nodes) where
  orderly := .start nodes
  idle _ _ _ := rfl
  threads e _ h := by
    obtain ⟨p, hp, -⟩ := h
    simp at hp

/-- **Concurrent requests are separate.** -/
theorem Separate.of_reach (hleader : (nodes a).leader = a) (hne : a ≠ "")
    (hkeys : "leader" ∉ reqs.map Prod.fst) (hnodup : (reqs.map Prod.fst).Nodup)
    (h : Reach (Concurrently a reqs plan) (cl.start nodes) s) : Separate a reqs plan nodes s :=
  h.invariant (.start nodes) fun _ _ _ _ _ ih hl hs ↦ ih.step hleader hne hkeys hnodup hl hs

/-- Each request has one activation. -/
theorem Separate.unique (hleader : (nodes a).leader = a) (hne : a ≠ "")
    (hkeys : "leader" ∉ reqs.map Prod.fst) (hnodup : (reqs.map Prod.fst).Nodup)
    (h : Reach (Concurrently a reqs plan) (cl.start nodes) s) {j j' : ℕ} {q q' : Activation Db}
    (hq : s.acts[j]? = some q) (hq' : s.acts[j']? = some q') {key value : String}
    (htask : q.task = .set key value) (htask' : q'.task = .set key value) : j = j' := by
  refine h.invariant (I := fun s ↦ ∀ j j' q q', s.acts[j]? = some q → s.acts[j']? = some q' →
    q.task = .set key value → q'.task = .set key value → j = j') ?_ ?_ j j' q q' hq hq' htask htask'
  · intro j j' q q' hq
    simp at hq
  · intro s l s' hr _ ih hl hs j j' q q' hq hq' htask htask'
    have horderly := (Separate.of_reach hleader hne hkeys hnodup hr).orderly
    -- an activation of the request was there before, or is sent now
    have hback : ∀ {j : ℕ} {q : Activation Db}, s'.acts[j]? = some q → q.task = .set key value →
        (∃ q₀, s.acts[j]? = some q₀ ∧ q₀.task = .set key value) ∨
          j = s.acts.length ∧ l = .submit a (.set key value) := by
      intro j q hq htask
      rcases hs.activation hq with hq | ⟨rfl, b, t, origin, rfl, hopen⟩ | ⟨p, hp, rfl, -⟩ |
        ⟨p, hp, rfl, -⟩ | ⟨p, c, k, r, hp, -, -, rfl, -⟩
      · exact .inl ⟨q, hq, htask⟩
      · obtain rfl : t = .set key value := htask
        rcases hopen with ⟨rfl, -⟩ | ⟨-, htask, -⟩ | ⟨i, p, dest, k, -, hp, -, hc, -⟩
        · obtain ⟨rfl, -⟩ := hl
          exact .inr ⟨rfl, rfl⟩
        · cases htask
        · obtain ⟨-, e, -, -, hwithin, -⟩ := horderly.acts i p hp
          rw [hc] at hwithin
          cases dest <;> exact absurd hwithin.1 id
      · exact .inl ⟨p, hp, htask⟩
      · exact .inl ⟨p, hp, htask⟩
      · exact .inl ⟨p, hp, htask⟩
    rcases hback hq htask with ⟨q₀, hq₀, htask₀⟩ | ⟨rfl, rfl⟩ <;>
      rcases hback hq' htask' with ⟨q₁, hq₁, htask₁⟩ | ⟨rfl, hsub⟩
    · exact ih j j' q₀ q₁ hq₀ hq₁ htask₀ htask₁
    · subst hsub
      exact absurd htask₀ (hl.2.2 q₀ (List.mem_of_getElem? hq₀))
    · exact absurd htask₁ (hl.2.2 q₁ (List.mem_of_getElem? hq₁))
    · rfl

/-! ### One after another -/

/-- The request `e` ends as it does alone from the states `nodes`: with the answer `r`, and with
the parts of the nodes `N` that belong to its key. -/
def Cluster.EndsAs (cl : Cluster) (a : String) (plan : String → Plan Db)
    (nodes N : String → Replica) (e : String × String) (r : Reply) : Prop :=
  ∃ M, Evals (db cl) (plan e.1) a (body cl a (.set e.1 e.2)) nodes r M ∧
    ∀ d, (N d).part e.1 = (M d).part e.1

/-- A thread that has returned ends as the request does alone. -/
theorem SetThread.endsAs {e : String × String} {i : ℕ} {p : Activation Db}
    {fs : List (String × (Reply → Program Reply))} {js : List ℕ}
    (h : SetThread a plan nodes s e i p fs js) (hdone : s.Finished) :
    ∃ (i₀ : ℕ) (q₀ : Activation Db) (r : Reply), s.acts[i₀]? = some q₀ ∧
      q₀.task = .set e.1 e.2 ∧ q₀.Returned r ∧ cl.EndsAs a plan nodes s.nodes e r := by
  obtain ⟨i₀, q₀, hlast, hq₀, htask⟩ := h.root
  obtain ⟨r, hr⟩ := hdone.returned (List.mem_of_getElem? h.thread.top)
  obtain ⟨rfl, rfl⟩ := h.thread.of_finished hdone
  obtain rfl := Option.some.inj hlast
  obtain rfl := Option.some.inj (h.thread.top.symm.trans hq₀)
  refine ⟨i, p, r, hq₀, htask, hr, h.ends r s.nodes ?_⟩
  rw [show p.prog = .ret r from hr]
  exact .ret

/-- The plan for a request. -/
def planned (plan : String → Plan Db) (t : Task) : Plan Db := plan (t.key?.getD "")

/-- What is asked of the node `a`: one of the requests. -/
def Asks (a : String) (reqs : List (String × String)) (b : String) (t : Task) : Prop :=
  b = a ∧ ∃ e ∈ reqs, t = .set e.1 e.2

/-- The requests are handled one after another at the node `a`, each with its plan. -/
def HandledInOrder (a : String) (plan : String → Plan Db) (order : List (String × String))
    (s₀ : Net (db cl)) (σ : List (String × Task × Reply)) (s : Net (db cl)) : Prop :=
  Session (planned plan) (Asks a order) s₀ σ s ∧
    σ.map (fun x ↦ (x.1, x.2.1)) = order.map fun e ↦ (a, Task.set e.1 e.2)

section InOrder

variable {σ : List (String × Task × Reply)} {order : List (String × String)}

/-- What a request that is handled leaves alone: the leader, and the parts of other keys. -/
theorem frame_handles {w : Plan Db} {e : String × String} {r : Reply}
    (hleader : (s.nodes a).leader = a) (hne : a ≠ "") (hkey : e.1 ≠ "leader")
    (hs : s.Handles w a (.set e.1 e.2) r s') (d : String) :
    (s'.nodes d).leader = (s.nodes d).leader ∧
      ∀ key, key ≠ e.1 → (s'.nodes d).part key = (s.nodes d).part key := by
  have hrel : ∀ d, AlikeAt a e.1 d (s.nodes d) (s.nodes d) := fun d ↦
    ⟨.refl e.1 _, fun hd ↦ hd ▸ hleader⟩
  refine ⟨(evals_of_handles hs).frame (f := Replica.leader) (local_about cl a hkey)
      (fun dest b hb st ↦ (frame_act hb hkey st).1) (within_set cl hne _ _) hrel d,
    fun key hk ↦ (evals_of_handles hs).frame (f := fun st ↦ Replica.part st key)
      (local_about cl a hkey) (fun dest b hb st ↦ (frame_act hb hkey st).2 key hk)
      (within_set cl hne _ _) hrel d⟩

/-- Sets do not change the leader. -/
theorem leader_of_session (hleader : (nodes a).leader = a) (hne : a ≠ "")
    (hkeys : ∀ e ∈ order, e.1 ≠ "leader")
    (h : Session (planned plan) (Asks a order) (cl.start nodes) σ s) (d : String) :
    (s.nodes d).leader = (nodes d).leader := by
  refine h.invariant (I := fun _ (s : Net (db cl)) ↦ ∀ d, (s.nodes d).leader = (nodes d).leader)
    (fun _ ↦ rfl) ?_ d
  rintro σ s b t r s' - ih ⟨rfl, e, he, rfl⟩ hs d
  exact (frame_handles ((ih _).trans hleader) hne (hkeys e he) hs d).1.trans (ih d)

/-- **Requests handled one after another** end as they do alone. -/
theorem endsAs_of_session (hleader : (nodes a).leader = a) (hne : a ≠ "")
    (hkeys : ∀ e ∈ order, e.1 ≠ "leader")
    (h : Session (planned plan) (Asks a order) (cl.start nodes) σ s)
    (hnodup : (σ.map fun x ↦ x.2.1.key?).Nodup) :
    (∀ key, some key ∉ σ.map (fun x ↦ x.2.1.key?) →
      ∀ d, (s.nodes d).part key = (nodes d).part key) ∧
    ∀ e r, (a, Task.set e.1 e.2, r) ∈ σ → cl.EndsAs a plan nodes s.nodes e r := by
  refine h.invariant (I := fun (σ : List (String × Task × Reply)) (s : Net (db cl)) ↦
    (σ.map fun x ↦ x.2.1.key?).Nodup →
    (∀ key, some key ∉ σ.map (fun x ↦ x.2.1.key?) →
      ∀ d, (s.nodes d).part key = (nodes d).part key) ∧
    ∀ e r, (a, Task.set e.1 e.2, r) ∈ σ → cl.EndsAs a plan nodes s.nodes e r)
    (fun _ ↦ ⟨fun _ _ _ ↦ rfl, fun e r he ↦ absurd he List.not_mem_nil⟩) ?_ hnodup
  rintro σ s b t r s' h ih ⟨rfl, e, he, rfl⟩ hs hnodup
  rw [List.map_append, List.nodup_append] at hnodup
  obtain ⟨hnodup, -, hfresh⟩ := hnodup
  have hnew : some e.1 ∉ σ.map fun x ↦ x.2.1.key? := fun hmem ↦
    hfresh _ hmem _ (List.mem_singleton.2 rfl) rfl
  obtain ⟨hidle, hends⟩ := ih hnodup
  have hlead := leader_of_session hleader hne hkeys h
  have hframe := frame_handles ((hlead _).trans hleader) hne (hkeys e he) hs
  refine ⟨fun key hkey d ↦ ?_, fun e' r' he' ↦ ?_⟩
  · rw [List.map_append, List.mem_append, not_or] at hkey
    have hk : key ≠ e.1 := fun heq ↦ hkey.2 (List.mem_singleton.2 (congrArg some heq))
    rw [(hframe d).2 key hk, hidle key hkey.1 d]
  · rcases List.mem_append.1 he' with he' | he'
    · -- a request handled before
      obtain ⟨M, hM, hparts⟩ := hends e' r' he'
      have hk : e'.1 ≠ e.1 := fun heq ↦
        hnew (heq ▸ List.mem_map_of_mem (f := fun x : String × Task × Reply ↦ x.2.1.key?) he')
      exact ⟨M, hM, fun d ↦ ((hframe d).2 _ hk).trans (hparts d)⟩
    · obtain ⟨-, he'⟩ := Prod.mk.inj (List.mem_singleton.1 he')
      obtain ⟨htask, rfl⟩ := Prod.mk.inj he'
      obtain ⟨hk, hv⟩ := Task.set.inj htask
      obtain rfl : e' = e := Prod.ext hk hv
      obtain ⟨M, hM, hrel⟩ := (evals_of_handles hs).congr (local_about cl _ (hkeys e' he))
        (within_set cl hne _ _) (M := nodes) fun d ↦
          ⟨⟨hidle _ hnew d, hlead d⟩, fun hd ↦ by rw [hlead, hd, hleader]⟩
      exact ⟨M, hM, fun d ↦ (hrel d).1.part⟩

/-- **Sets of different keys are independent**: when requests with pairwise different keys have
been handled concurrently at the leader, whatever becomes of their calls, then they can also be
handled one after another, in any order and with the same outcomes, and this always ends with the
same logs and stores and the same answers. -/
theorem sets_independent (ha : a ∈ cl.memberList) (hleader : (nodes a).leader = a)
    (hkeys : "leader" ∉ reqs.map Prod.fst) (hnodup : (reqs.map Prod.fst).Nodup)
    (h : Reach (Concurrently a reqs plan) (cl.start nodes) s) (hdone : AllHandled reqs s)
    (horder : order.Perm reqs) :
    (∃ σ s₁, HandledInOrder a plan order (cl.start nodes) σ s₁) ∧
    ∀ σ s₁, HandledInOrder a plan order (cl.start nodes) σ s₁ →
      (∀ d, (s.nodes d).paxLog = (s₁.nodes d).paxLog ∧
        (s.nodes d).kvStore = (s₁.nodes d).kvStore) ∧
      ∀ e ∈ reqs, ∀ p ∈ s.acts, p.task = .set e.1 e.2 → ∀ r, p.Returned r →
        (a, .set e.1 e.2, r) ∈ σ := by
  have hne : a ≠ "" := ne_of_mem_of_not_mem ha cl.nonempty
  have hkeys' : ∀ e ∈ order, e.1 ≠ "leader" := fun e he heq ↦
    hkeys (heq ▸ List.mem_map_of_mem (horder.mem_iff.1 he))
  have hsep := Separate.of_reach hleader hne hkeys hnodup h
  refine ⟨?_, fun σ s₁ ⟨hσ, hcalls⟩ ↦ ?_⟩
  · refine Session.exists_of_calls (V := db cl) (fun σ s b t hσ hcall ↦ ?_) _ fun c hc ↦ ?_
    · obtain ⟨rfl, e, he, rfl⟩ := hcall
      obtain ⟨r, N', hev⟩ := exists_evals_set (w := plan e.1) (N := s.nodes)
        ((leader_of_session hleader hne hkeys' hσ b).trans hleader) hne (hkeys' e he) e.2
      obtain ⟨s', hs, -⟩ := handles_of_evals (s := s) (a := b) (t := Task.set e.1 e.2) hev
      exact ⟨r, s', hs⟩
    · obtain ⟨e, he, rfl⟩ := List.mem_map.1 hc
      exact ⟨rfl, e, he, rfl⟩
  -- the keys of the session are those of the requests
  have htasks : σ.map (fun x ↦ x.2.1.key?) = (order.map Prod.fst).map some := by
    have := congrArg (List.map fun x : String × Task ↦ x.2.key?) hcalls
    rw [List.map_map, List.map_map] at this
    rw [List.map_map]
    exact this
  have hnodup' : (σ.map fun x ↦ x.2.1.key?).Nodup := by
    rw [htasks]
    exact ((horder.map Prod.fst).nodup_iff.2 hnodup).map (Option.some_injective _)
  obtain ⟨hidle, hends⟩ := endsAs_of_session hleader hne hkeys' hσ hnodup'
  -- each request ends alike in both runs
  have hsame : ∀ e ∈ reqs, ∃ (i : ℕ) (q : Activation Db) (r : Reply), s.acts[i]? = some q ∧
      q.task = .set e.1 e.2 ∧ q.Returned r ∧ (a, Task.set e.1 e.2, r) ∈ σ ∧
      ∀ d, (s.nodes d).part e.1 = (s₁.nodes d).part e.1 := by
    intro e he
    obtain ⟨i, p, fs, js, hthread⟩ := hsep.threads e he (hdone.2 e he)
    obtain ⟨i₀, q₀, r, hq₀, htask, hr, M, hM, hparts⟩ := hthread.endsAs hdone.1
    have hmem : (a, Task.set e.1 e.2) ∈ σ.map fun x ↦ (x.1, x.2.1) := by
      rw [hcalls]
      exact List.mem_map_of_mem (f := fun e : String × String ↦ (a, Task.set e.1 e.2))
        (horder.mem_iff.2 he)
    obtain ⟨⟨b, t, r₁⟩, hx, heq⟩ := List.mem_map.1 hmem
    obtain ⟨rfl, rfl⟩ := Prod.mk.inj heq
    obtain ⟨M₁, hM₁, hparts₁⟩ := hends e r₁ hx
    obtain ⟨rfl, rfl⟩ := hM.det hM₁
    exact ⟨i₀, q₀, r, hq₀, htask, hr, hx, fun d ↦ (hparts d).trans (hparts₁ d).symm⟩
  have hpart : ∀ d key, (s.nodes d).part key = (s₁.nodes d).part key := by
    intro d key
    by_cases hkey : key ∈ reqs.map Prod.fst
    · obtain ⟨e, he, rfl⟩ := List.mem_map.1 hkey
      obtain ⟨-, -, -, -, -, -, -, hparts⟩ := hsame e he
      exact hparts d
    · rw [hsep.idle key ?_ d, hidle key ?_ d]
      · rw [htasks]
        intro hmem
        obtain ⟨key', hmem', heq⟩ := List.mem_map.1 hmem
        obtain rfl := Option.some.inj heq
        exact hkey ((horder.map Prod.fst).mem_iff.1 hmem')
      · intro p hp hpkey
        obtain ⟨j, hj⟩ := List.getElem?_of_mem hp
        obtain ⟨-, e, he, hekey, -⟩ := hsep.orderly.acts j p hj
        obtain rfl := Option.some.inj (hpkey.symm.trans hekey)
        exact hkey (List.mem_map_of_mem he)
  refine ⟨fun d ↦ ⟨Finmap.ext_lookup fun key ↦ congrArg Prod.fst (hpart d key),
    Finmap.ext_lookup fun key ↦ congrArg Prod.snd (hpart d key)⟩, fun e he p hp htask r hr ↦ ?_⟩
  obtain ⟨j, hj⟩ := List.getElem?_of_mem hp
  obtain ⟨i₀, q₀, r₀, hq₀, htask₀, hr₀, hmem, -⟩ := hsame e he
  obtain rfl := Separate.unique hleader hne hkeys hnodup h hj hq₀ htask htask₀
  obtain rfl := Option.some.inj (hj.symm.trans hq₀)
  obtain rfl := Prog.ret.inj (hr.symm.trans hr₀)
  exact hmem

end InOrder

end Concurrent

/-- One success message is lost, and one answer to an accept request. -/
def lossy : String → Plan Db
  | "x", "c:1", .success _ => .requestLost
  | "y", "b:1", .accept _ => .replyLost
  | _, _, _ => .delivered

/-- Two sets whose attempts alternate after each stage, and the same in the other order. -/
theorem sets_independent_trio : ∃ s : Net (db trio), (s.nodes "c:1").kvStore.lookup "x" = none ∧
    (s.nodes "c:1").kvStore.lookup "y" = some "2" ∧
    ∃ σ s₁, HandledInOrder "a:1" lossy [("y", "2"), ("x", "1")]
        (trio.start fun _ ↦ { leader := "a:1" }) σ s₁ ∧
      ∀ d, (s.nodes d).paxLog = (s₁.nodes d).paxLog ∧
        (s.nodes d).kvStore = (s₁.nodes d).kvStore := by
  obtain ⟨s, hs, hdone, hx, hy⟩ : ∃ s, Reach (Concurrently "a:1" [("x", "1"), ("y", "2")] lossy)
      (trio.start fun _ ↦ { leader := "a:1" }) s ∧ AllHandled [("x", "1"), ("y", "2")] s ∧
      (s.nodes "c:1").kvStore.lookup "x" = none ∧
      (s.nodes "c:1").kvStore.lookup "y" = some "2" :=
    Reach.exists_of_steps (by
      decide +kernel : ((trio.start fun _ ↦ { leader := "a:1" }).steps
        (Concurrently "a:1" [("x", "1"), ("y", "2")] lossy)
        ([.submit "a:1" (.set "x" "1"), .submit "a:1" (.set "y" "2")] ++ calls 2 0 ++ calls 2 1 ++
          calls 4 2 ++ calls 4 3 ++ calls 3 2 ++ calls 3 3 ++ calls 3 2 ++ calls 1 3 ++
          [.step 3 .replyLost] ++ calls 1 3 ++ calls 2 2 ++ [.step 2 .requestLost] ++
          calls 3 3 ++ calls 1 0 ++ calls 1 1)).any _ = true)
  have horder : List.Perm [("y", "2"), ("x", "1")] [("x", "1"), ("y", "2")] := List.Perm.swap _ _ _
  obtain ⟨⟨σ, s₁, hσ⟩, hsame⟩ := sets_independent (by decide) rfl (by decide) (by decide) hs hdone
    horder
  exact ⟨s, hx, hy, σ, s₁, hσ, (hsame σ s₁ hσ).1⟩

end ReplicatedDB
