import ReplicatedDB.Model.Contract

/-!
# Messages and their effects

What the execution of an action does to a node, whatever the action is. An action logs at most one
round of one key (`Act.slot?`) and writes at most one request to the log (`Act.write?`), so there
is one lemma for each part of the state of a node:

* `mem_keys_act`, `entry_act`: the rounds logged, and the entries;
* `kvStore_act`, `leader_act`: the store and the leader register, which only a current success
  message writes, apart from the actions of a node on itself.

What all messages have in common is said by `Act.Sound`: every proposal id is 1 and no round is
negative. The handlers need the latter, since `success` compares rounds with the largest one of the
log, and a log without rounds has none. By the contract of the procedures every message of a run
is sound (`sound_of_requested`), so the invariants of later modules go through these lemmas and
never unfold a handler.
-/

namespace ReplicatedDB

open Rpc Rpc.Net

/-! ### Effects of actions -/

/-- The request whose value an action writes to the log. -/
def Act.write? : Act → Option Request
  | .accept q | .success q => some q
  | _ => none

/-- The key and the round an action logs. -/
def Act.slot? : Act → Option (String × ℤ)
  | .propose q | .accept q | .success q => some (q.key, q.round)
  | _ => none

/-- The request of a proposal, -/
def Act.propose? : Act → Option Request
  | .propose q => some q
  | _ => none

/-- of an accept request, -/
def Act.accept? : Act → Option Request
  | .accept q => some q
  | _ => none

/-- and of a success message. -/
def Act.success? : Act → Option Request
  | .success q => some q
  | _ => none

/-- To whom a success message was sent, and its request. -/
def sentSuccess? : Event Db → Option (String × Request)
  | ⟨.act (some d) a, _⟩ => a.success?.map (d, ·)
  | _ => none

/-- The request of an attempt. -/
def Task.request? : Task → Option Request
  | .attemptConsensus r => some r
  | _ => none

theorem request?_eq_some_iff {t : Task} {r : Request} :
    t.request? = some r ↔ t = .attemptConsensus r := by
  cases t <;> simp [Task.request?]

theorem sentSuccess?_eq_some_iff {e : Event Db} {d : String} {q : Request} :
    sentSuccess? e = some (d, q) ↔ ∃ x : Status, e = ⟨.act (some d) (.success q), x⟩ := by
  constructor
  · intro h
    obtain ⟨⟨_ | d', a⟩ | _, x⟩ := e
    · cases h
    · cases a with
      | success q' =>
        obtain ⟨rfl, rfl⟩ := Prod.mk.inj (Option.some.inj h)
        exact ⟨x, rfl⟩
      | _ => cases h
    · cases h
  · rintro ⟨x, rfl⟩
    rfl

/-- The entry after `q` was accepted. -/
def LogEntry.accepted (e : LogEntry) (q : Request) : LogEntry :=
  { e with aServerId := q.pserverId, op := q.op, acceptedValue := q.value }

/-- All messages of the protocol: the proposal id is 1 and the round is the size of a log. -/
def Act.Sound : Act → Prop
  | .propose q | .accept q | .success q => q.pserverId = 1 ∧ 0 ≤ q.round
  | _ => True

section Effects

variable (a : Act) (s : Replica)

theorem paxLog_act : (act a s).2.paxLog =
    match a with
    | .propose q => s.paxLog.setLog q.key q.round
    | .accept q | .success q =>
      s.paxLog.modify q.key q.round fun e ↦ e.accepted q
    | _ => s.paxLog := by
  cases a with
  | propose q => exact congrArg Replica.paxLog (propose_state q s)
  | accept q => exact congrArg Replica.paxLog (accept_state q s)
  | success q =>
    simp only [act, success, Bool.false_eq_true, if_false, getLog_setLogAccept]
    split_ifs <;> rfl
  | _ => rfl

/-- The entry of a slot, after an action that writes it. -/
theorem entry_act_self {q : Request} (hq : a.write? = some q) :
    ((act a s).2.log q.key).entry q.round = ((s.log q.key).entry q.round).accepted q := by
  cases a with
  | accept q' =>
    obtain rfl := Option.some.inj hq
    simp [Replica.log, paxLog_act]
  | success q' =>
    obtain rfl := Option.some.inj hq
    simp [Replica.log, paxLog_act]
  | _ => cases hq

/-- **Entries**: an action leaves an entry alone, unless it writes it. -/
theorem entry_act (key : String) (round : ℤ) :
    ((act a s).2.log key).entry round = (s.log key).entry round ∨
      ∃ q, a.write? = some q ∧ q.key = key ∧ q.round = round := by
  have hmodify : ∀ (q : Request) (f : LogEntry → LogEntry), a.write? = some q →
      (act a s).2.paxLog = s.paxLog.modify q.key q.round f →
      ((act a s).2.log key).entry round = (s.log key).entry round ∨
        ∃ q, a.write? = some q ∧ q.key = key ∧ q.round = round := by
    intro q f hq heq
    by_cases hslot : key = q.key ∧ round = q.round
    · exact .inr ⟨q, hq, hslot.1.symm, hslot.2.symm⟩
    · left
      rw [Replica.log, heq, PaxLog.entry_modify, if_neg hslot]
      rfl
  cases a with
  | propose q =>
    left
    rw [Replica.log, show (act (.propose q) s).2.paxLog = s.paxLog.modify q.key q.round id from
      paxLog_act _ _, PaxLog.entry_modify]
    split
    · rename_i hslot
      rw [hslot.1, hslot.2]
      rfl
    · rfl
  | accept q => exact hmodify q _ rfl (paxLog_act _ _)
  | success q => exact hmodify q _ rfl (paxLog_act _ _)
  | _ => exact .inl rfl

/-- No promise is ever made: `Set_Log(key, round, p_server)` is never called. -/
theorem pServerId_act (key : String) (round : ℤ) :
    (((act a s).2.log key).entry round).pServerId = ((s.log key).entry round).pServerId := by
  rcases entry_act a s key round with h | ⟨q, hq, rfl, rfl⟩
  · rw [h]
  · rw [entry_act_self a s hq]
    rfl

/-- **Rounds**: an action adds the round of its slot to those of its key. -/
theorem mem_keys_act {key : String} {round : ℤ} :
    round ∈ ((act a s).2.log key).keys ↔
      round ∈ (s.log key).keys ∨ a.slot? = some (key, round) := by
  have hmodify : ∀ (q : Request) (f : LogEntry → LogEntry), a.slot? = some (q.key, q.round) →
      (act a s).2.paxLog = s.paxLog.modify q.key q.round f →
      (round ∈ ((act a s).2.log key).keys ↔
        round ∈ (s.log key).keys ∨ a.slot? = some (key, round)) := by
    intro q f hq heq
    rw [Replica.log, heq, PaxLog.keys_modify, hq]
    by_cases hkey : key = q.key
    · subst hkey
      rw [if_pos rfl, Finset.mem_insert, or_comm]
      simp [Replica.log, eq_comm]
    · rw [if_neg hkey]
      have hne : ¬ q.key = key := fun h ↦ hkey h.symm
      simp [Replica.log, hne]
  cases a with
  | propose q => exact hmodify q _ rfl (paxLog_act _ _)
  | accept q => exact hmodify q _ rfl (paxLog_act _ _)
  | success q => exact hmodify q _ rfl (paxLog_act _ _)
  | _ => exact ⟨.inl, fun h ↦ h.resolve_right (by simp [Act.slot?])⟩

/-- **The store**: it is written by `success`, when that is current, and by recovery. -/
theorem kvStore_act (hsound : a.Sound) :
    (act a s).2.kvStore = s.kvStore ∨
      (∃ q, a = .success q ∧ Current q s ∧ q.key ≠ "leader" ∧
        (act a s).2.kvStore = s.kvStore.setKV q.key q.value) ∨
      ∃ key value, a = .setKV key value ∧
        (act a s).2.kvStore = s.kvStore.setKV key value := by
  cases a with
  | propose q => exact .inl (by simp [act, propose_state])
  | accept q => exact .inl (by simp [act, accept_state])
  | success q =>
    have hstate := success_state q s ((by decide : intMin ≤ 0).trans hsound.2)
    by_cases hcur : Current q s ∧ q.key ≠ "leader"
    · exact .inr (.inl ⟨q, rfl, hcur.1, hcur.2, by simp [act, hstate, hcur]⟩)
    · left
      simp only [act, hstate, if_neg hcur]
  | setKV key value => exact .inr (.inr ⟨key, value, rfl, rfl⟩)
  | _ => exact .inl rfl

/-- A current success is committed. -/
theorem kvStore_success {q : Request} (hround : 0 ≤ q.round) (hcur : Current q s)
    (hkey : q.key ≠ "leader") :
    (act (.success q) s).2.kvStore = s.kvStore.setKV q.key q.value := by
  have hstate := success_state q s ((by decide : intMin ≤ 0).trans hround)
  simp [act, hstate, hcur, hkey]

/-- **The leader register**: it is written by `success`, when that is current, and by the
procedures of the node itself. -/
theorem leader_act (hsound : a.Sound) :
    (act a s).2.leader = s.leader ∨
      (∃ q, a = .success q ∧ Current q s ∧ q.key = "leader" ∧ (act a s).2.leader = q.value) ∨
      ∃ value, a = .writeLeader value ∧ (act a s).2.leader = value := by
  cases a with
  | propose q => exact .inl (by simp [act, propose_state])
  | accept q => exact .inl (by simp [act, accept_state])
  | success q =>
    have hstate := success_state q s ((by decide : intMin ≤ 0).trans hsound.2)
    by_cases hcur : Current q s ∧ q.key = "leader"
    · exact .inr (.inl ⟨q, rfl, hcur.1, hcur.2, by simp [act, hstate, hcur]⟩)
    · left
      simp only [act, hstate, if_neg hcur]
  | writeLeader value => exact .inr (.inr ⟨value, rfl, rfl⟩)
  | _ => exact .inl rfl

end Effects

/-! ### Messages -/

/-- The procedures only send sound messages. -/
theorem sound_of_emits {cl : Cluster} {me : String} {t : Task} {h : History}
    {dest : Option String} {a : Act} (he : emits cl me t h (.act dest a)) : a.Sound := by
  have hforward : ∀ task, forwardEmits cl.memberList me task h (.act dest a) → a.Sound := by
    intro task hf
    cases dest with
    | none => cases a <;> trivial
    | some d => exact absurd hf id
  cases t with
  | attemptConsensus r =>
    cases dest with
    | none => cases a <;> trivial
    | some d =>
      cases a with
      | propose q =>
        obtain ⟨-, rfl, -⟩ := he
        exact ⟨rfl, roundOf_nonneg h⟩
      | accept q =>
        obtain ⟨-, hq, -⟩ := he
        exact ⟨hq.pserverId, hq.round ▸ roundOf_nonneg h⟩
      | success q =>
        obtain ⟨-, -, qa, ⟨hq, -⟩, rfl⟩ := he
        exact ⟨hq.pserverId, hq.round ▸ roundOf_nonneg h⟩
      | _ => trivial
  | electLeader key value =>
    cases dest with
    | none => cases a <;> trivial
    | some d => exact absurd he id
  | set key value =>
    refine hforward (.set key value) ?_
    cases dest <;> exact he
  | get key =>
    cases a with
    | getKV k => trivial
    | _ => exact hforward (.get key) (by cases dest <;> exact he)
  | coordinate =>
    cases dest <;> cases a <;> trivial

/-- **The procedures that a procedure calls**: an attempt at its request, itself at another node,
or the election of its own node. -/
theorem task_of_emits {cl : Cluster} {me : String} {t t' : Task} {h : History}
    {dest : Option String} (he : emits cl me t h (.invoke dest t')) :
    (∃ key value, t = .electLeader key value ∧ t' = .attemptConsensus (electRequest key value)) ∨
    (∃ key value, t = .set key value ∧ t' = .attemptConsensus (setRequest key value)) ∨
    (t.Forwarded ∧ t' = t) ∨ t' = .electLeader "leader" me := by
  have hforward : ∀ d, t.Forwarded → forwardEmits cl.memberList me t h (.invoke (some d) t') →
      (t.Forwarded ∧ t' = t) ∨ t' = .electLeader "leader" me := by
    rintro d ht ⟨-, ⟨rfl, -⟩ | ⟨rfl, -⟩⟩
    · exact .inl ⟨ht, rfl⟩
    · exact .inr rfl
  cases t with
  | attemptConsensus r => cases dest <;> exact absurd he id
  | electLeader key value =>
    cases dest with
    | some d => exact absurd he id
    | none =>
      cases t' with
      | attemptConsensus r =>
        obtain ⟨rfl, -⟩ := he
        exact .inl ⟨key, value, rfl, rfl⟩
      | _ => exact absurd he id
  | set key value =>
    cases dest with
    | some d => exact .inr (.inr (hforward d trivial he))
    | none =>
      cases t' with
      | attemptConsensus r =>
        obtain ⟨rfl, -⟩ := he
        exact .inr (.inl ⟨key, value, rfl, rfl⟩)
      | _ => exact absurd he id
  | get key =>
    cases dest with
    | some d => exact .inr (.inr (hforward d trivial he))
    | none => exact absurd he id
  | coordinate =>
    cases dest with
    | none => exact absurd he id
    | some d => exact .inr (.inr (.inr he.2))

/-- A node triggers its own election. -/
theorem dest_of_elect {cl : Cluster} {me key value : String} {t : Task} {h : History}
    {dest : Option String}
    (he : emits cl me t h (.invoke dest (.electLeader key value))) :
    dest = some me ∧ key = "leader" ∧ value = me := by
  have hforward : ∀ d, forwardEmits cl.memberList me t h (.invoke (some d)
      (.electLeader key value)) → t.Forwarded → d = me ∧ key = "leader" ∧ value = me := by
    rintro d ⟨-, ⟨rfl, -⟩ | ⟨heq, rfl⟩⟩ ht
    · exact absurd ht id
    · obtain ⟨rfl, rfl⟩ := Task.electLeader.inj heq
      exact ⟨rfl, rfl, rfl⟩
  rcases t with r | _ | _ | _ | _ <;> rcases dest with _ | d
  all_goals first
    | exact absurd he id
    | skip
  · obtain ⟨rfl, hrest⟩ := hforward d he trivial
    exact ⟨rfl, hrest⟩
  · obtain ⟨rfl, hrest⟩ := hforward d he trivial
    exact ⟨rfl, hrest⟩
  · obtain ⟨rfl, heq⟩ := he
    obtain ⟨rfl, rfl⟩ := Task.electLeader.inj heq
    exact ⟨rfl, rfl, rfl⟩

/-- The actions that log something are called by attempts, about their own key and round. -/
theorem attempt_of_emits {cl : Cluster} {me : String} {t : Task} {h : History}
    {dest : Option String} {a : Act} (he : emits cl me t h (.act dest a)) {key : String}
    {round : ℤ} (hslot : a.slot? = some (key, round)) :
    ∃ r d, t = .attemptConsensus r ∧ dest = some d ∧ d ∈ cl.memberList ∧
      attemptEmits cl.memberList r h (.act (some d) a) ∧ r.key = key ∧ roundOf h = round := by
  rcases t with r | ⟨k, v⟩ | ⟨k, v⟩ | k | _
  · cases dest with
    | none => cases a <;> first | exact absurd he id | cases hslot
    | some d =>
      refine ⟨r, d, rfl, rfl, ?_, he, ?_⟩
      · cases a <;> first | exact he.1 | exact absurd he id
      · cases a with
        | propose q =>
          obtain ⟨-, rfl, -⟩ := he
          exact Prod.mk.inj (Option.some.inj hslot)
        | accept q =>
          obtain ⟨-, hq, -⟩ := he
          obtain ⟨rfl, rfl⟩ := Prod.mk.inj (Option.some.inj hslot)
          exact ⟨hq.key.symm, hq.round.symm⟩
        | success q =>
          obtain ⟨-, -, qa, ⟨hq, -⟩, rfl⟩ := he
          obtain ⟨rfl, rfl⟩ := Prod.mk.inj (Option.some.inj hslot)
          exact ⟨rfl, hq.round.symm⟩
        | _ => cases hslot
  · cases dest <;> cases a <;> first | exact absurd he id | cases hslot
  · cases dest <;> cases a <;> first | exact absurd he id | cases hslot
  · cases dest <;> cases a <;> first | exact absurd he id | cases hslot
  · cases dest <;> cases a <;> first | exact absurd he id | cases hslot

section Runs

variable {cl : Cluster} {C : Net (db cl) → Label Db → Prop} {s₀ s s' : Net (db cl)}
  {l : Label Db}

/-- What a step does to one replica. -/
theorem replica_step (hs : Step s l s') (d : String) :
    s'.nodes d = s.nodes d ∨
    (∃ a, s.executed? l = some (d, a) ∧ s'.nodes d = (act a (s.nodes d)).2) ∨
    (l = .restart d ∧ s'.nodes d = {}) := hs.node d

theorem replica_executed (hs : Step s l s') {d : String} {a : Act}
    (hex : s.executed? l = some (d, a)) : s'.nodes d = (act a (s.nodes d)).2 :=
  hs.node_executed hex

/-- Nobody runs `coordinate` in a run without restarts, unless a client can. -/
theorem task_ne_coordinate (hinit : s₀.acts = []) (hC : ∀ s l, C s l → l.NoRestart)
    (hclient : ∀ s a t, C s (.submit a t) → t ≠ .coordinate) (h : Reach C s₀ s) {j : ℕ}
    {p : Activation Db} (hp : s.acts[j]? = some p) : p.task ≠ .coordinate := by
  refine h.invariant (I := fun s ↦ ∀ (j : ℕ) (p : Activation Db), s.acts[j]? = some p →
    p.task ≠ .coordinate) (by simp [hinit]) ?_ j p hp
  intro s l s' hr _ ih hl hs j p hp
  rcases hs.activation hp with hp | ⟨-, a, t, origin, rfl, hopen⟩ | ⟨p₀, hp₀, rfl, -⟩ |
    ⟨p₀, hp₀, rfl, -⟩ | ⟨p₀, c, k, r, hp₀, -, -, rfl, -⟩
  · exact ih j p hp
  · rcases hopen with ⟨rfl, -⟩ | ⟨rfl, -, -⟩ | ⟨i, p₀, dest, k, -, hp₀, -, hc, -⟩
    · exact hclient s a t hl
    · exact absurd (hC s _ hl) id
    · rintro rfl
      rcases task_of_emits (((contract cl).lawful hinit hr i p₀ hp₀).emits hc) with
        ⟨_, _, -, heq⟩ | ⟨_, _, -, heq⟩ | ⟨-, heq⟩ | heq
      · cases heq
      · cases heq
      · exact ih i p₀ hp₀ heq.symm
      · cases heq
  · exact ih j p₀ hp₀
  · exact ih j p₀ hp₀
  · exact ih j p₀ hp₀

/-- Rounds stay logged, unless a node restarts. -/
theorem keys_mono (hs : Step s l s') (hl : l.NoRestart) {d key : String} {round : ℤ}
    (h : round ∈ ((s.nodes d).log key).keys) : round ∈ ((s'.nodes d).log key).keys := by
  rcases replica_step hs d with hnode | ⟨a, -, hnode⟩ | ⟨rfl, -⟩
  · rwa [hnode]
  · rw [hnode, mem_keys_act]
    exact .inl h
  · exact absurd hl id

/-- In every reachable state, all messages that may be executed are sound. -/
theorem sound_of_requested (hinit : s₀.acts = []) (hlate : s₀.late = []) (h : Reach C s₀ s)
    {d : String} {a : Act} (hreq : s.Requested d a) : a.Sound :=
  h.requested hlate (P := fun _ a ↦ Act.Sound a) (fun _ hr i p _ _ _ hp hc ↦
    sound_of_emits (((contract cl).lawful hinit hr i p hp).emits hc)) hreq

/-- What is only called at the own node is never in flight. -/
theorem not_late_of_emits (hinit : s₀.acts = []) (hlate : s₀.late = []) {d : String} {a : Act}
    (hown : ∀ {me t h dest}, emits cl me t h (.act dest a) → dest = none) (h : Reach C s₀ s) :
    (d, a) ∉ s.late := by
  refine h.invariant (I := fun (s : Net (db cl)) ↦ (d, a) ∉ s.late) (by simp [hlate]) ?_
  intro s l s' hr _ ih _ hs hm
  rcases hs.new_late hm with hm | ⟨i, p, k, -, -, hp, hc, -⟩
  · exact ih hm
  · cases hown (((contract cl).lawful hinit hr i p hp).emits hc)

/-- **Who asks for the actions that log something**: an attempt, about its own key and round. -/
theorem attempt_of_call (hinit : s₀.acts = []) (h : Reach C s₀ s) {i : ℕ}
    {p : Activation Db} (hp : s.acts[i]? = some p) {dest : Option String} {a : Act}
    {k : a.Ret → Program Reply} (hc : p.prog = .call (.act dest a) k) {key : String} {round : ℤ}
    (hslot : a.slot? = some (key, round)) :
    ∃ r d, p.task = .attemptConsensus r ∧ dest = some d ∧ d ∈ cl.memberList ∧
      attemptEmits cl.memberList r p.hist (.act (some d) a) ∧ r.key = key ∧
      roundOf p.hist = round :=
  attempt_of_emits (((contract cl).lawful hinit h i p hp).emits hc) hslot

/-- The proposals of an attempt are for the round it chose. -/
theorem propose_of_sent {p : Activation Db} {r : Request} (hp : (contract cl).Lawful p)
    (htask : p.task = .attemptConsensus r) {d : String} {q : Request}
    (hsent : Sent p.hist d (.propose q)) : q = prepareRequest r (roundOf p.hist) := by
  obtain ⟨x, hx⟩ := hsent
  obtain ⟨h₁, h₂, heq⟩ := List.append_of_mem hx
  have hemit := (hp.past h₁ (.act (some d) (Act.propose q)) x h₂ heq).1
  rw [htask] at hemit
  rw [heq, roundOf_append_act]
  exact hemit.2.1

/-! ### Who has opened a slot -/

/-- The activation `j` is an attempt at `r` and has proposed in the round. -/
def Proposes (s : Net (db cl)) (j : ℕ) (r : Request) (round : ℤ) : Prop :=
  ∃ (p : Activation Db) (d : String), s.acts[j]? = some p ∧ p.task = .attemptConsensus r ∧
    Sent p.hist d (.propose (prepareRequest r round))

theorem Proposes.mono (hs : Step s l s') {j : ℕ} {r : Request} {round : ℤ}
    (h : Proposes s j r round) : Proposes s' j r round := by
  obtain ⟨p, d, hp, htask, hsent⟩ := h
  obtain ⟨p', hp', -, htask', -, -, hhist, -⟩ := hs.keeps hp
  exact ⟨p', d, hp', htask'.trans htask, hsent.mono hhist.subset⟩

/-- An attempt proposes in the round it chose. -/
theorem Proposes.round (hinit : s₀.acts = []) (h : Reach C s₀ s) {j : ℕ} {r : Request}
    {round : ℤ} (hprop : Proposes s j r round) {p : Activation Db} (hp : s.acts[j]? = some p) :
    p.task = .attemptConsensus r ∧ round = roundOf p.hist := by
  obtain ⟨p', d, hp', htask, hsent⟩ := hprop
  obtain rfl := Option.some.inj (hp.symm.trans hp')
  exact ⟨htask, congrArg Request.round
    (propose_of_sent ((contract cl).lawful hinit h j p hp) htask hsent)⟩

/-- **An attempt that sends a message about a slot has proposed in it.** -/
theorem proposes_of_calledBy (hinit : s₀.acts = []) (h : Reach C s₀ s) {j : ℕ} {d : String}
    {a : Act} (hcall : s.CalledBy j d a) {key : String} {round : ℤ}
    (hslot : a.slot? = some (key, round)) : ∃ r, Proposes s j r round ∧ r.key = key := by
  obtain ⟨p, dest, x, hp, -, hmem⟩ := hcall
  obtain ⟨h₁, hpre, hemit, -⟩ := ((contract cl).lawful hinit h j p hp).emits_of_mem hmem
  obtain ⟨r, d, htask, rfl, -, hemit, hkey, rfl⟩ := attempt_of_emits hemit hslot
  refine ⟨r, ?_, hkey⟩
  -- past its proposals, it has sent one to some member
  have hasked : AllAsked cl.memberList r h₁ → Proposes s j r (roundOf h₁) := fun ⟨⟨d', hs⟩, _⟩ ↦
    ⟨p, d', hp, htask, hs.mono hpre.subset⟩
  cases a with
  | propose q =>
    obtain ⟨-, rfl, -⟩ := hemit
    exact ⟨p, d, hp, htask, x, hmem⟩
  | accept q => exact hasked hemit.2.2.1
  | success q => exact hasked hemit.2.1
  | _ => cases hslot

/-- **A logged round is that of an attempt** that has proposed in it. -/
theorem proposes_of_logged (hinit : s₀.acts = []) (hlate : s₀.late = [])
    (hlog : ∀ d, (s₀.nodes d).paxLog = ∅) (h : Reach C s₀ s) {d key : String} {round : ℤ}
    (hround : round ∈ ((s.nodes d).log key).keys) :
    ∃ j r, Proposes s j r round ∧ r.key = key := by
  refine h.invariant (I := fun s ↦ ∀ d, round ∈ ((s.nodes d).log key).keys →
    ∃ j r, Proposes s j r round ∧ r.key = key) ?_ ?_ d hround
  · intro d hd
    rw [Replica.log, hlog] at hd
    exact absurd hd (by simp)
  intro s l s' hr hr' ih _ hs d hd
  have hkeep : round ∈ ((s.nodes d).log key).keys →
      ∃ j r, Proposes s' j r round ∧ r.key = key := fun hd ↦ by
    obtain ⟨j, r, hprop, hkey⟩ := ih d hd
    exact ⟨j, r, hprop.mono hs, hkey⟩
  rcases replica_step hs d with hnode | ⟨a, hex, hnode⟩ | ⟨-, hnode⟩ <;> rw [hnode] at hd
  · exact hkeep hd
  · rcases (mem_keys_act a (s.nodes d)).1 hd with hd | hslot
    · exact hkeep hd
    · obtain ⟨j, hcall⟩ := hr.calledBy_of_executed hlate hs hex
      exact ⟨j, proposes_of_calledBy hinit hr' hcall hslot⟩
  · exact absurd hd (by simp [Replica.log])

/-! ### Nodes that get what they are sent -/

/-- Answers of the node `d` in the voting phases that are OK. -/
def AnswerOk (d : String) : (c : Call Db) → c.Ret → Prop
  | .act (some d') .ping, (st : Status) => d' = d → st.Ok
  | .act (some d') (.propose _), (x : Status × Response) => d' = d → x.1.Ok
  | .act (some d') (.accept _), (x : Status × Response) => d' = d → x.1.Ok
  | _, _ => True

/-- Nothing is promised. -/
theorem pServerId_eq_zero (hlog : ∀ d, (s₀.nodes d).paxLog = ∅) (h : Reach C s₀ s)
    (d key : String) (round : ℤ) : (((s.nodes d).log key).entry round).pServerId = 0 := by
  refine h.invariant (I := fun s ↦ ∀ d, (((s.nodes d).log key).entry round).pServerId = 0)
    (fun d ↦ ?_) (fun s l s' _ _ ih _ hs d ↦ ?_) d
  · rw [Replica.log, hlog]
    rfl
  · rcases replica_step hs d with hnode | ⟨a, -, hnode⟩ | ⟨-, hnode⟩ <;> rw [hnode]
    · exact ih d
    · rw [pServerId_act]
      exact ih d
    · rfl

/-- What attempts send to the node `d` is executed and answered at once. -/
def AttemptsReach (d : String) (s : Net (db cl)) : Label Db → Prop
  | .step i o => ∀ p ∈ s.acts[i]?, p.task.request?.isSome → s.DeliversTo d (.step i o)
  | _ => True

instance (d : String) (s : Net (db cl)) : DecidablePred (AttemptsReach d s)
  | .step i o => inferInstanceAs (Decidable
    (∀ p ∈ s.acts[i]?, p.task.request?.isSome → s.DeliversTo d (.step i o)))
  | .submit _ _ | .deliver _ | .restart _ => inferInstanceAs (Decidable True)

theorem attemptsReach_of_deliversTo {d : String} (h : s.DeliversTo d l) : AttemptsReach d s l := by
  cases l with
  | step i o => exact fun _ _ _ ↦ h
  | _ => trivial

/-- A call of an attempt that gets through was executed, and answered by its node. -/
theorem AttemptsReach.executed {d : String} (hl : AttemptsReach d s l) {j : ℕ} {p : Activation Db}
    {a : Act} {k : a.Ret → Program Reply} {x : a.Ret} (hp : s.acts[j]? = some p) {r : Request}
    (htask : p.task = .attemptConsensus r) (hc : p.prog = .call (.act (some d) a) k)
    (hans : s.Answers l j p (.act (some d) a) x) :
    s.executed? l = some (d, a) ∧ x = (act a (s.nodes d)).1 := by
  obtain ⟨o, rfl⟩ := hans.label
  exact (hl p hp (by rw [htask]; rfl)).executed hp hc hans

/-- **Nobody refuses** a ping, a proposal or an accept request that is delivered. -/
theorem answerOk (hinit : s₀.acts = []) (hlate : s₀.late = [])
    (hlog : ∀ d, (s₀.nodes d).paxLog = ∅) {d : String}
    (hC : ∀ s l, C s l → AttemptsReach d s l) (h : Reach C s₀ s) :
    ∀ (j : ℕ) (p : Activation Db), s.acts[j]? = some p → ∀ e ∈ p.hist, AnswerOk d e.1 e.2 := by
  refine h.answered hinit (P := fun _ _ e ↦ AnswerOk d e.1 e.2)
    (fun _ _ _ _ _ _ _ _ _ _ _ _ hok ↦ hok) ?_
  intro s l s' hr _ hl hs j p c k r hp _ hc hans
  rcases c with ⟨_ | d', a⟩ | ⟨dest, t⟩
  · trivial
  case invoke => trivial
  -- only attempts ask for votes
  have hattempt : a = .ping ∨ (∃ q, a = .propose q) ∨ (∃ q, a = .accept q) →
      ∃ r, p.task = .attemptConsensus r := by
    intro ha
    have hemit := ((contract cl).lawful hinit hr j p hp).emits hc
    rcases htask : p.task with r | _ | _ | _ | _ <;> rw [htask] at hemit
    · exact ⟨r, rfl⟩
    all_goals
      rcases ha with rfl | ⟨q, rfl⟩ | ⟨q, rfl⟩ <;> exact absurd hemit id
  cases a with
  | ping =>
    rintro rfl
    obtain ⟨r, htask⟩ := hattempt (.inl rfl)
    rw [((hC s l hl).executed hp htask hc hans).2]
    exact Status.ok_default
  | accept q =>
    rintro rfl
    obtain ⟨r, htask⟩ := hattempt (.inr (.inr ⟨q, rfl⟩))
    rw [((hC s l hl).executed hp htask hc hans).2]
    exact Status.ok_default
  | propose q =>
    rintro rfl
    obtain ⟨r, htask⟩ := hattempt (.inr (.inl ⟨q, rfl⟩))
    have hsound := sound_of_requested hinit hlate hr (.inl ⟨j, p, some d', k, hp, hc, rfl⟩)
    have hprom : ¬ (((s.nodes d').log q.key).entry q.round).pServerId > q.pserverId := by
      rw [pServerId_eq_zero hlog hr, hsound.1]
      decide
    rw [((hC s l hl).executed hp htask hc hans).2]
    change Status.Ok (propose false q (s.nodes d')).1.1
    rw [propose_answer, if_neg hprom]
    split <;> exact Status.ok_default
  | _ => trivial

/-- **What was sent is logged**, by a node that gets what attempts send to it. -/
theorem logged_of_sent (hinit : s₀.acts = []) {d : String}
    (hC : ∀ s l, C s l → AttemptsReach d s l ∧ l.NoRestart) (h : Reach C s₀ s) {j : ℕ}
    {p : Activation Db} (hp : s.acts[j]? = some p) {key : String} {round : ℤ} {a : Act}
    (hsent : Sent p.hist d a) (hslot : a.slot? = some (key, round)) :
    round ∈ ((s.nodes d).log key).keys := by
  obtain ⟨x, hx⟩ := hsent
  refine h.answered hinit (P := fun s _ e ↦ e.1 = .act (some d) a →
    round ∈ ((s.nodes d).log key).keys) ?_ ?_ j p hp _ hx rfl
  · intro s l s' _ _ hl hs j p _ e _ hkeep he
    exact keys_mono hs (hC s l hl).2 (hkeep he)
  · rintro s l s' hr - hl hs j p c k r hp - hc hans rfl
    obtain ⟨r', -, htask, -⟩ := attempt_of_call hinit hr hp hc hslot
    have hex := ((hC s l hl).1.executed hp htask hc hans).1
    rw [replica_executed hs hex, mem_keys_act]
    exact .inr hslot

/-- Nothing that is logged is in flight to a node that gets what attempts send to it. -/
theorem slot?_of_late (hinit : s₀.acts = []) (hlate : s₀.late = []) {d : String}
    (hC : ∀ s l, C s l → AttemptsReach d s l) (h : Reach C s₀ s) :
    ∀ m ∈ s.late, m.1 = d → Act.slot? m.2 = none := by
  refine h.invariant (I := fun s ↦ ∀ m ∈ s.late, m.1 = d → Act.slot? m.2 = none)
    (by simp [hlate]) ?_
  rintro s l s' hr - ih hl hs ⟨d', a⟩ hm rfl
  rcases hs.new_late hm with hm | ⟨i, p, k, -, rfl, hp, hc, -⟩
  · exact ih _ hm rfl
  · by_contra hslot
    obtain ⟨⟨key, round⟩, hslot⟩ := Option.ne_none_iff_exists'.1 hslot
    obtain ⟨r, -, htask, -⟩ := attempt_of_call hinit hr hp hc hslot
    have hlost : Outcome.late = .delivered :=
      hC s _ hl p hp (by rw [htask]; rfl) p hp (by rw [hc]; exact rfl)
    cases hlost

/-- The calls of an attempt are actions of other nodes and a read of its own log. -/
theorem act_of_attempt (hinit : s₀.acts = []) (h : Reach C s₀ s) {j : ℕ}
    {p : Activation Db} (hp : s.acts[j]? = some p) {r : Request}
    (htask : p.task = .attemptConsensus r) {c : Call Db} {k : c.Ret → Program Reply}
    (hc : p.prog = .call c k) : ∃ dest b, c = .act dest b ∧ (∀ v, b ≠ .writeLeader v) ∧
      ∀ q, b = .success q → q.key = r.key := by
  have hemit := ((contract cl).lawful hinit h j p hp).emits hc
  rw [htask] at hemit
  rcases c with ⟨dest, b⟩ | ⟨dest, t⟩
  · refine ⟨dest, b, rfl, ?_, ?_⟩
    · rintro v rfl
      cases dest <;> exact hemit
    · rintro q rfl
      cases dest with
      | none => exact absurd hemit id
      | some d =>
        obtain ⟨-, -, qa, -, rfl⟩ := hemit
        rfl
  · cases dest <;> exact absurd hemit id

/-- Only `coordinate` copies a store, so nothing is copied in a run without it. -/
theorem not_requested_setKV (hinit : s₀.acts = []) (hlate : s₀.late = [])
    (hC : ∀ s l, C s l → l.NoRestart) (hclient : ∀ s a t, C s (.submit a t) → t ≠ .coordinate)
    (h : Reach C s₀ s) {d key value : String} : ¬ s.Requested d (.setKV key value) := by
  intro hreq
  refine h.requested hlate (P := fun _ a ↦ ∀ k v, a ≠ Act.setKV k v) ?_ hreq key value rfl
  rintro s hr i p dest a k' hp hc k v rfl
  refine task_ne_coordinate hinit hC hclient hr hp ?_
  have hemit := ((contract cl).lawful hinit hr i p hp).emits hc
  rcases htask : p.task with r | ⟨k, v⟩ | ⟨k, v⟩ | k | _ <;> rw [htask] at hemit <;>
    cases dest <;> exact absurd hemit id

end Runs

end ReplicatedDB
