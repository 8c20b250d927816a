import ReplicatedDB.Protocol.Writes

/-!
# Sets served one after the other

A node `a` that leads handles the sets of its clients one after the other, and what it sends to
itself arrives (`StableLeader`). In every state reached (`Serving`) the activations are the
finished sets, each followed by its attempt, and then the set that is being handled, if any. So
an attempt that makes a call is the last one (`Serving.last`), and a set returns what its
attempt has returned (`Serving.pair`, `Serving.set`).
-/

namespace ReplicatedDB

open Rpc Rpc.Net

variable {cl : Cluster}

/-- Clients set keys of the store at the node `a`, each request after the previous one has
returned, and what is sent to `a` arrives at once. -/
def StableLeader (a : String) (s : Net (db cl)) : Label Db → Prop
  | .submit a' (.set key _) => a' = a ∧ key ≠ "leader" ∧ s.Finished
  | .step i o => s.DeliversTo a (.step i o)
  | .deliver _ => True
  | _ => False

instance (a : String) (s : Net (db cl)) : DecidablePred (StableLeader a s)
  | .submit a' (.set key _) => inferInstanceAs (Decidable (a' = a ∧ key ≠ "leader" ∧ s.Finished))
  | .step i o => inferInstanceAs (Decidable (s.DeliversTo a (.step i o)))
  | .deliver _ => inferInstanceAs (Decidable True)
  | .submit _ (.attemptConsensus _) | .submit _ (.electLeader _ _) | .submit _ (.get _)
  | .submit _ .coordinate | .restart _ => inferInstanceAs (Decidable False)

/-! ### What is being handled -/

/-- What a set does when it has found its node to be the leader. -/
def setAsLeader (key value : String) : Program Reply := do
  let resp ← Local.attemptConsensus (setRequest key value)
  pure { status := resp.status }

/-- A set at `a`, which is the activation `i`, and its attempt. -/
structure Pair (a : String) (i : ℕ) (p q : Activation Db) (key value : String) : Prop where
  task : p.task = .set key value
  store : key ≠ "leader"
  attempt : q.task = .attemptConsensus (setRequest key value)
  origin : q.origin = some i
  node : q.node = a

/-- Sets that have returned what their attempts have returned. -/
inductive Handled (a : String) : List (Activation Db) → Prop where
  | nil : Handled a []
  | snoc {done : List (Activation Db)} {p q : Activation Db} {key value : String} {rep : Reply} :
      Handled a done → Pair a done.length p q key value → p.Returned { status := rep.status } →
        q.Returned rep → Handled a (done ++ [p, q])

/-- What is being handled after `done`: nothing, or a set that has not called its attempt yet, or
a set and its attempt. -/
inductive Phase (cl : Cluster) (a : String) (done : List (Activation Db)) :
    List (Activation Db) → Prop where
  | idle : Phase cl a done []
  | called {p : Activation Db} {key value : String} (task : p.task = .set key value)
      (store : key ≠ "leader") (node : p.node = a)
      (prog : p.prog = set cl.memberList a key value ∨ p.prog = setAsLeader key value)
      (child : p.child = none) : Phase cl a done [p]
  | running {p q : Activation Db} {key value : String}
      (pair : Pair a done.length p q key value) (prog : p.prog = setAsLeader key value)
      (child : p.child = some (done.length + 1)) : Phase cl a done [p, q]

/-- The requests handled so far, and the one being handled, by a node that is the leader. -/
def Serving (a : String) (s : Net (db cl)) : Prop :=
  (s.nodes a).leader = a ∧ ∃ done rest, s.acts = done ++ rest ∧ Handled a done ∧
    Phase cl a done rest

theorem Handled.returned {a : String} {done : List (Activation Db)} (h : Handled a done) :
    ∀ p ∈ done, ∃ r, p.Returned r := by
  induction h with
  | nil => simp
  | snoc _ _ hp hq ih =>
    intro x hx
    simp only [List.mem_append, List.mem_cons, List.not_mem_nil, or_false] at hx
    rcases hx with hx | rfl | rfl
    · exact ih x hx
    · exact ⟨_, hp⟩
    · exact ⟨_, hq⟩

/-- An activation is found in what is done, or behind it. -/
theorem getElem?_done {done rest : List (Activation Db)} {i : ℕ} {p : Activation Db}
    (hp : (done ++ rest)[i]? = some p) :
    (i < done.length ∧ done[i]? = some p) ∨ ∃ n, i = done.length + n ∧ rest[n]? = some p := by
  rcases Nat.lt_or_ge i done.length with hi | hi
  · rw [List.getElem?_append_left hi] at hp
    exact .inl ⟨hi, hp⟩
  · rw [List.getElem?_append_right hi] at hp
    exact .inr ⟨i - done.length, by omega, hp⟩

/-- What is not done is found behind what is done. -/
theorem Handled.not_done {a : String} {done rest : List (Activation Db)} (h : Handled a done)
    {i : ℕ} {p : Activation Db} (hp : (done ++ rest)[i]? = some p) {c : Call Db}
    {k : c.Ret → Program Reply} (hc : p.prog = .call c k) :
    ∃ n, i = done.length + n ∧ rest[n]? = some p := by
  refine (getElem?_done hp).resolve_left fun ⟨_, hdone⟩ ↦ ?_
  obtain ⟨r, hr⟩ := h.returned p (List.mem_of_getElem? hdone)
  cases hc.symm.trans hr

/-- The attempt that is running is behind its set. -/
theorem Phase.attempt {a : String} {done rest : List (Activation Db)}
    (h : Phase cl a done rest) {n : ℕ} {q : Activation Db} (hq : rest[n]? = some q) {r : Request}
    (htask : q.task = .attemptConsensus r) : ∃ p key value, n = 1 ∧ rest = [p, q] ∧
      Pair a done.length p q key value ∧ p.prog = setAsLeader key value := by
  cases h with
  | idle => cases hq
  | called htask' =>
    rcases n with _ | n
    · obtain rfl := Option.some.inj hq
      cases htask'.symm.trans htask
    · cases hq
  | @running p₁ q₁ key value hpair hprog =>
    rcases n with _ | _ | n
    · obtain rfl := Option.some.inj hq
      cases hpair.task.symm.trans htask
    · obtain rfl := Option.some.inj hq
      exact ⟨p₁, key, value, rfl, rfl, hpair, hprog⟩
    · cases hq

/-- The attempts among what is done belong to sets, which have returned the same status. -/
theorem Handled.pair {a : String} {done : List (Activation Db)} (h : Handled a done) {j : ℕ}
    {q : Activation Db} (hq : done[j]? = some q) {r : Request}
    (htask : q.task = .attemptConsensus r) :
    ∃ i p key value rep, j = i + 1 ∧ done[i]? = some p ∧ Pair a i p q key value ∧
      p.Returned { status := rep.status } ∧ q.Returned rep := by
  induction h with
  | nil => cases hq
  | @snoc done p₁ q₁ key value rep hdone hpair hp₁ hq₁ ih =>
    rcases getElem?_done hq with ⟨-, hdone⟩ | ⟨n, rfl, hnew⟩
    · obtain ⟨i, p, key, value, rep, rfl, hp, hrest⟩ := ih hdone
      exact ⟨i, p, key, value, rep, rfl,
        by rw [List.getElem?_append_left (lt_length hp), hp], hrest⟩
    · rcases n with _ | _ | n
      · obtain rfl := Option.some.inj hnew
        cases hpair.task.symm.trans htask
      · obtain rfl := Option.some.inj hnew
        exact ⟨done.length, p₁, key, value, rep, rfl, by simp, hpair, hp₁, hq₁⟩
      · cases hnew

/-- A set that is done has had an attempt. -/
theorem Handled.set {a : String} {done : List (Activation Db)} (h : Handled a done) {i : ℕ}
    {p : Activation Db} (hp : done[i]? = some p) {key value : String}
    (htask : p.task = .set key value) {rep : Reply} (hret : p.Returned rep) :
    ∃ q rep', done[i + 1]? = some q ∧ Pair a i p q key value ∧ q.Returned rep' ∧
      rep.status = rep'.status := by
  induction h with
  | nil => cases hp
  | @snoc done p₁ q₁ key' value' rep₁ hdone hpair hp₁ hq₁ ih =>
    rcases getElem?_done hp with ⟨-, hold⟩ | ⟨n, rfl, hnew⟩
    · obtain ⟨q, rep', hq, hrest⟩ := ih hold
      exact ⟨q, rep', by rw [List.getElem?_append_left (lt_length hq), hq], hrest⟩
    · rcases n with _ | _ | n
      · obtain rfl := Option.some.inj hnew
        obtain ⟨rfl, rfl⟩ := Task.set.inj (hpair.task.symm.trans htask)
        obtain rfl := Prog.ret.inj (hp₁.symm.trans hret)
        exact ⟨q₁, rep₁, by simp, hpair, hq₁, rfl⟩
      · obtain rfl := Option.some.inj hnew
        cases hpair.attempt.symm.trans htask
      · cases hnew

/-- The attempts belong to sets, which return what their attempts have returned. -/
theorem Serving.pair {a : String} {s : Net (db cl)} (h : Serving a s) {j : ℕ}
    {q : Activation Db} (hq : s.acts[j]? = some q) {r : Request}
    (htask : q.task = .attemptConsensus r) :
    ∃ i p key value, j = i + 1 ∧ s.acts[i]? = some p ∧ Pair a i p q key value ∧
      ∀ rep, p.Returned rep → ∃ rep', q.Returned rep' ∧ rep.status = rep'.status := by
  obtain ⟨-, done, rest, hacts, hdone, hphase⟩ := h
  rw [hacts] at hq ⊢
  rcases getElem?_done hq with ⟨-, hold⟩ | ⟨n, rfl, hnew⟩
  · obtain ⟨i, p, key, value, rep, rfl, hp, hpair, hpret, hqret⟩ := hdone.pair hold htask
    refine ⟨i, p, key, value, rfl, by rw [List.getElem?_append_left (lt_length hp), hp], hpair,
      fun rep' hrep' ↦ ⟨rep, hqret, ?_⟩⟩
    obtain rfl := Prog.ret.inj (hpret.symm.trans hrep')
    rfl
  · obtain ⟨p, key, value, rfl, rfl, hpair, hprog⟩ := hphase.attempt hnew htask
    exact ⟨done.length, p, key, value, rfl, by simp, hpair, fun rep hrep ↦ by
      cases hprog.symm.trans hrep⟩

/-- A set that has returned has had an attempt, which is the next activation. -/
theorem Serving.set {a : String} {s : Net (db cl)} (h : Serving a s) {i : ℕ}
    {p : Activation Db} (hp : s.acts[i]? = some p) {key value : String}
    (htask : p.task = .set key value) {rep : Reply} (hret : p.Returned rep) :
    ∃ q rep', s.acts[i + 1]? = some q ∧ Pair a i p q key value ∧ q.Returned rep' ∧
      rep.status = rep'.status := by
  obtain ⟨-, done, rest, hacts, hdone, hphase⟩ := h
  rw [hacts] at hp ⊢
  rcases getElem?_done hp with ⟨-, hold⟩ | ⟨n, rfl, hnew⟩
  · obtain ⟨q, rep', hq, hrest⟩ := hdone.set hold htask hret
    exact ⟨q, rep', by rw [List.getElem?_append_left (lt_length hq), hq], hrest⟩
  · -- a set that is being handled has not returned
    cases hphase with
    | idle => cases hnew
    | called _ _ _ hprog =>
      rcases n with _ | n
      · obtain rfl := Option.some.inj hnew
        rcases hprog with hprog | hprog <;> cases hprog.symm.trans hret
      · cases hnew
    | running hpair hprog =>
      rcases n with _ | _ | n
      · obtain rfl := Option.some.inj hnew
        cases hprog.symm.trans hret
      · obtain rfl := Option.some.inj hnew
        cases hpair.attempt.symm.trans htask
      · cases hnew

/-- **An attempt that makes a call is the last one**, and all others have returned. -/
theorem Serving.last {a : String} {s : Net (db cl)} (h : Serving a s) {i j : ℕ}
    {p q : Activation Db} (hp : s.acts[j]? = some p) {r r' : Request}
    (hptask : p.task = .attemptConsensus r) {c : Call Db} {k : c.Ret → Program Reply}
    (hc : p.prog = .call c k) (hq : s.acts[i]? = some q) (hqtask : q.task = .attemptConsensus r')
    (hij : i ≠ j) : i < j ∧ ∃ rep, q.Returned rep := by
  obtain ⟨-, done, rest, hacts, hdone, hphase⟩ := h
  rw [hacts] at hp hq
  obtain ⟨n, rfl, hrest⟩ := hdone.not_done hp hc
  obtain ⟨-, -, -, rfl, -, -, -⟩ := hphase.attempt hrest hptask
  rcases getElem?_done hq with ⟨hi, hold⟩ | ⟨m, rfl, hnew⟩
  · exact ⟨by omega, hdone.returned q (List.mem_of_getElem? hold)⟩
  · obtain ⟨-, -, -, rfl, -, -, -⟩ := hphase.attempt hnew hqtask
    exact absurd rfl hij

section Runs

variable {a : String} {nodes : String → Replica} {s s' : Net (db cl)} {l : Label Db}

theorem stableLeader_delivers (s : Net (db cl)) (l : Label Db) (hl : StableLeader a s l) :
    s.DeliversTo a l ∧ l.NoRestart := by
  cases l with
  | submit a' t => exact ⟨trivial, trivial⟩
  | step i o => exact ⟨hl, trivial⟩
  | deliver j => exact ⟨trivial, trivial⟩
  | restart d => exact absurd hl id

theorem stableLeader_client (s : Net (db cl)) (a' : String) (t : Task)
    (hl : StableLeader a s (.submit a' t)) : t ≠ .coordinate := by
  rintro rfl
  exact hl

/-- A step of the attempt that runs keeps the phase. -/
theorem attempt_step (h : Reach (StableLeader a) (cl.start nodes) s)
    (hl : StableLeader a s l) (hs : Step s l s') {done : List (Activation Db)}
    {p q : Activation Db} {key value : String} (hleader : (s.nodes a).leader = a)
    (hacts : s.acts = done ++ [p, q]) (hdone : Handled a done)
    (hpair : Pair a done.length p q key value) (hprog : p.prog = setAsLeader key value)
    (hchild : p.child = some (done.length + 1)) {o : Outcome}
    (hlabel : l = .step (done.length + 1) o) : Serving a s' := by
  subst hlabel
  have hq : s.acts[done.length + 1]? = some q := by
    rw [hacts]
    simp
  obtain ⟨q₀, c, k, hq₀, -, hc, hmoved⟩ := hs.moved
  obtain rfl := Option.some.inj (hq.symm.trans hq₀)
  obtain ⟨dest, b, rfl, hwrite, hsuccess⟩ := act_of_attempt rfl h hq hpair.attempt hc
  obtain ⟨x, hacts'⟩ | ⟨dest', t, heq, -⟩ := hmoved
  case inr => cases heq
  refine ⟨?_, done, [p, _], ?_, hdone, .running (q := q.resume s.clock (.act dest b) x (k x))
    ⟨hpair.task, hpair.store, hpair.attempt, hpair.origin, hpair.node⟩ hprog hchild⟩
  · -- the leader register is only written for the key of the attempt
    rcases replica_step hs a with hnode | ⟨b', hex, hnode⟩ | ⟨hl, -⟩
    · rw [hnode, hleader]
    · have hsound := sound_of_requested rfl rfl h (hs.executed hex)
      obtain rfl : b = b' := by
        rw [executed?_eq hq hc] at hex
        split at hex
        · exact (Prod.mk.inj (Option.some.inj hex)).2
        · cases hex
      rw [hnode]
      rcases leader_act b (s.nodes a) hsound with heq | ⟨q', rfl, -, hkey, -⟩ | ⟨v, rfl, -⟩
      · rw [heq, hleader]
      · exact absurd ((hsuccess q' rfl).symm.trans hkey) hpair.store
      · exact absurd rfl (hwrite v)
    · cases hl
  · rw [hacts', hacts, List.set_append_right _ _ (by omega)]
    simp

/-- A set that finds its node to be the leader. -/
theorem set_eq (members : List String) (key value : String) :
    set members a key value = .call (.act none .readLeader) fun addr ↦
      if addr = "" then .ret { status := .aborted "No leader set" }
      else if addr = a then setAsLeader key value
      else forward members a (.set key value) fun _ ↦ {} := rfl

/-- A step of the set that is handled keeps the phase. -/
theorem set_step (ha : a ∈ cl.memberList) (hs : Step s l s')
    {done rest : List (Activation Db)} (hleader : (s.nodes a).leader = a)
    (hacts : s.acts = done ++ rest) (hdone : Handled a done) (hphase : Phase cl a done rest)
    {o : Outcome} (hlabel : l = .step done.length o) : Serving a s' := by
  have hget : s.acts[done.length]? = rest[0]? := by
    rw [hacts, List.getElem?_append_right le_rfl, Nat.sub_self]
  cases hs with
  | submit a' t => cases hlabel
  | deliver hj => cases hlabel
  | restart d => cases hlabel
  | @act i p' o' dest b k hp halive hc ho =>
    obtain ⟨rfl, rfl⟩ := Label.step.inj hlabel
    rw [hp] at hget
    cases hphase with
    | idle => cases hget
    | @called p key value htask hstore hnode hprog hchild =>
      obtain rfl := Option.some.inj hget
      rcases hprog with hprog | hprog <;> rw [hprog] at hc
      · -- it reads the leader register
        rw [set_eq] at hc
        obtain ⟨hcall, hk⟩ := Prog.call.inj hc
        obtain ⟨rfl, rfl⟩ := Call.act.inj hcall
        obtain rfl := eq_of_heq hk
        obtain rfl : o' = .delivered := ho.resolve_left nofun
        refine ⟨?_, done, [_], ?_, hdone, .called (p := p'.resume s.clock (.act none .readLeader) a
          (setAsLeader key value)) htask hstore hnode (.inr rfl) rfl⟩
        · change (Function.update s.nodes p'.node (s.nodes p'.node) a).leader = a
          rw [Function.update_eq_self, hleader]
        · have hne : a ≠ "" := fun h ↦ cl.nonempty (h ▸ ha)
          have hans : s.answer (p'.node) .readLeader .delivered = a := by
            rw [hnode]
            exact hleader
          simp [hans, hacts, hne]
      · cases hc
    | running hpair hprog hchild =>
      obtain rfl := Option.some.inj hget
      rw [hprog] at hc
      cases hc
  | @spawn i p' dest t k hp halive hc hchild' =>
    obtain ⟨rfl, -⟩ := Label.step.inj hlabel
    rw [hp] at hget
    cases hphase with
    | idle => cases hget
    | @called p key value htask hstore hnode hprog hchild =>
      obtain rfl := Option.some.inj hget
      rcases hprog with hprog | hprog
      · rw [hprog, set_eq] at hc
        cases hc
      · -- it calls its attempt
        have hc' := hc
        rw [hprog] at hc
        obtain ⟨hcall, -⟩ := Prog.call.inj hc
        obtain ⟨rfl, rfl⟩ := Call.invoke.inj hcall
        refine ⟨hleader, done, [p'.await s.acts.length, s.opened p'.node
          (.attemptConsensus (setRequest key value)) (some done.length)], ?_, hdone,
          .running ⟨htask, hstore, rfl, rfl, hnode⟩ hprog ?_⟩
        · simp [hacts]
        · simp [hacts]
    | running hpair hprog hchild =>
      obtain rfl := Option.some.inj hget
      rw [hchild'] at hchild
      cases hchild
  | @back i j p' q' dest t r k hp halive hc hchild' hq hr =>
    obtain ⟨rfl, -⟩ := Label.step.inj hlabel
    rw [hp] at hget
    cases hphase with
    | idle => cases hget
    | called htask hstore hnode hprog hchild =>
      obtain rfl := Option.some.inj hget
      rw [hchild'] at hchild
      cases hchild
    | @running p q key value hpair hprog hchild =>
      -- its attempt has returned
      obtain rfl := Option.some.inj hget
      obtain rfl := Option.some.inj (hchild.symm.trans hchild')
      rw [hacts, List.getElem?_append_right (by omega)] at hq
      obtain rfl : q = q' := by simpa using hq
      rw [hprog] at hc
      obtain ⟨hcall, hk⟩ := Prog.call.inj hc
      obtain ⟨rfl, rfl⟩ := Call.invoke.inj hcall
      obtain rfl := eq_of_heq hk
      refine ⟨hleader, _, [], ?_, hdone.snoc (p := p'.resume s.clock
        (.invoke none (.attemptConsensus (setRequest key value))) r
        (.ret { status := r.status })) ⟨hpair.task, hpair.store, hpair.attempt, hpair.origin,
          hpair.node⟩ rfl hr, .idle⟩
      simp [hacts]
      rfl
  | @giveUp i p' d t o' k hp halive hc ho =>
    obtain ⟨rfl, -⟩ := Label.step.inj hlabel
    rw [hp] at hget
    cases hphase with
    | idle => cases hget
    | called htask hstore hnode hprog hchild =>
      obtain rfl := Option.some.inj hget
      rcases hprog with hprog | hprog <;> rw [hprog] at hc
      · rw [set_eq] at hc
        cases hc
      · cases hc
    | running hpair hprog hchild =>
      obtain rfl := Option.some.inj hget
      rw [hprog] at hc
      cases hc

/-- **The leader serves one set after the other.** -/
theorem serving (ha : a ∈ cl.memberList) (hleader : (nodes a).leader = a)
    (h : Reach (StableLeader a) (cl.start nodes) s) : Serving a s := by
  refine h.invariant (I := Serving a) ⟨hleader, [], [], rfl, .nil, .idle⟩ ?_
  rintro s l s' hr - ⟨hleader, done, rest, hacts, hdone, hphase⟩ hl hs
  cases l with
  | submit a' t =>
    obtain ⟨⟩ := hs
    cases t with
    | set key value =>
      obtain ⟨rfl, hstore, hfin⟩ := hl
      -- nothing is being handled
      have hidle : rest = [] := by
        cases hphase with
        | idle => rfl
        | @called p key' value' htask hstore' hnode hprog hchild =>
          obtain ⟨r, hr⟩ := hfin.returned (p := p) (by simp [hacts])
          rcases hprog with hprog | hprog <;> cases hprog.symm.trans hr
        | @running p q key' value' hpair hprog hchild =>
          obtain ⟨r, hr⟩ := hfin.returned (p := p) (by simp [hacts])
          cases hprog.symm.trans hr
      subst hidle
      exact ⟨hleader, done, [_], by simp [hacts], hdone,
        .called (p := s.opened a' (.set key value) none) rfl hstore rfl (.inl rfl) rfl⟩
    | _ => exact absurd hl id
  | restart d => exact absurd hl id
  | deliver j =>
    -- nothing is in flight to the leader
    refine ⟨?_, done, rest, ?_, hdone, hphase⟩
    · obtain ⟨⟩ := hs
      rename_i d b hj
      have hne := hr.late_ne rfl (fun s l hl ↦ (stableLeader_delivers s l hl).1) _
        (List.mem_of_getElem? hj)
      change (Function.update s.nodes d _ a).leader = a
      rw [Function.update_of_ne (Ne.symm hne)]
      exact hleader
    · obtain ⟨⟩ := hs
      exact hacts
  | step i o =>
    obtain ⟨p, c, k, hp, -, hc, -⟩ := hs.moved
    rw [hacts] at hp
    obtain ⟨n, rfl, hrest⟩ := hdone.not_done hp hc
    rcases n with _ | n
    · exact set_step ha hs hleader hacts hdone hphase rfl
    · cases hphase with
      | idle => cases hrest
      | called htask hstore hnode hprog hchild => cases hrest
      | running hpair hprog hchild =>
        rcases n with _ | n
        · exact attempt_step hr hl hs hleader hacts hdone hpair hprog hchild rfl
        · cases hrest

end Runs

end ReplicatedDB
