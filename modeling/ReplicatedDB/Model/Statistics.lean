import ReplicatedDB.Model.Procedures
import ReplicatedDB.Rpc.Record
import ReplicatedDB.Rpc.Traffic

/-!
# Statistics

With the debug flag every node counts RPCs: each handler counts that it was called, and each
wrapper of a stub that it calls, under its own name (`app::Statistics`). The requests that `get` and
`set` forward to the leader are made on the stub itself, so that only the leader counts them.

`count` keeps the counters of all nodes beside a run, and `getStats` is how they are asked for.

The counters have no lock. A thread that increments one reads the map and writes it back, and if
other threads of its node have written the map in between, their increments are lost. So all
versions of the counters since the start of a node are kept, and `behind` says how old the version
is that a thread has read. Increments do not overlap if it is always the newest one (`Serial`).

* `shown_count`: with increments that do not overlap, a step adds what it counts.
* `shown_count_le`: with any increments, it adds at most that, to some version.
-/

namespace ReplicatedDB

open Rpc Rpc.Net

/-- `std::map<std::string, int>`, from the names of functions to numbers of calls. -/
abbrev Counts := String → Option ℕ

namespace Counts

/-- `m[s] = (m.find(s) == m.end()) ? 1 : m[s] + 1`, where the right side has read the map when it
was `seen`. -/
def bump (seen m : Counts) (s : String) : Counts :=
  Function.update m s (match seen s with
    | none => some 1
    | some n => some (n + 1))

/-- `m[s]` on a copy of the map. -/
def read (m : Counts) (s : String) : ℕ := (m s).getD 0

theorem read_bump (seen m : Counts) (s s' : String) :
    (bump seen m s).read s' = if s = s' then seen.read s' + 1 else m.read s' := by
  rw [read, read, read, bump]
  by_cases h : s = s'
  · subst h
    rw [Function.update_self, if_pos rfl]
    rcases seen s with _ | n <;> rfl
  · rw [Function.update_of_ne (Ne.symm h), if_neg h]

end Counts

/-- `Statistics::rpc_type`. -/
inductive RpcType where
  | incoming
  | outgoing
deriving DecidableEq

/-- `app::Statistics`. -/
structure Statistics where
  incount : Counts := fun _ ↦ none
  outcount : Counts := fun _ ↦ none

namespace Statistics

/-- `Statistics::increment`, by a thread that has read the counters when they were `seen`. -/
def increment (seen st : Statistics) (s : String) : RpcType → Statistics
  | .incoming => { st with incount := .bump seen.incount st.incount s }
  | .outgoing => { st with outcount := .bump seen.outcount st.outcount s }

/-- What `user_entrypoint` shows of the counters of a node. -/
def shown (st : Statistics) : RpcType → String → ℕ
  | .incoming => st.incount.read
  | .outgoing => st.outcount.read

theorem shown_increment (seen st : Statistics) (s s' : String) (t t' : RpcType) :
    (increment seen st s t).shown t' s' =
      if t = t' ∧ s = s' then seen.shown t' s' + 1 else st.shown t' s' := by
  match t, t' with
  | .incoming, .incoming =>
    simp only [true_and]
    exact Counts.read_bump seen.incount st.incount s s'
  | .outgoing, .outgoing =>
    simp only [true_and]
    exact Counts.read_bump seen.outcount st.outcount s s'
  | .incoming, .outgoing | .outgoing, .incoming =>
    rw [if_neg fun h ↦ nomatch h.1]
    rfl

end Statistics

/-- `ConsensusRPC::get_stats`, which counts itself first. -/
def getStats (debug : Bool) (seen st : Statistics) : (Counts × Counts) × Statistics :=
  let st := if debug then .increment seen st "ConsensusRPC::get_stats" .incoming else st
  ((st.incount, st.outcount), st)

/-! ### What is counted -/

/-- The RPCs that a node answers in one step. -/
inductive Method where
  | ping
  | propose
  | accept
  | success
  | getLeader
  | getDB
deriving DecidableEq

/-- The name under which its handler is counted. -/
def Method.handler : Method → String
  | .ping => "ConsensusRPC::ping"
  | .propose => "ConsensusRPC::propose"
  | .accept => "ConsensusRPC::accept"
  | .success => "ConsensusRPC::success"
  | .getLeader => "ConsensusRPC::get_leader"
  | .getDB => "DatabaseRPC::get_db"

/-- The name under which its wrapper is counted. -/
def Method.wrapper : Method → String
  | .ping => "ConsensusRPCWrapperCall::ping"
  | .propose => "ConsensusRPCWrapperCall::propose"
  | .accept => "ConsensusRPCWrapperCall::accept"
  | .success => "ConsensusRPCWrapperCall::success"
  | .getLeader => "ConsensusRPCWrapperCall::get_leader"
  | .getDB => "DatabaseRPCWrapperCall::get_db"

/-- The RPC that an action is. -/
def Act.method? : Act → Option Method
  | .ping => some .ping
  | .propose _ => some .propose
  | .accept _ => some .accept
  | .success _ => some .success
  | .getLeader => some .getLeader
  | .getDB => some .getDB
  | _ => none

/-- The name under which a handler is counted that makes calls itself. -/
def Task.handler? : Task → Option String
  | .electLeader _ _ => some "ConsensusRPC::elect_leader"
  | .set _ _ => some "DatabaseRPC::set"
  | .get _ => some "DatabaseRPC::get"
  | .attemptConsensus _ | .coordinate => none

/-- The name under which the wrapper is counted that calls it: `trigger_election` is the only one
that the nodes use. -/
def Task.wrapper? : Task → Option String
  | .electLeader _ _ => some "ConsensusRPCWrapperCall::trigger_election"
  | _ => none

section Count

variable {cl : Cluster} (debug : String → Bool) (behind : ℕ → RpcType → String → ℕ)
  (s : Net (db cl))

/-- The statistics of a node as they were `k` increments ago, given all versions since its start,
newest first. -/
def version (versions : List Statistics) (k : ℕ) : Statistics := versions.getD k {}

/-- **The increments of the node do not overlap**: a thread that counts a call has read the counters
as the last one has left them. -/
def Serial (d : String) : Prop := ∀ n t, behind n t d = 0

/-- The wrapper that is called in a step, and where. -/
def outgoing? : Label Db → Option (String × String)
  | .step i _ => s.acts[i]?.bind fun p ↦
    match p.prog with
    | .call (.act (some _) a) _ => a.method?.map fun m ↦ (p.node, m.wrapper)
    | .call (.invoke (some _) t) _ => if p.child = none then t.wrapper?.map (p.node, ·) else none
    | _ => none
  | _ => none

/-- The handler that is called in a step, and where. -/
def incoming? (l : Label Db) : Option (String × String) :=
  match s.receives? l with
  | some (d, a) => a.method?.map fun m ↦ (d, m.handler)
  | none => (s.opens? l).bind fun x ↦ x.2.handler?.map (x.1, ·)

/-- A node whose debug flag is set counts a call, by a thread that has read the counters `k`
increments ago. -/
def note (k : String → ℕ) (t : RpcType) (g : String → List Statistics) :
    Option (String × String) → String → List Statistics
  | some (a, name) =>
    if debug a then
      Function.update g a (.increment (version (g a) (k a)) (version (g a) 0) name t :: g a)
    else g
  | none => g

/-- A node that restarts starts counting again. -/
def restarted (g : String → List Statistics) : Label Db → String → List Statistics
  | .restart a => Function.update g a []
  | _ => g

/-- **The statistics of all nodes** after a step, with their older versions. The thread that counts
a call at the node `a` in the step `n` has read them `behind n t a` increments ago. -/
def count (l : Label Db) (_ : Net (db cl)) (g : String → List Statistics) :
    String → List Statistics :=
  note debug (behind s.clock .incoming) .incoming
    (note debug (behind s.clock .outgoing) .outgoing (restarted g l) (outgoing? s l))
    (incoming? s l)

end Count

/-! ### What a step adds to the counters -/

section Steps

variable {cl : Cluster} {debug : String → Bool} {behind : ℕ → RpcType → String → ℕ}
  {s s' : Net (db cl)} {l : Label Db} {g : String → List Statistics} {a : String} {m : Method}

/-- How often a call is counted under the name at the node. -/
def tally (a name : String) (e : Option (String × String)) : ℕ :=
  e.toList.countP fun x ↦ decide (x = (a, name))

theorem tally_some (a name name' : String) :
    tally a name (some (a, name')) = if name' = name then 1 else 0 := by
  simp [tally, List.countP_singleton]

theorem note_self (ha : debug a = true) (k : String → ℕ) (t : RpcType)
    (g : String → List Statistics) (name : String) : note debug k t g (some (a, name)) a =
      .increment (version (g a) (k a)) (version (g a) 0) name t :: g a := by
  rw [note, if_pos ha, Function.update_self]

/-- Nothing is counted at the other nodes. -/
theorem note_of_ne {e : Option (String × String)} (he : ∀ name, e ≠ some (a, name))
    (k : String → ℕ) (t : RpcType) (g : String → List Statistics) :
    note debug k t g e a = g a := by
  rcases e with _ | ⟨b, name⟩
  · rfl
  · rw [note]
    split
    · rw [Function.update_of_ne fun h ↦ he name (by rw [h])]
    · rfl

theorem tally_of_ne {e : Option (String × String)} (he : ∀ name, e ≠ some (a, name))
    (name : String) : tally a name e = 0 := by
  refine List.countP_eq_zero.2 fun x hx h ↦ he name ?_
  rw [Option.mem_toList.1 hx, of_decide_eq_true h]

/-- **A call is counted**, if the thread has read the newest version. -/
theorem shown_note (ha : debug a = true) {k : String → ℕ} (hk : k a = 0) (t t' : RpcType)
    (g : String → List Statistics) (e : Option (String × String)) (name : String) :
    (version (note debug k t g e a) 0).shown t' name = (version (g a) 0).shown t' name +
      if t = t' then tally a name e else 0 := by
  by_cases he : ∃ name', e = some (a, name')
  · obtain ⟨name', rfl⟩ := he
    rw [note_self ha, hk, tally_some]
    refine (Statistics.shown_increment ..).trans ?_
    split
    · rename_i h
      rw [if_pos h.1, if_pos h.2]
    · rename_i h
      by_cases ht : t = t'
      · rw [if_pos ht, if_neg fun hname ↦ h ⟨ht, hname⟩, Nat.add_zero]
      · rw [if_neg ht, Nat.add_zero]
  · rw [note_of_ne (not_exists.1 he), tally_of_ne (not_exists.1 he), ite_self, Nat.add_zero]

/-- **A call is counted at most once**, whichever version the thread has read. -/
theorem shown_note_le (ha : debug a = true) (k : String → ℕ) (t t' : RpcType)
    (g : String → List Statistics) (e : Option (String × String)) (name : String) (j : ℕ) :
    ∃ j', (version (note debug k t g e a) j).shown t' name ≤ (version (g a) j').shown t' name +
      if t = t' then tally a name e else 0 := by
  by_cases he : ∃ name', e = some (a, name')
  · obtain ⟨name', rfl⟩ := he
    rw [note_self ha, tally_some]
    match j with
    | 0 =>
      have hshown := Statistics.shown_increment (version (g a) (k a)) (version (g a) 0) name' name
        t t'
      by_cases h : t = t' ∧ name' = name
      · rw [if_pos h] at hshown
        rw [if_pos h.1, if_pos h.2]
        exact ⟨k a, Nat.le_of_eq hshown⟩
      · rw [if_neg h] at hshown
        exact ⟨0, (Nat.le_of_eq hshown).trans (Nat.le_add_right _ _)⟩
    | j + 1 => exact ⟨j, Nat.le_add_right _ _⟩
  · rw [note_of_ne (not_exists.1 he)]
    exact ⟨j, Nat.le_add_right _ _⟩

/-- The calls of one kind that are counted in a step. -/
def noted? (s : Net (db cl)) (l : Label Db) : RpcType → Option (String × String)
  | .incoming => incoming? s l
  | .outgoing => outgoing? s l

theorem restarted_eq (hl : l.NoRestart) : restarted g l = g := by
  match l with
  | .submit _ _ | .step _ _ | .deliver _ => rfl
  | .restart _ => exact absurd hl id

/-- **The counters of a node** after a step, if its increments do not overlap. -/
theorem shown_count (ha : debug a = true) (hserial : Serial behind a) (hl : l.NoRestart)
    (t : RpcType) (name : String) : (version (count debug behind s l s' g a) 0).shown t name =
      (version (g a) 0).shown t name + tally a name (noted? s l t) := by
  rw [count, restarted_eq hl, shown_note ha (hserial _ _), shown_note ha (hserial _ _)]
  match t with
  | .incoming => rw [if_neg nofun, if_pos rfl, Nat.add_zero, noted?]
  | .outgoing => rw [if_pos rfl, if_neg nofun, Nat.add_zero, noted?]

/-- **An upper bound** on all versions of them, however increments overlap. -/
theorem shown_count_le (ha : debug a = true) (hl : l.NoRestart) (t : RpcType) (name : String)
    (j : ℕ) : ∃ j', (version (count debug behind s l s' g a) j).shown t name ≤
      (version (g a) j').shown t name + tally a name (noted? s l t) := by
  rw [count, restarted_eq hl]
  obtain ⟨j₁, hin⟩ := shown_note_le ha (behind s.clock .incoming) .incoming t
    (note debug (behind s.clock .outgoing) .outgoing g (outgoing? s l)) (incoming? s l) name j
  obtain ⟨j₂, hout⟩ := shown_note_le ha (behind s.clock .outgoing) .outgoing t g (outgoing? s l)
    name j₁
  refine ⟨j₂, hin.trans ((Nat.add_le_add_right hout _).trans (Nat.le_of_eq ?_))⟩
  match t with
  | .incoming => rw [if_neg nofun, if_pos rfl, Nat.add_zero, noted?]
  | .outgoing => rw [if_pos rfl, if_neg nofun, Nat.add_zero, noted?]

theorem Method.wrapper_inj {m m' : Method} : m.wrapper = m'.wrapper ↔ m = m' := by
  cases m <;> cases m' <;> decide

theorem Method.handler_inj {m m' : Method} : m.handler = m'.handler ↔ m = m' := by
  cases m <;> cases m' <;> decide

/-- The names of the other wrappers and handlers are different. -/
theorem Task.wrapper?_ne (t : Task) (m : Method) : t.wrapper? ≠ some m.wrapper := by
  cases t <;> cases m <;> simp [Task.wrapper?, Method.wrapper]

theorem Task.handler?_ne (t : Task) (m : Method) : t.handler? ≠ some m.handler := by
  cases t <;> cases m <;> simp [Task.handler?, Method.handler]

/-- Messages of one kind, as they leave a node. -/
def leaving (a : String) (m : Method) (x : Message Db) : Bool :=
  decide (x.source = a) && decide (Act.method? x.act = some m)

/-- ... and as they arrive. -/
def arriving (d : String) (m : Method) (x : String × Act) : Bool :=
  decide (x.1 = d) && decide (x.2.method? = some m)

/-- A wrapper is counted once for each message. -/
theorem countP_outgoing (s : Net (db cl)) (l : Label Db) (a : String) (m : Method) :
    tally a m.wrapper (outgoing? s l) = (s.sends? l).toList.countP (leaving a m) := by
  match l with
  | .submit _ _ | .deliver _ | .restart _ => rfl
  | .step i o =>
    rw [tally, outgoing?, sends?]
    rcases s.acts[i]? with _ | p
    · rfl
    rw [Option.bind_some, Option.bind_some]
    rcases p.prog with _ | ⟨⟨_ | d, act⟩ | ⟨_ | d, t⟩, k⟩
    · rfl
    · rfl
    · -- one action over the network
      show (act.method?.map fun m ↦ (p.node, m.wrapper)).toList.countP _ =
        [(⟨p.node, d, act⟩ : Message Db)].countP _
      rw [List.countP_singleton, leaving]
      rcases act.method? with _ | m'
      · simp
      · simp [Method.wrapper_inj, ← Bool.decide_and]
    · rfl
    · -- a procedure has another name
      show (if p.child = none then t.wrapper?.map (p.node, ·) else none).toList.countP _ = 0
      have hne := t.wrapper?_ne m
      split
      · rcases hname : t.wrapper? with _ | name
        · rfl
        · refine (List.countP_singleton ..).trans (if_neg fun h ↦ hne (hname.trans ?_))
          exact congrArg some (Prod.mk.inj (of_decide_eq_true h)).2
      · rfl

/-- A handler is counted once for each message. -/
theorem countP_incoming (s : Net (db cl)) (l : Label Db) (d : String) (m : Method) :
    tally d m.handler (incoming? s l) = (s.receives? l).toList.countP (arriving d m) := by
  rw [tally, incoming?]
  rcases s.receives? l with _ | ⟨b, act⟩
  · rcases s.opens? l with _ | ⟨b, t⟩
    · rfl
    · show (t.handler?.map (b, ·)).toList.countP _ = 0
      have hne := t.handler?_ne m
      rcases hname : t.handler? with _ | name
      · rfl
      · refine (List.countP_singleton ..).trans (if_neg fun h ↦ hne (hname.trans ?_))
        exact congrArg some (Prod.mk.inj (of_decide_eq_true h)).2
  · show (act.method?.map fun m ↦ (b, m.handler)).toList.countP _ = [(b, act)].countP _
    rw [List.countP_singleton, arriving]
    rcases act.method? with _ | m'
    · simp
    · simp [Method.handler_inj, ← Bool.decide_and]

/-- What `get_stats` answers is what is shown. -/
theorem read_getStats (b : Bool) (seen st : Statistics) {name : String}
    (hname : name ≠ "ConsensusRPC::get_stats") :
    (getStats b seen st).1.1.read name = st.shown .incoming name ∧
      (getStats b seen st).1.2.read name = st.shown .outgoing name := by
  rw [getStats]
  split
  · have hother : ∀ t, ¬ (RpcType.incoming = t ∧ "ConsensusRPC::get_stats" = name) :=
      fun t h ↦ hname h.2.symm
    have hshown := Statistics.shown_increment seen st "ConsensusRPC::get_stats" name .incoming
    exact ⟨(hshown .incoming).trans (if_neg (hother _)),
      (hshown .outgoing).trans (if_neg (hother _))⟩
  · exact ⟨rfl, rfl⟩

end Steps

end ReplicatedDB
